import MeshPP.Lib.Machine

/-! # Transactional values

A transactional value is kept three times: as last committed, as last saved and
as it is worked on. A sequential object given by `act`, which reads the saved
and the working value and moves the working one, becomes a machine over
`TxnOp`. A step may also fail: a failed save falls back to the committed value,
any other failed step changes nothing (`Txn.fail`).

A concrete machine implements the transactional one when an abstraction
relation is kept by every step, whether it succeeds or fails (`Implements`).
Then every run has a history (`History`), and a run whose steps cannot fail has
the outputs of the abstract machine. -/

namespace MeshPP.Lib

universe u v w x
variable {α : Type u} {Op : Type v} {Out : Type w}

structure Txn (α : Type u) where
  committed : α
  saved : α
  working : α

inductive TxnOp (Op : Type v)
  | act (op : Op)
  | save
  | commit
  | discard
  | reopen

namespace Txn

def start (a : α) : Txn α := ⟨a, a, a⟩

def step (act : α → α → Op → Out × α) (done : Out) (t : Txn α) : TxnOp Op → Out × Txn α
  | .act op => ((act t.saved t.working op).1, { t with working := (act t.saved t.working op).2 })
  | .save => (done, { t with saved := t.working })
  | .commit => (done, { t with committed := t.saved })
  | .discard => (done, start t.committed)
  | .reopen => (done, start t.saved)

def fail (t : Txn α) : TxnOp Op → Txn α
  | .save => start t.committed
  | _ => t

end Txn

/-- What a run, seen as operations with their outputs, does to the abstract value:
each step either answers as the abstract machine and moves as it does, or fails. -/
inductive History (act : α → α → Op → Out × α) (done : Out) (Failed : Out → Prop) :
    Txn α → List (TxnOp Op × Out) → Txn α → Prop
  | nil (t : Txn α) : History act done Failed t [] t
  | step {t t' : Txn α} {op : TxnOp Op} {rest : List (TxnOp Op × Out)} :
      History act done Failed (Txn.step act done t op).2 rest t' →
      History act done Failed t ((op, (Txn.step act done t op).1) :: rest) t'
  | fail {t t' : Txn α} {op : TxnOp Op} {out : Out} {rest : List (TxnOp Op × Out)} :
      Failed out → History act done Failed (t.fail op) rest t' →
      History act done Failed t ((op, out) :: rest) t'

variable {σ : Type u} {Call : Type x}

/-- One step of the concrete machine keeps the relation `Inv` to the abstract value. -/
def Implements (act : α → α → Op → Out × α) (done : Out) (Failed : Out → Prop)
    (opOf : Call → TxnOp Op) (Faulty : Call → Prop) (step : σ → Call → Out × σ)
    (Inv : Txn α → σ → Prop) : Prop :=
  ∀ a s c, Inv a s →
    ((step s c).1 = (Txn.step act done a (opOf c)).1 ∧
      Inv (Txn.step act done a (opOf c)).2 (step s c).2) ∨
    (Faulty c ∧ Failed (step s c).1 ∧ Inv (a.fail (opOf c)) (step s c).2)

variable {act : α → α → Op → Out × α} {done : Out} {Failed : Out → Prop} {opOf : Call → TxnOp Op}
  {Faulty : Call → Prop} {step : σ → Call → Out × σ} {Inv : Txn α → σ → Prop}

/-- A run without faults has the outputs of the abstract machine. -/
theorem Implements.refines (h : Implements act done Failed opOf Faulty step Inv) {a : Txn α} {s : σ}
    (hi : Inv a s) {calls : List Call} (hq : ∀ c ∈ calls, ¬ Faulty c) :
    outputs step s calls = outputs (fun t c => Txn.step act done t (opOf c)) a calls ∧
      Inv (final (fun t c => Txn.step act done t (opOf c)) a calls) (final step s calls) :=
  simulation_run (R := fun s t => Inv t s) (P := fun c => ¬ Faulty c)
    (fun s t c hs hc => (h t s c hs).resolve_right fun hf => hc hf.1) hi hq

/-- Every run, whatever fails in it, has a history. -/
theorem Implements.history (h : Implements act done Failed opOf Faulty step Inv) {a : Txn α} {s : σ}
    (hi : Inv a s) (calls : List Call) :
    ∃ b, History act done Failed a ((calls.map opOf).zip (outputs step s calls)) b ∧
      Inv b (final step s calls) := by
  induction calls generalizing a s with
  | nil => exact ⟨a, .nil a, hi⟩
  | cons c calls ih =>
    rcases h a s c hi with ⟨ho, hs⟩ | ⟨-, hf, hs⟩
    · obtain ⟨b, hb, hfin⟩ := ih hs
      refine ⟨b, ?_, hfin⟩
      rw [List.map_cons, show outputs step s (c :: calls) =
        (step s c).1 :: outputs step (step s c).2 calls from rfl, List.zip_cons_cons, ho]
      exact .step hb
    · obtain ⟨b, hb, hfin⟩ := ih hs
      exact ⟨b, .fail hf hb, hfin⟩

end MeshPP.Lib
