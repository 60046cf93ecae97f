import Mathlib.Data.List.Basic

/-! # Deterministic machines and their runs

A machine is a step function `σ → Op → Out × σ`. A run over a list of
operations yields the list of outputs and the last state. `Meets C s ops` says
that every step of the run meets the condition `C` on the operation and the
state it starts from; the run lemmas turn what one step preserves under `C`
into what a whole run preserves. -/

namespace MeshPP.Lib

universe u v w
variable {σ : Type u} {τ : Type u} {Op : Type v} {Out : Type w}

def run (step : σ → Op → Out × σ) : σ → List Op → List Out × σ
  | s, [] => ([], s)
  | s, op :: ops =>
    let r := step s op
    let rest := run step r.2 ops
    (r.1 :: rest.1, rest.2)

abbrev outputs (step : σ → Op → Out × σ) (s : σ) (ops : List Op) : List Out := (run step s ops).1

abbrev final (step : σ → Op → Out × σ) (s : σ) (ops : List Op) : σ := (run step s ops).2

/-- Every step of the run meets `C` in the state it starts from. -/
def Meets (step : σ → Op → Out × σ) (C : σ → Op → Prop) : σ → List Op → Prop
  | _, [] => True
  | s, op :: ops => C s op ∧ Meets step C (step s op).2 ops

variable {step : σ → Op → Out × σ} {C : σ → Op → Prop} {Inv : σ → Prop}

/-- The run lemma: what each admitted step preserves, each admitted run preserves. -/
theorem invariant_final (hstep : ∀ s op, Inv s → C s op → Inv (step s op).2)
    {s : σ} {ops : List Op} (hi : Inv s) (hm : Meets step C s ops) :
    Inv (final step s ops) := by
  induction ops generalizing s with
  | nil => exact hi
  | cons op ops ih => exact ih (hstep s op hi hm.1) hm.2

/-- What the invariant says of a step with the condition, it says of every step of the run. -/
theorem Meets.invariant {D : σ → Op → Prop} (hstep : ∀ s op, Inv s → C s op → Inv (step s op).2)
    (hd : ∀ s op, Inv s → C s op → D s op) {s : σ} {ops : List Op} (hm : Meets step C s ops)
    (hi : Inv s) : Meets step D s ops := by
  induction ops generalizing s with
  | nil => trivial
  | cons op ops ih => exact ⟨hd s op hi hm.1, ih hm.2 (hstep s op hi hm.1)⟩

theorem Meets.mono {D : σ → Op → Prop} (h : ∀ s op, C s op → D s op) {s : σ} {ops : List Op}
    (hm : Meets step C s ops) : Meets step D s ops := by
  induction ops generalizing s with
  | nil => trivial
  | cons op ops ih => exact ⟨h s op hm.1, ih hm.2⟩

theorem meets_of_forall (h : ∀ s, ∀ op, C s op) (s : σ) (ops : List Op) : Meets step C s ops := by
  induction ops generalizing s with
  | nil => trivial
  | cons op ops ih => exact ⟨h s op, ih _⟩

theorem final_append (step : σ → Op → Out × σ) (s : σ) (ops more : List Op) :
    final step s (ops ++ more) = final step (final step s ops) more := by
  induction ops generalizing s with
  | nil => rfl
  | cons op ops ih => exact ih _

/-- Simulation: related states give equal outputs and related states, so runs
from related states give equal lists of outputs and end in related states. -/
theorem simulation_run {step' : τ → Op → Out × τ} {R : σ → τ → Prop} {P : Op → Prop}
    (hstep : ∀ s t op, R s t → P op →
      (step s op).1 = (step' t op).1 ∧ R (step s op).2 (step' t op).2)
    {s : σ} {t : τ} (h : R s t) : ∀ {ops : List Op}, (∀ op ∈ ops, P op) →
      outputs step s ops = outputs step' t ops ∧ R (final step s ops) (final step' t ops) := by
  intro ops
  induction ops generalizing s t with
  | nil => intro _; exact ⟨rfl, h⟩
  | cons op ops ih =>
    intro hp
    obtain ⟨ho, hs⟩ := hstep s t op h (hp op (by simp))
    obtain ⟨hos, hss⟩ := ih hs (fun o hm => hp o (by simp [hm]))
    refine ⟨?_, hss⟩
    simp only [outputs, run]
    rw [ho]
    exact congrArg _ hos

end MeshPP.Lib
