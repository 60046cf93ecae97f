import MeshPP.SystemUtility.MapRefinement
import MeshPP.SystemUtility.VectorRefinement

/-! # A save that throws leaves the container as last committed

Whatever call on a file fails in it, a save that throws has changed no committed
file, and the container is one that was just opened on the committed files: it
answers every later run as that one does, although files of the failed save may
be left in the directory. -/

namespace MeshPP.SystemUtility
open MeshPP.Lib

/-- The committed files alone. -/
def Disk.committedOnly (d : Disk) : Disk := fun f => ⟨(d f).main, (d f).m, none, none⟩

theorem Disk.same_committedOnly (d : Disk) (f : String) :
    (d f).SameCommitted (d.committedOnly f) := ⟨rfl, rfl⟩

/-- A container over a transactional value: what it does, and what is asked of it. -/
structure TxnContainer (α σ Op Out : Type) where
  start : α
  act : α → α → Op → Out × α
  done : Out
  thrown : Err → Out
  Failed : Out → Prop
  opened : IterOrder → Disk → Option σ
  step : σ → Call Op → Out × σ
  disk : σ → Disk
  ptransaction : σ → Option ClassTransaction
  /-- Keys and size that are visible without a call on a file. -/
  Shows : α → σ → Prop

namespace TxnContainer
variable {α σ Op Out : Type} (M : TxnContainer α σ Op Out)

abbrev History (a : Txn α) (calls : List (Call Op)) (s : σ) (b : Txn α) : Prop :=
  Lib.History M.act M.done M.Failed a ((calls.map Call.op).zip (outputs M.step s calls)) b

/-- What a save that threw in `s` has left as `t`, where `c` was last committed. -/
structure Restored (c : α) (s t : σ) : Prop where
  committed : ∀ f, (M.disk s f).SameCommitted (M.disk t f)
  closed : M.ptransaction t = none
  shows : M.Shows c t
  /-- Later runs see what a container opened on the committed files sees. -/
  fresh : ∀ ord, ∃ r, M.opened ord (M.disk t).committedOnly = some r ∧
    ∀ later : List (Call Op), (∀ c ∈ later, ¬ c.Faulty) →
      outputs M.step t later = outputs M.step r later
  /-- They see the values last committed. -/
  answers : ∀ later : List (Call Op), (∀ c ∈ later, ¬ c.Faulty) →
    outputs M.step t later = outputs (fun t c => Txn.step M.act M.done t c.op) (Txn.start c) later
  /-- Where calls fail later on, they still are runs from the values last committed. -/
  history : ∀ later : List (Call Op), ∃ b, M.History (Txn.start c) later t b

/-- Every run from an empty directory, with any faults, has a history, and a save that
throws behind it leaves what that history has last committed. -/
def SaveRestores : Prop :=
  ∀ ord s, M.opened ord Disk.empty = some s → ∀ calls : List (Call Op),
    ∃ a, M.History (Txn.start M.start) calls s a ∧
      ∀ ord faults e t, M.step (final M.step s calls) ⟨.save, ord, faults⟩ = (M.thrown e, t) →
        M.Restored a.committed (final M.step s calls) t

/-- It is enough that a save that throws falls back to the committed value, and that
a directory shows the value its committed files hold. -/
theorem saveRestores_of {I : Txn α → σ → Prop} {H : α → Disk → Prop}
    (himpl : Implements M.act M.done M.Failed Call.op Call.Faulty M.step I)
    (hempty : H M.start Disk.empty)
    (hopened : ∀ ord c d, H c d → ∃ r, M.opened ord d = some r ∧ I (Txn.start c) r)
    (hsame : ∀ c d d', (∀ f, (d f).SameCommitted (d' f)) → H c d → H c d')
    (hsave : ∀ a s ord faults e t, I a s → M.step s ⟨.save, ord, faults⟩ = (M.thrown e, t) →
      I (Txn.start a.committed) t ∧ H a.committed (M.disk t) ∧ M.ptransaction t = none ∧
        M.Shows a.committed t ∧ ∀ f, (M.disk s f).SameCommitted (M.disk t f)) :
    M.SaveRestores := by
  intro ord s hs calls
  obtain ⟨s', hs', hinv⟩ := hopened ord _ _ hempty
  obtain rfl : s = s' := Option.some.inj (hs.symm.trans hs')
  obtain ⟨a, ha, hfin⟩ := himpl.history hinv calls
  refine ⟨a, ha, fun ord faults e t ht => ?_⟩
  obtain ⟨hinvt, hholds, hnone, hshows, hcommitted⟩ := hsave _ _ _ _ _ _ hfin ht
  refine ⟨hcommitted, hnone, hshows, fun ord => ?_, fun later hq => (himpl.refines hinvt hq).1,
    fun later => ?_⟩
  · obtain ⟨r, hr, hinvr⟩ := hopened ord _ _ (hsame _ _ _ (M.disk t).same_committedOnly hholds)
    exact ⟨r, hr, fun later hq =>
      (himpl.refines hinvt hq).1.trans (himpl.refines hinvr hq).1.symm⟩
  · obtain ⟨b, hb, -⟩ := himpl.history hinvt later
    exact ⟨b, hb⟩

end TxnContainer

variable {T : Type}

def mapContainer (cfg : MapConfig T) : TxnContainer (Map T) (MapStore T) (MapOp T) (MapOut T) where
  start := ∅
  act := MapSpec.act cfg.name
  done := .done
  thrown := .thrown
  Failed := MapOut.Thrown
  opened := MapStore.opened cfg
  step := MapStore.step cfg
  disk s := s.disk
  ptransaction s := s.self.ptransaction
  Shows c s := s.self.keysWithOverlay = c.keys

def vectorContainer (cfg : VectorConfig T) :
    TxnContainer (List T) (VectorStore T) (VectorOp T) (VectorOut T) where
  start := []
  act := VectorSpec.act cfg.name
  done := .done
  thrown := .thrown
  Failed := VectorOut.Thrown
  opened := VectorStore.opened cfg
  step := VectorStore.step cfg
  disk s := s.disk
  ptransaction s := s.self.ptransaction
  Shows c s := s.self.sizeWithOverlay = c.length

theorem Holding.frame {cfg : MapConfig T} {c : Map T} {d d' : Disk} (h : Holding cfg c d)
    (hs : ∀ f, (d f).SameCommitted (d' f)) : Holding cfg c d' :=
  ⟨fun f hf => (hs _).rep (h.blocks f hf), (hs _).rep h.indexBlock⟩

theorem mapContainer_saveRestores (cfg : MapConfig T) : (mapContainer cfg).SaveRestores := by
  refine (mapContainer cfg).saveRestores_of (I := StoreInv cfg) (H := Holding cfg)
    map_implements (holding_empty cfg) (fun ord c d h => ?_) (fun c d d' hs h => h.frame hs) ?_
  · obtain ⟨r, hr, -, hinv, -⟩ := opened_inv ord h
    exact ⟨r, hr, hinv⟩
  intro a s ord faults e t hinv ht
  have hans := save_answers ord (hinv faults)
  simp only [mapContainer, MapStore.step, MapLoader.perform, bind, EStateM.bind] at ht
  cases hr : MapLoader.save cfg ord ⟨⟨s.disk, faults⟩, s.self⟩ with
  | ok u r => rw [hr] at ht; cases ht
  | error e' r =>
    rw [hr] at hans ht
    obtain ⟨-, hr', hnone, hsame⟩ := hans
    cases ht
    exact ⟨hr'.store, ⟨hr'.durable.blocks, hr'.durable.indexBlock⟩, hnone, hr'.keys, hsame⟩

theorem vectorContainer_saveRestores (cfg : VectorConfig T) :
    (vectorContainer cfg).SaveRestores := by
  refine (vectorContainer cfg).saveRestores_of (I := VectorStoreInv cfg)
    (H := VectorHolding cfg) vector_implements (vectorHolding_empty cfg) (fun ord c d h => ?_)
    (fun c d d' hs h => h.frame hs) ?_
  · obtain ⟨r, hr, -, hinv, -⟩ := vectorOpened_inv ord h
    exact ⟨r, hr, hinv⟩
  intro a s ord faults e t hinv ht
  have hans := vectorSave_answers ord (hinv faults)
  simp only [vectorContainer, VectorStore.step, VectorLoader.perform, bind, EStateM.bind] at ht
  cases hr : VectorLoader.save cfg ord ⟨⟨s.disk, faults⟩, s.self⟩ with
  | ok u r => rw [hr] at ht; cases ht
  | error e' r =>
    rw [hr] at hans ht
    obtain ⟨-, hr', hnone, hsame⟩ := hans
    cases ht
    exact ⟨hr'.store, hr'.durable, hnone, hr'.sizeWithOverlay, hsame⟩

/-- Both containers come back from a save that throws. -/
theorem failed_save_restores (mapCfg : MapConfig T) (vectorCfg : VectorConfig T) :
    (mapContainer mapCfg).SaveRestores ∧ (vectorContainer vectorCfg).SaveRestores :=
  ⟨mapContainer_saveRestores mapCfg, vectorContainer_saveRestores vectorCfg⟩

/-- One value is committed, another one is saved behind it, and a third one is put in. -/
def balancesSaved : List (Call (MapOp Nat)) :=
  [.act (.insert "a" 1), .save, .commit, .act (.insert "b" 2), .save,
    .act (.insert "c" 3)].map fun op => ⟨op, .stored, []⟩

/-- The write of the third value fails, and the pending files of the block are lost. -/
def lostWrite : List (Option Fault) := List.replicate 21 none ++ [some ⟨none, none, .badbit, ""⟩]

/-- The save that fails takes the earlier one with it; what is committed stays. -/
theorem failed_save_restores_balances : ∃ s a t,
    MapStore.opened balances .stored Disk.empty = some s ∧
    (mapContainer balances).History (Txn.start ∅) balancesSaved s a ∧
    MapStore.step balances (final (MapStore.step balances) s balancesSaved)
      ⟨.save, .stored, lostWrite⟩ = (.thrown (.runtimeError
        "save(): badbit, after write to 16-24 on: balances.0000.tr - opened size: 16"), t) ∧
    (mapContainer balances).Restored a.committed
      (final (MapStore.step balances) s balancesSaved) t ∧
    t.self.keysWithOverlay = {"a"} := by
  have hrestores : ∀ s e, MapStore.opened balances .stored Disk.empty = some s →
      ∀ out, MapStore.step balances (final (MapStore.step balances) s balancesSaved)
        ⟨.save, .stored, lostWrite⟩ = out → out.1 = .thrown e → ∃ a,
      (mapContainer balances).History (Txn.start ∅) balancesSaved s a ∧
      MapStore.step balances (final (MapStore.step balances) s balancesSaved)
        ⟨.save, .stored, lostWrite⟩ = (.thrown e, out.2) ∧
      (mapContainer balances).Restored a.committed
        (final (MapStore.step balances) s balancesSaved) out.2 := by
    intro s e hs out hout he
    obtain ⟨a, ha, hr⟩ := (failed_save_restores balances heights).1 .stored s hs balancesSaved
    have hstep := hout.trans (Prod.ext (x := out) (y := (.thrown e, out.2)) he rfl)
    exact ⟨a, ha, hstep, hr .stored lostWrite e _ hstep⟩
  obtain ⟨a, ha, hstep, hr⟩ := hrestores _ (.runtimeError
    "save(): badbit, after write to 16-24 on: balances.0000.tr - opened size: 16") rfl _ rfl
    (by decide +kernel)
  exact ⟨_, a, _, rfl, ha, hstep, hr, by decide +kernel⟩

end MeshPP.SystemUtility
