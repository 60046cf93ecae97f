import MeshPP.SystemUtility.Overlay
import MeshPP.SystemUtility.SavedBlocks

/-! # What the two containers have in common

Both containers keep an overlay and a transaction, load an item into the overlay
from the block its key lies in, and reach an object through the overlay. The
programs are written once, over the world and the common part of a container,
and say what they leave to the container: whether a key is known to it, and its
texts. A program that throws leaves the state as it was at that moment. -/

namespace MeshPP.SystemUtility
open MeshPP.Lib

structure Core (K T : Type) where
  overlay : Overlay K T
  ptransaction : Option ClassTransaction

structure CoreState (K T : Type) where
  world : World
  core : Core K T

abbrev CoreM (K T : Type) := EStateM Err (CoreState K T)

/-- The texts an access can throw. -/
structure AccessTexts where
  deleted : String
  missing : String
  justLoaded : String

variable {K T : Type}

namespace Core

/-- The open transaction, or one without entries. -/
def transaction (c : Core K T) : ClassTransaction := c.ptransaction.getD .empty

/-- `class_transaction::overlay.insert`, where a transaction is open. -/
def enter (c : Core K T) (file : String) : Core K T :=
  { c with ptransaction := c.ptransaction.map fun t => t.enter file }

/-- `pimpl->ptransaction`, created where there is none. -/
def opened (c : Core K T) : Core K T := { c with ptransaction := some c.transaction }

section
variable [DecidableEq K] (fmt : BlockFormat K T) (file : String) (key : K)

/-- Load the item under `key` to the overlay. The block loader hands the
transaction it was lent back unchanged, also when it throws. -/
def load : CoreM K T PUnit := do
  modify fun s => { s with core := s.core.enter file }
  let itemPtransaction := (← get).core.ptransaction.bind fun t => (t.overlay.lookup file).join
  let packet ← zoom CoreState.world (fun w s => { s with world := w }) do
    let temp ← BlockFileLoader.construct fmt file [key] itemPtransaction false
    temp.get key
  modify fun s => { s with core :=
    { s.core with overlay := s.core.overlay.insert key (packet, .none) } }

/-- `it_overlay->second.first.get(presult)`. -/
def getPacket : Option T → CoreM K T T
  | some v => pure v
  | none => throw emptyPacket

/-- The constant `at`: the object under `key`, loaded if need be. -/
def reach (texts : AccessTexts) (known : Bool) : CoreM K T T := do
  match (← get).core.overlay.lookup key with
  | some (packet, code) =>
    if code = .deleted then throw (.outOfRange texts.deleted)
    else getPacket packet
  | none =>
    if known then do
      load fmt file key
      match (← get).core.overlay.lookup key with
      | some (packet, code) =>
        if code = .deleted then throw (.runtimeError texts.justLoaded)
        else getPacket packet
      | none => throw (.runtimeError texts.justLoaded)
    else throw (.outOfRange texts.missing)

/-- The mutable `at`, whose caller applies `assign` to the object at once. -/
def mutableAt (texts : AccessTexts) (known : Bool) (assign : T → T) : CoreM K T T := do
  let v ← reach fmt file key texts known
  modify fun s => { s with core :=
    { s.core with overlay := s.core.overlay.insert key (some (assign v), .modified) } }
  pure v

end

/-! ## Entering files -/

theorem transaction_enter (c : Core K T) (f : String) (ho : c.ptransaction.isSome) :
    (c.enter f).transaction = c.transaction.enter f := by
  obtain ⟨t, ht⟩ := Option.isSome_iff_exists.mp ho
  simp [transaction, enter, ht]

theorem enter_of_closed (c : Core K T) (f : String) (hp : c.ptransaction = none) :
    c.enter f = c := by
  simp only [enter, hp, Option.map_none]
  rw [← hp]

/-- `b` is `a` with entries for `files` in its transaction. -/
structure Entered (headFile : String) (files : List String) (a b : Core K T) : Prop where
  overlay : b.overlay = a.overlay
  isOpen : b.ptransaction.isSome = a.ptransaction.isSome
  head : b.transaction.head = a.transaction.head
  entry : ∀ q, b.transaction.entry headFile q = a.transaction.entry headFile q
  ok : a.transaction.Ok headFile → b.transaction.Ok headFile
  kept : ∀ f ∈ a.transaction.overlay, f ∈ b.transaction.overlay
  entered : a.ptransaction.isSome → ∀ f ∈ files, f ∈ b.transaction.overlay

variable {headFile : String}

theorem Entered.nil (a : Core K T) : Entered headFile [] a a where
  overlay := rfl
  isOpen := rfl
  head := rfl
  entry _ := rfl
  ok := id
  kept _ := id
  entered _ f hf := by cases hf

theorem Entered.single (a : Core K T) {f : String} (hf : f ≠ headFile) :
    Entered headFile [f] a (a.enter f) := by
  cases hp : a.ptransaction with
  | none =>
    rw [a.enter_of_closed f hp]
    exact { Entered.nil a with entered := fun ho => by rw [hp] at ho; cases ho }
  | some t =>
    have htr := a.transaction_enter f (by rw [hp]; rfl)
    refine ⟨rfl, by simp [enter], by rw [htr]; rfl, fun q => ?_, fun h => ?_, fun q hq => ?_,
      fun _ q hq => ?_⟩
    · rw [htr, ClassTransaction.entry_enter]
    · rw [htr]; exact h.enter hf
    · rw [htr]; exact (ClassTransaction.mem_enter _ _ _).mpr (.inr hq)
    · rw [htr, List.mem_singleton.mp hq]
      exact (ClassTransaction.mem_enter _ _ _).mpr (.inl rfl)

theorem Entered.trans {fs fs' : List String} {a b c : Core K T} (h : Entered headFile fs a b)
    (h' : Entered headFile fs' b c) : Entered headFile (fs ++ fs') a c where
  overlay := h'.overlay.trans h.overlay
  isOpen := h'.isOpen.trans h.isOpen
  head := h'.head.trans h.head
  entry q := (h'.entry q).trans (h.entry q)
  ok := h'.ok ∘ h.ok
  kept f hf := h'.kept f (h.kept f hf)
  entered ho f hf := by
    rcases List.mem_append.mp hf with hf | hf
    · exact h'.kept _ (h.entered ho f hf)
    · exact h'.entered (by rw [h.isOpen]; exact ho) f hf

/-! ## Access -/

variable [DecidableEq K] {fmt : BlockFormat K T} {name : K → String} {g w : K → Option T}

/-- The blocks hold `g`, and the overlay leads from `g` to `w`. -/
structure Means (fmt : BlockFormat K T) (name : K → String) (headFile : String) (g w : K → Option T)
    (s : CoreState K T) : Prop where
  blocks : Saved fmt name headFile s.world.disk s.core.transaction g
  ok : s.core.transaction.Ok headFile
  overlay : s.core.overlay.Between g w

/-- Programs that only read files and leave what the container means as it is. -/
def accessFrame (fmt : BlockFormat K T) (name : K → String) (headFile : String)
    (g w : K → Option T) : Frame (CoreState K T) where
  le s t := t.world.faults <:+ s.world.faults ∧ t.world.disk = s.world.disk ∧
    t.core.transaction.head = s.core.transaction.head ∧
    t.core.ptransaction.isSome = s.core.ptransaction.isSome ∧
    (Means fmt name headFile g w s → Means fmt name headFile g w t)
  refl _ := ⟨List.suffix_refl _, rfl, rfl, rfl, id⟩
  trans h h' := ⟨h'.1.trans h.1, h'.2.1.trans h.2.1, h'.2.2.1.trans h.2.2.1,
    h'.2.2.2.1.trans h.2.2.2.1, h'.2.2.2.2 ∘ h.2.2.2.2⟩
  excused s := s.world.Faulty
  excused_of_le h := fun ⟨x, hx⟩ => ⟨x, h.1.subset hx⟩

theorem le_enter (s : CoreState K T) {f : String} (hf : f ≠ headFile) :
    (accessFrame fmt name headFile g w).le s { s with core := s.core.enter f } := by
  have he := Entered.single s.core hf
  refine ⟨List.suffix_refl _, rfl, he.head, he.isOpen, fun h => ⟨fun q hq => ?_, he.ok h.ok, ?_⟩⟩
  · rw [he.entry]; exact h.blocks q hq
  · rw [he.overlay]; exact h.overlay

theorem load_spec {s : CoreState K T} (h : Means fmt name headFile g w s) {key : K} {v : T}
    (hf : name key ≠ headFile) (hv : g key = some v) (ho : s.core.overlay.lookup key = none) :
    Ends (accessFrame fmt name headFile g w) (load fmt (name key) key) s (fun _ s' =>
      s'.core.overlay.lookup key = some (some v, .none)) := by
  have hle : (accessFrame fmt name headFile g w).le s { s with core := s.core.enter (name key) } :=
    le_enter s hf
  have h1 := hle.2.2.2.2 h
  unfold load
  refine Ends.bind (ends_modify (F := accessFrame fmt name headFile g w) (Q := fun _ t => t =
    { s with core := s.core.enter (name key) }) hle rfl) fun _ s1 _ hs1 => ?_
  subst hs1
  refine (ends_get (Q := fun a t => a = { s with core := s.core.enter (name key) } ∧
    t = { s with core := s.core.enter (name key) }) ⟨rfl, rfl⟩).bind fun b t _ ht => ?_
  obtain ⟨rfl, rfl⟩ := ht
  generalize hs1 : ({ s with core := s.core.enter (name key) } : CoreState K T) = s1 at *
  have hentry : (s1.core.ptransaction.bind fun t => (t.overlay.lookup (name key)).join) =
      s1.core.transaction.entry headFile (name key) := by
    rw [ClassTransaction.entry, if_neg hf, transaction]
    cases s1.core.ptransaction <;> rfl
  have ho1 : s1.core.overlay.lookup key = none := by rw [← hs1]; exact ho
  rw [hentry]
  obtain ⟨items, hh, hd⟩ := h1.blocks (name key) hf
  -- the block loader reads the files the transaction of the block names
  have hread : Ends readFrame (do
      let temp ← BlockFileLoader.construct fmt (name key) [key]
        (s1.core.transaction.entry headFile (name key)) false
      temp.get key) s1.world (fun packet w' => packet = some v ∧ w'.disk = s1.world.disk) := by
    refine (construct_spec hh).bind fun temp w1 _ ht => ?_
    obtain ⟨hc, hw⟩ := ht
    have hvalues := hc.values (by rw [hc.clear]; rfl)
    obtain ⟨u, hu⟩ := UMap.mem_iff.mp ((hvalues.mem_iff key).mpr (.inl (by simp)))
    simp only [BlockFileLoader.get, hu]
    refine ends_pure ⟨?_, hw⟩
    rw [(hvalues.item hd hu).1]
    simp [restrict, hv]
  refine Ends.bind (hread.zoom (F := accessFrame fmt name headFile g w) (fun w1 hw1 =>
    ⟨hw1.1, hw1.2, rfl, rfl, fun hm => ⟨?_, hm.ok, hm.overlay⟩⟩) id) fun packet s2 _ h2 => ?_
  · rw [hw1.2]; exact hm.blocks
  obtain ⟨w1, rfl, hw1, rfl, -⟩ := h2
  refine ends_modify ⟨List.suffix_refl _, rfl, rfl, rfl, fun h2 => ⟨h2.blocks, h2.ok, ?_⟩⟩ (by simp)
  have hsame : w key = g key := by
    have := h.overlay key
    rwa [ho] at this
  exact h2.overlay.insert (fun _ _ => rfl) ⟨by rw [hsame, hv], by rw [hsame, hv]; rfl, hsame⟩

theorem reach_spec {s : CoreState K T} (h : Means fmt name headFile g w s) {key : K} {v : T}
    (hf : name key ≠ headFile) (hv : w key = some v) (texts : AccessTexts) {known : Bool}
    (hk : known = (g key).isSome) :
    Ends (accessFrame fmt name headFile g w) (reach fmt (name key) key texts known) s
      (fun r _ => r = v) := by
  have ho := h.overlay key
  rw [hv] at ho
  unfold reach
  refine (ends_get (Q := fun b t => b = s ∧ t = s) ⟨rfl, rfl⟩).bind fun b t _ ht => ?_
  obtain ⟨rfl, rfl⟩ := ht
  cases hl : t.core.overlay.lookup key with
  | some entry =>
    obtain ⟨packet, code⟩ := entry
    rw [hl] at ho
    cases code with
    | none => rw [ho.1]; exact ends_pure rfl
    | modified => rw [ho.1]; exact ends_pure rfl
    | deleted => exact absurd ho.1 (by simp)
  | none =>
    rw [hl] at ho
    have hsaved : g key = some v := ho.symm
    simp only
    rw [if_pos (by rw [hk, hsaved]; rfl)]
    refine (load_spec h hf hsaved hl).bind fun _ s1 _ h1 => ?_
    refine (ends_get (Q := fun b u => b = s1 ∧ u = s1) ⟨rfl, rfl⟩).bind fun b u _ hu => ?_
    obtain ⟨rfl, rfl⟩ := hu
    rw [h1]
    exact ends_pure rfl

/-- A key that is not worked on is reported, and nothing changes: as deleted where
it is still saved. -/
theorem reach_missing {s : CoreState K T} (h : Means fmt name headFile g w s) {key : K}
    (hv : w key = none) (file : String) (texts : AccessTexts) {known : Bool}
    (hk : known = (g key).isSome) : reach fmt file key texts known s =
      .error (.outOfRange (if (g key).isSome then texts.deleted else texts.missing)) s := by
  have ho := h.overlay key
  rw [hv] at ho
  unfold reach
  rw [get_bind_run]
  cases hl : s.core.overlay.lookup key with
  | some entry =>
    obtain ⟨packet, code⟩ := entry
    rw [hl] at ho
    cases code with
    | none => exact absurd ho.2.1 (by simp)
    | modified => exact absurd ho.2 (by simp)
    | deleted =>
      rw [if_pos ho.2]
      rfl
  | none =>
    rw [hl] at ho
    have hout : g key = none := ho.symm
    simp only
    rw [hk, hout]
    rfl

/-- The mutable `at` returns the object and leaves its new value in the overlay. -/
theorem mutableAt_spec {s : CoreState K T} (h : Means fmt name headFile g w s) {key : K} {v : T}
    (hf : name key ≠ headFile) (hv : w key = some v) (texts : AccessTexts) {known : Bool}
    (hk : known = (g key).isSome) (assign : T → T) :
    match mutableAt fmt (name key) key texts known assign s with
    | .ok r t => r = v ∧ ∃ s1, (accessFrame fmt name headFile g w).le s s1 ∧ t = { s1 with core :=
        { s1.core with overlay := s1.core.overlay.insert key (some (assign v), .modified) } }
    | .error _ t => s.world.Faulty ∧ (accessFrame fmt name headFile g w).le s t := by
  have hr := reach_spec h hf hv texts hk
  unfold mutableAt
  simp only [bind, EStateM.bind]
  cases hm : reach fmt (name key) key texts known s with
  | error e t => exact ⟨(hr.of_error hm).2, (hr.of_error hm).1⟩
  | ok r t =>
    obtain ⟨hle, rfl⟩ := hr.of_ok hm
    exact ⟨rfl, t, hle, rfl⟩

end Core

end MeshPP.SystemUtility
