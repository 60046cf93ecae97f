import MeshPP.SystemUtility.VectorLoader
import MeshPP.SystemUtility.MapSave

/-! # What one group of `vector_loader_internals::save` does

A group of indices goes through the size in memory and the blocks of its files.
The blocks hold a partial function on the indices, and the size in memory is the
extent of that function (`Extent`): erasing a group lowers it to the least index
that is gone, writing a group raises it behind the greatest one. -/

namespace MeshPP.SystemUtility
open MeshPP.Lib

variable {T : Type}

/-! ## Extents -/

/-- `g` is defined below `n` and nowhere else. -/
def Extent (n : Nat) (g : Nat → Option T) : Prop := ∀ i, (g i).isSome ↔ i < n

theorem Extent.unique {n m : Nat} {g : Nat → Option T} (h : Extent n g) (h' : Extent m g) :
    n = m := by
  have h1 := (h n).symm.trans (h' n)
  have h2 := (h m).symm.trans (h' m)
  omega

theorem extent_list (l : List T) : Extent l.length fun i => l[i]? := fun i => by
  simp

theorem foldl_resized_erase (ks : List Nat) (n : Nat) :
    ks.foldl (VectorLoader.resized .erase) n ≤ n ∧
      (∀ k ∈ ks, ks.foldl (VectorLoader.resized .erase) n ≤ k) ∧
      (ks.foldl (VectorLoader.resized .erase) n = n ∨
        ks.foldl (VectorLoader.resized .erase) n ∈ ks) := by
  induction ks generalizing n with
  | nil => simp
  | cons a ks ih =>
    obtain ⟨h1, h2, h3⟩ := ih (VectorLoader.resized .erase n a)
    rw [List.foldl_cons]
    have hstep : VectorLoader.resized .erase n a ≤ n ∧ VectorLoader.resized .erase n a ≤ a ∧
        (VectorLoader.resized .erase n a = n ∨ VectorLoader.resized .erase n a = a) := by
      simp only [VectorLoader.resized]
      split <;> omega
    refine ⟨by omega, fun k hk => ?_, ?_⟩
    · rcases List.mem_cons.mp hk with rfl | hk
      · omega
      · exact h2 k hk
    · rcases h3 with h3 | h3
      · rw [h3]
        rcases hstep.2.2 with h | h
        · exact .inl h
        · exact .inr (by simp [h])
      · exact .inr (List.mem_cons_of_mem _ h3)

theorem foldl_resized_modify (ks : List Nat) (n : Nat) :
    n ≤ ks.foldl (VectorLoader.resized .modify) n ∧
      (∀ k ∈ ks, k < ks.foldl (VectorLoader.resized .modify) n) ∧
      (ks.foldl (VectorLoader.resized .modify) n = n ∨
        ∃ k ∈ ks, ks.foldl (VectorLoader.resized .modify) n = k + 1) := by
  induction ks generalizing n with
  | nil => simp
  | cons a ks ih =>
    obtain ⟨h1, h2, h3⟩ := ih (VectorLoader.resized .modify n a)
    rw [List.foldl_cons]
    have hstep : n ≤ VectorLoader.resized .modify n a ∧ a < VectorLoader.resized .modify n a ∧
        (VectorLoader.resized .modify n a = n ∨ VectorLoader.resized .modify n a = a + 1) := by
      simp only [VectorLoader.resized]
      split <;> omega
    refine ⟨by omega, fun k hk => ?_, ?_⟩
    · rcases List.mem_cons.mp hk with rfl | hk
      · omega
      · exact h2 k hk
    · rcases h3 with h3 | ⟨k, hk, h3⟩
      · rw [h3]
        rcases hstep.2.2 with h | h
        · exact .inl h
        · exact .inr ⟨a, by simp, h⟩
      · exact .inr ⟨k, List.mem_cons_of_mem _ hk, h3⟩

/-- The loop over a group computes the extent of the updated function. -/
theorem foldl_resized {i : Op} {packetOf g : Nat → Option T} {keys ks : List Nat} {n m : Nat}
    (hg : Extent n g) (hg' : Extent m (assign keys (i.result packetOf) g))
    (hadm : i.Admits packetOf g keys) (hks : ∀ k, k ∈ ks ↔ k ∈ keys) :
    ks.foldl (VectorLoader.resized i) n = m := by
  have hval : ∀ k, (assign keys (i.result packetOf) g k).isSome ↔ k < m := hg'
  have hother : ∀ k, k ∉ keys → (k < n ↔ k < m) := fun k hk => by
    have := hval k
    simp only [assign, if_neg hk] at this
    rw [← this, hg k]
  cases i with
  | erase =>
    obtain ⟨h1, h2, h3⟩ := foldl_resized_erase ks n
    generalize ks.foldl (VectorLoader.resized .erase) n = r at *
    have hout : ∀ k ∈ keys, m ≤ k := fun k hk => by
      have := hval k
      simp only [assign, if_pos hk, Op.result_erase, Option.isSome_none, Bool.false_eq_true,
        false_iff] at this
      omega
    have hmn : m ≤ n := by
      by_contra hlt
      by_cases hn : n ∈ keys
      · have := (hg n).mp (hadm n hn)
        omega
      · have := hother n hn
        omega
    by_cases hm : m ∈ keys
    · have := h2 m ((hks m).mpr hm)
      rcases h3 with h3 | h3
      · have := (hg m).mp (hadm m hm)
        omega
      · have := hout r ((hks r).mp h3)
        omega
    · have := hother m hm
      rcases h3 with h3 | h3
      · omega
      · have := hout r ((hks r).mp h3)
        have := (hg r).mp (hadm r ((hks r).mp h3))
        omega
  | modify =>
    obtain ⟨h1, h2, h3⟩ := foldl_resized_modify ks n
    generalize ks.foldl (VectorLoader.resized .modify) n = r at *
    have hin : ∀ k ∈ keys, k < m := fun k hk => by
      have := hval k
      simp only [assign, if_pos hk, Op.result_modify] at this
      exact this.mp (hadm k hk)
    have hmr : m ≤ r := by
      by_contra hlt
      by_cases hr : r ∈ keys
      · have := h2 r ((hks r).mpr hr)
        omega
      · have := hother r hr
        omega
    rcases h3 with h3 | ⟨k, hk, h3⟩
    · by_cases hr : m ∈ keys
      · have := hin m hr
        omega
      · have := hother m hr
        omega
    · have := hin k ((hks k).mp hk)
      omega

/-! ## The size block -/

variable (cfg : VectorConfig T)

/-- The size file holds `n`; a size of 0 may never have been written. -/
def SizeIs (f : Files) (pending : Bool) (n : Nat) : Prop :=
  ∃ o : Option Nat, f.Rep cfg.sizeFormat pending (fun k => if k = 0 then o else none) ∧ o.getD 0 = n

theorem VectorConfig.filename_ne (index : Nat) : cfg.filename index ≠ cfg.sizeFile :=
  numbered_ne cfg.name _ (c := 's') rfl "ize".toList

variable {cfg}

theorem saveSize_eq (ord : IterOrder) (size : Nat) (pt : Option BlockTransaction) :
    VectorLoader.saveSize cfg ord size pt = (do
      let taken ← processBlock cfg.sizeFormat ord (fun _ => some size) .modify cfg.sizeFile [0] pt
      pure (taken, ⟨⟩)) := by
  unfold VectorLoader.saveSize processBlock
  simp only [bind_assoc, List.foldlM_cons, List.foldlM_nil, pure_bind]
  rfl

/-- The size block is changed as any other block is. -/
theorem saveSize_spec (ord : IterOrder) {size m : Nat} {pt : Option BlockTransaction} {w : World}
    (h : SizeIs cfg (w.disk cfg.sizeFile) pt.isSome m)
    (ht : ∀ b ∈ pt, b = ⟨cfg.sizeFile, false⟩) :
    Ends (blockFrame cfg.sizeFile) (VectorLoader.saveSize cfg ord size pt) w (fun r w' =>
      (∀ b ∈ r.1, b = ⟨cfg.sizeFile, false⟩) ∧
      SizeIs cfg (w'.disk cfg.sizeFile) r.1.isSome size) := by
  obtain ⟨o, hrep, -⟩ := h
  rw [saveSize_eq]
  have hadm : Op.Admits .modify (fun _ => some size) (fun k => if k = 0 then o else none) [0] :=
    fun _ _ => rfl
  refine (processBlock_spec ord hrep (List.nodup_singleton 0) (by simp) hadm ht).bind
    fun taken w1 _ h1 => ends_pure ?_
  obtain ⟨rfl, hrep'⟩ := h1
  refine ⟨fun b hb => (Option.some.inj hb).symm, some size, ?_, rfl⟩
  have hfun : (assign [0] (Op.modify.result fun _ => some size) fun k => if k = 0 then o else none) =
      fun k => if k = 0 then some size else none := by
    funext k
    by_cases hk : k = 0 <;> simp [assign, hk]
  rw [hfun] at hrep'
  exact hrep'

theorem loadSize_spec (ord : IterOrder) {n : Nat} {w : World}
    (h : SizeIs cfg (w.disk cfg.sizeFile) false n) :
    Ends readFrame (loadSize cfg ord) w (fun size w' => size = n ∧ w'.disk = w.disk) := by
  obtain ⟨o, ⟨items, hh, hd⟩, ho⟩ := h
  unfold loadSize
  refine (construct_committed hh).bind fun temp w1 _ h1 => ?_
  obtain ⟨hc, hw⟩ := h1
  have hv := hc.values (by rw [hc.clear]; simp)
  have hmem : ∀ k, k ∈ ord.order temp.loaded ↔ k = 0 ∧ o.isSome := fun k => by
    rw [ord.mem, mem_loaded hv hd]
    by_cases hk : k = 0 <;> simp [hk]
  -- every loaded key is 0 and carries the size
  have hloop : ∀ (todo : List Nat) (acc : Nat), (∀ k ∈ todo, k ∈ ord.order temp.loaded) →
      Ends readFrame (todo.foldlM (fun _ key => temp.getValue key) acc) w1
        (fun size w' => size = (if todo = [] then acc else n) ∧ w' = w1) := by
    intro todo
    induction todo with
    | nil => exact fun acc _ => ends_pure ⟨rfl, rfl⟩
    | cons key todo ih =>
      intro acc hin
      obtain ⟨rfl, hs⟩ := (hmem key).mp (hin key (by simp))
      obtain ⟨v, rfl⟩ := Option.isSome_iff_exists.mp hs
      obtain ⟨u, hu⟩ := UMap.mem_iff.mp ((hv.mem_iff 0).mpr (.inr ⟨rfl, (hd.mem_keys 0).mpr rfl⟩))
      have hitem : u.item.item = some v := (hv.item hd hu).1
      rw [List.foldlM_cons]
      simp only [BlockFileLoader.getValue, BlockFileLoader.get, hu, hitem]
      refine (ih v fun k hk => hin k (by simp [hk])).mono fun size w' _ hsize => ⟨?_, hsize.2⟩
      rw [hsize.1, if_neg (List.cons_ne_nil _ _)]
      split
      · exact ho
      · rfl
  refine (hloop (ord.order temp.loaded) 0 fun _ => id).mono fun size w2 _ h2 => ?_
  obtain ⟨rfl, rfl⟩ := h2
  refine ⟨?_, hw⟩
  split
  · next hnil =>
    have hnone : o = none := by
      rw [← Option.not_isSome_iff_eq_none]
      intro hs
      have := (hmem 0).mpr ⟨rfl, hs⟩
      rw [hnil] at this
      cases this
    rw [← ho, hnone]; rfl
  · rfl

/-! ## One group -/

/-- What every part of a save keeps of a container. -/
def vectorFrame (cfg : VectorConfig T) : Frame (VectorState T) where
  le s t := t.world.faults <:+ s.world.faults ∧
    (∀ f, (s.world.disk f).SameCommitted (t.world.disk f)) ∧
    (s.self.transaction.Ok cfg.sizeFile → t.self.transaction.Ok cfg.sizeFile) ∧
    (s.self.ptransaction.isSome → t.self.ptransaction.isSome)
  refl _ := ⟨List.suffix_refl _, fun _ => .refl _, id, id⟩
  trans h h' := ⟨h'.1.trans h.1, fun f => (h.2.1 f).trans (h'.2.1 f), h'.2.2.1 ∘ h.2.2.1,
    h'.2.2.2 ∘ h.2.2.2⟩
  excused s := s.world.Faulty
  excused_of_le h := fun ⟨x, hx⟩ => ⟨x, h.1.subset hx⟩

theorem VectorLoader.onSaver_spec {α : Type} {m : SaverM α} {s : VectorState T}
    {Q : α → Saver → Prop}
    (h : Ends (saveFrame cfg.sizeFile) m ⟨s.world, s.self.transaction⟩ Q) :
    Ends (vectorFrame cfg) (VectorLoader.onSaver m) s (fun a s' => ∃ t, Q a t ∧
      s' = ⟨t.world, { s.self with ptransaction := some t.transaction }⟩) := by
  refine (h.zoom (F := vectorFrame cfg) (fun t ht => ?_) id).mono fun _ _ _ hs => ?_
  · exact ⟨ht.1, ht.2.1, ht.2.2, fun _ => rfl⟩
  · obtain ⟨t, rfl, -, hq⟩ := hs
    exact ⟨t, hq, rfl⟩

/-- The blocks hold `g`, the size in memory is `n` and the size block holds `m`. -/
structure VectorStored (cfg : VectorConfig T) (g : Nat → Option T) (n m : Nat) (s : VectorState T) :
    Prop where
  blocks : Saved cfg.blockFormat cfg.filename cfg.sizeFile s.world.disk s.self.transaction g
  sizeBlock : SizeIs cfg (s.world.disk cfg.sizeFile) s.self.transaction.head.isSome m
  size : s.self.size = n
  ok : s.self.transaction.Ok cfg.sizeFile

/-- What the loop over the files of a group leaves in the container. -/
structure VectorNoted (cfg : VectorConfig T) (i : Op) (es : List (Sigma fun _ : String => List Nat))
    (a b : VectorLoader T) : Prop where
  core : Core.Entered cfg.sizeFile (es.map Sigma.fst) a.toCore b.toCore
  size : b.size = (es.flatMap Sigma.snd).foldl (VectorLoader.resized i) a.size
  sizeWithOverlay : b.sizeWithOverlay = a.sizeWithOverlay

theorem vectorNotes_spec {i : Op} {es : List (Sigma fun _ : String => List Nat)}
    (hf : ∀ e ∈ es, e.1 ≠ cfg.sizeFile) :
    ∀ (a : VectorLoader T), VectorNoted cfg i es a (es.foldl (VectorLoader.note i) a) := by
  induction es with
  | nil => exact fun a => ⟨.nil _, rfl, rfl⟩
  | cons e es ih =>
    intro a
    have h := ih (fun e he => hf e (by simp [he])) (VectorLoader.note i a e)
    refine ⟨(Core.Entered.single a.toCore (hf e (by simp))).trans h.core, ?_, h.sizeWithOverlay⟩
    rw [List.foldl_cons, h.size, List.flatMap_cons, List.foldl_append]
    rfl

variable (cfg) in
theorem groupByFile_grouped (keys : List Nat) :
    Grouped cfg.filename keys (VectorLoader.groupByFile cfg keys) := by
  suffices h : ∀ (todo done : List Nat) (groups : UMap String (List Nat)),
      Grouped cfg.filename done groups → Grouped cfg.filename (done ++ todo)
        (todo.foldl (fun groups key => pushKey groups (cfg.filename key) key) groups) from
    h keys [] ∅ (.empty _)
  intro todo
  induction todo with
  | nil => intro done groups h; rwa [List.append_nil]
  | cons key todo ih =>
    intro done groups h
    have := ih (done ++ [key]) _ (h.push key)
    rwa [List.append_assoc, List.singleton_append] at this

theorem VectorLoader.saveGroup_spec (ord : IterOrder) {i : Op} {g : Nat → Option T}
    {keys : List Nat} {n n' m : Nat} {s : VectorState T} (h : VectorStored cfg g n m s)
    (ho : s.self.ptransaction.isSome) (hn : keys.Nodup)
    (hadm : i.Admits s.self.overlay.packetOf g keys) (hg : Extent n g)
    (hg' : Extent n' (assign keys (i.result s.self.overlay.packetOf) g)) :
    Ends (vectorFrame cfg) (VectorLoader.saveGroup cfg ord i keys) s (fun _ s' =>
      VectorStored cfg (assign keys (i.result s.self.overlay.packetOf) g) n' m s' ∧
      s'.self.ptransaction.isSome ∧ s'.self.overlay = s.self.overlay ∧
      s'.self.sizeWithOverlay = s.self.sizeWithOverlay) := by
  unfold VectorLoader.saveGroup
  split
  · next hnil =>
    have hnil' : keys = [] := by simpa using hnil
    rw [hnil', assign_nil] at hg' ⊢
    rw [← hg.unique hg']
    exact ends_pure ⟨h, ho, rfl, rfl⟩
  · have hgroups := groupByFile_grouped cfg keys
    generalize VectorLoader.groupByFile cfg keys = groups at hgroups ⊢
    have hfiles : ∀ e ∈ ord.order groups.entries, e.1 ≠ cfg.sizeFile := fun e he => by
      obtain ⟨k, -, hk⟩ := hgroups.exists_name he
      exact hk ▸ cfg.filename_ne k
    have hnoted := vectorNotes_spec (i := i) hfiles s.self
    have hsize := foldl_resized hg hg' hadm (hgroups.mem_flatMap ord)
    rw [← h.size, ← hnoted.size] at hsize
    refine Ends.bind (ends_modify (F := vectorFrame cfg) (Q := fun _ s' => s' = ⟨s.world,
      (ord.order groups.entries).foldl (VectorLoader.note i) s.self⟩) ?_ rfl) fun _ s2 _ h2 => ?_
    · exact ⟨List.suffix_refl _, fun _ => .refl _, hnoted.core.ok,
        fun _ => by rw [hnoted.core.isOpen]; exact ho⟩
    subst h2
    generalize (ord.order groups.entries).foldl (VectorLoader.note i) s.self = self2 at hnoted hsize
    refine (ends_get (Q := fun a t => a = _ ∧ t = _) ⟨rfl, rfl⟩).bind fun a t _ ht => ?_
    obtain ⟨rfl, rfl⟩ := ht
    have hblocks : Saved cfg.blockFormat cfg.filename cfg.sizeFile s.world.disk self2.transaction
        g := fun f hf => by
      rw [hnoted.core.entry]
      exact h.blocks f hf
    have hin : ∀ k ∈ keys, cfg.filename k ∈ self2.transaction.overlay := fun k hk =>
      hnoted.core.entered ho _ (hgroups.name_mem ord hk)
    have hoverlay : self2.overlay = s.self.overlay := hnoted.core.overlay
    simp only [hoverlay]
    refine (VectorLoader.onSaver_spec (ends_onSaver (fileSaverHelper_spec hblocks
      (hnoted.core.ok h.ok) hgroups hn hin hadm))).mono fun _ s3 _ h3 => ?_
    obtain ⟨t3, ⟨⟨hblocks3, hok3⟩, hdisk3, hhead3⟩, rfl⟩ := h3
    refine ⟨⟨hblocks3, ?_, hsize, hok3⟩, rfl, hoverlay, hnoted.sizeWithOverlay⟩
    show SizeIs cfg (t3.world.disk cfg.sizeFile) t3.transaction.head.isSome m
    rw [hdisk3, hhead3, hnoted.core.head]
    exact h.sizeBlock

end MeshPP.SystemUtility
