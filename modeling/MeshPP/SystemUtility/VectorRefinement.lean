import MeshPP.SystemUtility.VectorSave
import MeshPP.SystemUtility.Text

/-! # `vector_loader` refines a transactional sequence

The abstract container is a list kept three times. `VectorInv` ties it to the
parts of the container: the saved list is spread over the size in memory, the
size block and the blocks an open transaction would commit, the committed one
over the committed files, and the overlay holds the difference between the
working and the saved list. Every operation keeps the relation, also when a call
on a file fails in it. -/

namespace MeshPP.SystemUtility
open MeshPP.Lib

/-- What the abstract list answers and becomes. An index behind the end is reported
as deleted where the saved list still has it. -/
def VectorSpec.act {T : Type} (name : String) (saved working : List T) :
    VectorOp T → VectorOut T × List T
  | .pushBack value => (.done, working ++ [value])
  | .popBack =>
    if working.length = 0 then (.thrown (.runtimeError (VectorLoader.emptyText name)), working)
    else (.done, working.dropLast)
  | .mutableAt index assign =>
    match working[index]? with
    | some v => (.value v, working.set index (assign v))
    | none => (.thrown (.outOfRange (missing index)), working)
  | .constAt index =>
    match working[index]? with
    | some v => (.value v, working)
    | none => (.thrown (.outOfRange (missing index)), working)
  | .clear => (.done, [])
  | .size => (.size working.length, working)
where
  missing (index : Nat) : String :=
    if index < saved.length then VectorLoader.deletedText name index
    else VectorLoader.outOfRangeText name index

variable {T : Type} (cfg : VectorConfig T)

/-- The committed files hold `l`. -/
structure VectorHolding (l : List T) (d : Disk) : Prop where
  blocks : Committed cfg.blockFormat cfg.filename cfg.sizeFile d fun i => l[i]?
  sizeBlock : SizeIs cfg (d cfg.sizeFile) false l.length

structure VectorInv (a : Txn (List T)) (s : VectorState T) : Prop where
  stored : VectorStored cfg (fun i => a.saved[i]?) a.saved.length a.saved.length s
  durable : VectorHolding cfg a.committed s.world.disk
  overlay : s.self.overlay.Between (fun i => a.saved[i]?) fun i => a.working[i]?
  sizeWithOverlay : s.self.sizeWithOverlay = a.working.length
  closed : s.self.ptransaction = none → a.saved = a.committed

variable {cfg}

theorem SizeIs.same {f f' : Files} {n : Nat} (h : SizeIs cfg f false n)
    (hs : f.SameCommitted f') : SizeIs cfg f' false n := by
  obtain ⟨o, hr, ho⟩ := h
  exact ⟨o, hs.rep hr, ho⟩

theorem SizeIs.commit {f : Files} {pending : Bool} {n : Nat} (h : SizeIs cfg f pending n) :
    SizeIs cfg (if pending then ⟨f.tr, f.mTr, none, none⟩ else f) false n := by
  obtain ⟨o, hr, ho⟩ := h
  exact ⟨o, hr.commit, ho⟩

theorem VectorHolding.frame {c : List T} {d d' : Disk} (h : VectorHolding cfg c d)
    (hs : ∀ f, (d f).SameCommitted (d' f)) : VectorHolding cfg c d' :=
  ⟨fun f hf => (hs _).rep (h.blocks f hf), h.sizeBlock.same (hs _)⟩

/-- Committed files alone make a container without an open transaction. -/
theorem VectorHolding.stored {l : List T} {s : VectorState T}
    (h : VectorHolding cfg l s.world.disk) (hp : s.self.ptransaction = none)
    (hn : s.self.size = l.length) :
    VectorStored cfg (fun i => l[i]?) l.length l.length s := by
  have ht : s.self.transaction = .empty := by rw [Core.transaction, hp]; rfl
  refine ⟨fun f hf => ?_, ?_, hn, ?_⟩
  · have he : ClassTransaction.empty.entry cfg.sizeFile f = none := by
      simp [ClassTransaction.entry, hf, ClassTransaction.empty]
    rw [ht, he]
    exact h.blocks f hf
  · rw [ht]; exact h.sizeBlock
  · rw [ht]; exact ClassTransaction.ok_empty _

/-- A container over committed files only, with an empty overlay. -/
theorem VectorHolding.fresh {c : List T} {w : World} (h : VectorHolding cfg c w.disk) :
    VectorInv cfg (Txn.start c) ⟨w, ⟨⟨∅, none⟩, c.length, c.length⟩⟩ where
  stored := VectorHolding.stored h rfl rfl
  durable := h
  overlay := Overlay.between_empty _
  sizeWithOverlay := rfl
  closed _ := rfl

/-! ## Discard and commit -/

/-- The size that is read back is the one last committed. -/
theorem vectorDiscard_run (ord : IterOrder) {c : List T} {s : VectorState T}
    (h : VectorHolding cfg c s.world.disk) (hok : s.self.transaction.Ok cfg.sizeFile) :
    ∃ t, VectorLoader.discard cfg ord s = .ok ⟨⟩ t ∧ VectorInv cfg (Txn.start c) t ∧
      t.self.ptransaction = none ∧ ∀ f, (s.world.disk f).SameCommitted (t.world.disk f) := by
  have hend : ∀ d, (∀ f, (s.world.disk f).SameCommitted (d f)) →
      ∃ size, loadSize cfg ord ⟨d, []⟩ = .ok size ⟨d, []⟩ ∧ size = c.length := fun d hd => by
    obtain ⟨size, hrun, hsize, -⟩ := returns_quiet (loadSize_spec ord (w := ⟨d, []⟩)
      (h.frame hd).sizeBlock)
    exact ⟨size, hrun, hsize⟩
  unfold VectorLoader.discard
  cases hp : s.self.ptransaction with
  | some t =>
    have ht : s.self.transaction = t := by rw [Core.transaction, hp]; rfl
    rw [ht] at hok
    have hsame : ∀ f, (s.world.disk f).SameCommitted (t.rollback s.world.disk f) := fun f => by
      rw [hok.rollback_apply]
      split <;> exact ⟨rfl, rfl⟩
    obtain ⟨size, hrun, rfl⟩ := hend _ hsame
    simp only [hrun]
    exact ⟨_, rfl, (h.frame hsame).fresh, rfl, hsame⟩
  | none =>
    obtain ⟨size, hrun, rfl⟩ := hend _ fun _ => .refl _
    simp only [hrun]
    exact ⟨_, rfl, VectorHolding.fresh (w := s.world) h, rfl, fun _ => .refl _⟩

theorem vectorCommit_spec {a : Txn (List T)} {s : VectorState T} (h : VectorInv cfg a s) :
    Ends .total VectorLoader.commit s (fun _ s' =>
      VectorInv cfg { a with committed := a.saved } s') := by
  unfold VectorLoader.commit
  refine ends_modify trivial ?_
  cases hp : s.self.ptransaction with
  | some t =>
    have ht : s.self.transaction = t := by rw [Core.transaction, hp]; rfl
    have hok := h.stored.ok
    rw [ht] at hok
    have hdur : VectorHolding cfg a.saved (t.commit s.world.disk) := by
      refine ⟨fun f hf => ?_, ?_⟩
      · have := (h.stored.blocks f hf).commit
        rw [ht] at this
        rw [hok.commit_apply]
        exact this
      · have := h.stored.sizeBlock.commit
        rw [ht] at this
        simp only [hok.commit_apply, ClassTransaction.entry, if_true]
        exact this
    exact ⟨hdur.stored rfl h.stored.size, hdur, h.overlay, h.sizeWithOverlay, fun _ => rfl⟩
  | none =>
    have ha : ({ a with committed := a.saved } : Txn (List T)) = a := by
      have := h.closed hp
      cases a; simp_all
    rw [ha]
    exact h

/-! ## Access -/

/-- What a container means depends on the world through the disk only. -/
theorem VectorInv.of_disk {a : Txn (List T)} {s : VectorState T} (h : VectorInv cfg a s) {w : World}
    (hw : w.disk = s.world.disk) : VectorInv cfg a { s with world := w } := by
  obtain ⟨⟨h1, h2, h3, h4⟩, h5, h6, h7, h8⟩ := h
  rw [← hw] at h1 h2 h5
  exact ⟨⟨h1, h2, h3, h4⟩, h5, h6, h7, h8⟩

theorem VectorInv.means {a : Txn (List T)} {s : VectorState T} (h : VectorInv cfg a s) :
    Core.Means cfg.blockFormat cfg.filename cfg.sizeFile (fun i => a.saved[i]?)
      (fun i => a.working[i]?) ⟨s.world, s.self.toCore⟩ :=
  ⟨h.stored.blocks, h.stored.ok, h.overlay⟩

/-- An access leaves the container with the same meaning. -/
theorem VectorInv.access {a : Txn (List T)} {s : VectorState T} (h : VectorInv cfg a s)
    {t : CoreState Nat T}
    (hle : (Core.accessFrame cfg.blockFormat cfg.filename cfg.sizeFile (fun i => a.saved[i]?)
      fun i => a.working[i]?).le ⟨s.world, s.self.toCore⟩ t) :
    VectorInv cfg a { world := t.world, self := { s.self with toCore := t.core } } := by
  obtain ⟨-, hdisk, hhead, hopen, hmeans⟩ := hle
  have hm := hmeans h.means
  have h' := h.of_disk hdisk
  refine ⟨⟨hm.blocks, ?_, h.stored.size, hm.ok⟩, h'.durable, hm.overlay, h.sizeWithOverlay,
    fun hn => h.closed ?_⟩
  · show SizeIs cfg (t.world.disk cfg.sizeFile) t.core.transaction.head.isSome _
    rw [hhead]
    exact h'.stored.sizeBlock
  · have hn' : t.core.ptransaction = none := hn
    rw [hn'] at hopen
    exact Option.isNone_iff_eq_none.mp (Option.isSome_eq_false_iff.mp hopen.symm)

theorem VectorInv.setOverlay {a : Txn (List T)} {s : VectorState T} (h : VectorInv cfg a s)
    {w : List T} {o : Overlay Nat T} {n : Nat}
    (ho : o.Between (fun i => a.saved[i]?) fun i => w[i]?) (hn : n = w.length) :
    VectorInv cfg { a with working := w }
      { s with self := { s.self with overlay := o, sizeWithOverlay := n } } :=
  ⟨⟨h.stored.blocks, h.stored.sizeBlock, h.stored.size, h.stored.ok⟩, h.durable, ho, hn, h.closed⟩

theorem index_known {a : Txn (List T)} {s : VectorState T} (h : VectorInv cfg a s) (index : Nat) :
    decide (index < s.self.size) = (a.saved[index]?).isSome := by
  rw [Bool.eq_iff_iff, decide_eq_true_iff, h.stored.size]
  simp

theorem index_missing {a : Txn (List T)} (index : Nat) :
    (if (a.saved[index]?).isSome then (VectorLoader.texts cfg.name index).deleted
      else (VectorLoader.texts cfg.name index).missing) =
      VectorSpec.act.missing cfg.name a.saved index := by
  unfold VectorSpec.act.missing
  exact if_congr (by simp) rfl rfl

/-- The machine's answer to a program on a container. -/
def VectorAnswers (cfg : VectorConfig T) (a a' : Txn (List T)) (out : VectorOut T)
    (m : VectorM T (VectorOut T)) (s : VectorState T) : Prop :=
  match m s with
  | .ok o t => o = out ∧ VectorInv cfg a' t
  | .error e t => (.thrown e = out ∧ VectorInv cfg a' t) ∨ (s.world.Faulty ∧ VectorInv cfg a t)

theorem vectorMutableAt_answers {a : Txn (List T)} {s : VectorState T} (h : VectorInv cfg a s)
    (index : Nat) (assign : T → T) :
    VectorAnswers cfg a
      { a with working := (VectorSpec.act cfg.name a.saved a.working (.mutableAt index assign)).2 }
      (VectorSpec.act cfg.name a.saved a.working (.mutableAt index assign)).1
      (VectorLoader.act cfg (.mutableAt index assign)) s := by
  have hk := index_known h index
  unfold VectorAnswers VectorLoader.act VectorLoader.mutableAt
  simp only [VectorSpec.act, VectorLoader.onCore, bind, EStateM.bind, get_run, zoom]
  cases hv : a.working[index]? with
  | none =>
    have hr := Core.reach_missing h.means hv (cfg.filename index)
      (VectorLoader.texts cfg.name index) hk
    simp only [Core.mutableAt, bind, EStateM.bind, hr, index_missing]
    exact .inl ⟨trivial, h⟩
  | some v =>
    have hr := Core.mutableAt_spec h.means (cfg.filename_ne index) hv
      (VectorLoader.texts cfg.name index) hk assign
    cases hm : Core.mutableAt cfg.blockFormat (cfg.filename index) index
        (VectorLoader.texts cfg.name index) (decide (index < s.self.size)) assign
        ⟨s.world, s.self.toCore⟩ with
    | error e t =>
      rw [hm] at hr
      exact .inr ⟨hr.1, h.access hr.2⟩
    | ok r t =>
      rw [hm] at hr
      obtain ⟨rfl, s1, hle, rfl⟩ := hr
      have ht := h.access hle
      obtain ⟨hlt, -⟩ := List.getElem?_eq_some_iff.mp hv
      refine ⟨rfl, ht.setOverlay (ht.overlay.insert (fun i hi => ?_) ?_)
        (ht.sizeWithOverlay.trans (List.length_set ..).symm)⟩
      · exact List.getElem?_set_ne (Ne.symm hi)
      · simp only [OverlayAt, List.getElem?_set_self hlt]
        exact ⟨trivial, rfl⟩

theorem vectorConstAt_answers {a : Txn (List T)} {s : VectorState T} (h : VectorInv cfg a s)
    (index : Nat) :
    VectorAnswers cfg a
      { a with working := (VectorSpec.act cfg.name a.saved a.working (.constAt index)).2 }
      (VectorSpec.act cfg.name a.saved a.working (.constAt index)).1
      (VectorLoader.act cfg (.constAt index)) s := by
  have hk := index_known h index
  unfold VectorAnswers VectorLoader.act VectorLoader.constAt
  simp only [VectorSpec.act, VectorLoader.onCore, bind, EStateM.bind, get_run, zoom]
  cases hv : a.working[index]? with
  | none =>
    have hr := Core.reach_missing h.means hv (cfg.filename index)
      (VectorLoader.texts cfg.name index) hk
    simp only [hr, index_missing]
    exact .inl ⟨trivial, h⟩
  | some v =>
    have hr := Core.reach_spec h.means (cfg.filename_ne index) hv
      (VectorLoader.texts cfg.name index) hk
    cases hm : Core.reach cfg.blockFormat (cfg.filename index) index
        (VectorLoader.texts cfg.name index) (decide (index < s.self.size))
        ⟨s.world, s.self.toCore⟩ with
    | error e t => exact .inr ⟨(hr.of_error hm).2, h.access (hr.of_error hm).1⟩
    | ok r t =>
      obtain ⟨hle, rfl⟩ := hr.of_ok hm
      exact ⟨rfl, h.access hle⟩

/-! ## Changes to the overlay -/

theorem pushBack_inv {a : Txn (List T)} {s : VectorState T} (h : VectorInv cfg a s) (value : T) :
    VectorInv cfg { a with working := a.working ++ [value] }
      { s with self := s.self.pushBack value } := by
  refine h.setOverlay (h.overlay.insert (fun i hi => ?_) ?_)
    (by rw [h.sizeWithOverlay, List.length_append]; rfl)
  · rw [h.sizeWithOverlay] at hi
    grind
  · rw [h.sizeWithOverlay]
    simp [OverlayAt]

/-- An index that is saved is marked, one that is not is forgotten. -/
theorem popBack_run {a : Txn (List T)} {s : VectorState T} (h : VectorInv cfg a s)
    (hw : a.working.length ≠ 0) :
    ∃ t, VectorLoader.popBack cfg s = .ok ⟨⟩ t ∧
      VectorInv cfg { a with working := a.working.dropLast } t := by
  refine ⟨_, by unfold VectorLoader.popBack; rw [get_bind_run, h.sizeWithOverlay, if_neg hw]; rfl,
    h.setOverlay ?_ (by rw [h.sizeWithOverlay, List.length_dropLast])⟩
  rw [h.sizeWithOverlay, h.stored.size]
  generalize hi : a.working.length - 1 = index
  have hsame : ∀ i, i ≠ index → a.working.dropLast[i]? = a.working[i]? := fun i hne => by
    rw [List.dropLast_eq_take, List.getElem?_take]
    split
    · rfl
    · rw [List.getElem?_eq_none (by omega)]
  have hlast : a.working.dropLast[index]? = none := by
    rw [List.getElem?_eq_none]
    rw [List.length_dropLast, hi]
  have hmark : ∀ packet, index < a.saved.length → Overlay.Between
      (s.self.overlay.insert index (packet, .deleted)) (fun i => a.saved[i]?)
      fun i => a.working.dropLast[i]? := fun packet hlt =>
    h.overlay.insert hsame ⟨hlast, by simpa using hlt⟩
  have hsome : (a.working[index]?).isSome := by simp; omega
  have ho := h.overlay index
  cases hl : s.self.overlay.lookup index with
  | none =>
    rw [hl] at ho
    rw [show a.working[index]? = a.saved[index]? from ho] at hsome
    exact hmark none (by simpa using hsome)
  | some entry =>
    obtain ⟨packet, code⟩ := entry
    by_cases hout : a.saved.length ≤ index
    · simp only [if_pos hout]
      exact h.overlay.erase hsame (hlast.trans (List.getElem?_eq_none hout).symm)
    · simp only [if_neg hout]
      exact hmark packet (by omega)

theorem popBack_answers {a : Txn (List T)} {s : VectorState T} (h : VectorInv cfg a s) :
    VectorAnswers cfg a
      { a with working := (VectorSpec.act cfg.name a.saved a.working .popBack).2 }
      (VectorSpec.act cfg.name a.saved a.working .popBack).1 (VectorLoader.act cfg .popBack) s := by
  unfold VectorAnswers VectorLoader.act
  simp only [VectorSpec.act, bind, EStateM.bind]
  by_cases hw : a.working.length = 0
  · have hr : VectorLoader.popBack cfg s =
        .error (.runtimeError (VectorLoader.emptyText cfg.name)) s := by
      unfold VectorLoader.popBack
      rw [get_bind_run, h.sizeWithOverlay, if_pos hw]
      rfl
    simp only [hr, if_pos hw]
    exact .inl ⟨trivial, h⟩
  · obtain ⟨t, hr, ht⟩ := popBack_run h hw
    simp only [hr, if_neg hw]
    exact ⟨rfl, ht⟩

theorem lookup_vectorClear (n i : Nat) :
    ((List.range n).foldl (fun (o : Overlay Nat T) index => o.insert index (none, .deleted))
      ∅).lookup i = if i < n then some (none, .deleted) else none := by
  induction n with
  | zero => simp
  | succ n ih =>
    rw [List.range_succ, List.foldl_append, List.foldl_cons, List.foldl_nil, UMap.lookup_insert, ih]
    by_cases hi : i = n
    · simp [hi]
    · rw [if_neg hi]
      exact if_congr (by omega) rfl rfl

theorem vectorClear_inv {a : Txn (List T)} {s : VectorState T} (h : VectorInv cfg a s) :
    VectorInv cfg { a with working := [] } { s with self := s.self.clear } := by
  refine h.setOverlay (fun i => ?_) rfl
  show OverlayAt a.saved[i]? ([] : List T)[i]? (s.self.clear.overlay.lookup i)
  rw [VectorLoader.clear, lookup_vectorClear, h.stored.size]
  by_cases hi : i < a.saved.length
  · rw [if_pos hi]
    exact ⟨rfl, by simpa using hi⟩
  · rw [if_neg hi]
    exact (List.getElem?_eq_none (by omega)).symm

theorem vectorAct_answers {a : Txn (List T)} {s : VectorState T} (h : VectorInv cfg a s)
    (op : VectorOp T) :
    VectorAnswers cfg a { a with working := (VectorSpec.act cfg.name a.saved a.working op).2 }
      (VectorSpec.act cfg.name a.saved a.working op).1 (VectorLoader.act cfg op) s := by
  cases op with
  | pushBack value => exact ⟨rfl, pushBack_inv h value⟩
  | popBack => exact popBack_answers h
  | mutableAt index assign => exact vectorMutableAt_answers h index assign
  | constAt index => exact vectorConstAt_answers h index
  | clear => exact ⟨rfl, vectorClear_inv h⟩
  | size => exact ⟨congrArg VectorOut.size h.sizeWithOverlay, h⟩

/-! ## Saving -/

theorem VectorInv.opened {a : Txn (List T)} {s : VectorState T} (h : VectorInv cfg a s) :
    VectorInv cfg a { s with self := { s.self with toCore := s.self.opened } } :=
  ⟨⟨h.stored.blocks, h.stored.sizeBlock, h.stored.size, h.stored.ok⟩, h.durable, h.overlay,
    h.sizeWithOverlay, fun hn => by cases hn⟩

/-- Between the two groups the blocks hold what the saved and the working list share. -/
theorem extent_erased (ord : IterOrder) {a : Txn (List T)} {o : Overlay Nat T}
    (h : o.Between (fun i => a.saved[i]?) fun i => a.working[i]?) :
    Extent (min a.saved.length a.working.length)
      (assign (o.keysOf ord .deleted) (Op.erase.result o.packetOf) fun i => a.saved[i]?) := by
  intro i
  have hmem := Overlay.mem_keysOf ord o .deleted i
  have hi := h i
  simp only [assign, Op.result_erase]
  split
  · next hdel =>
    obtain ⟨packet, hl⟩ := hmem.mp hdel
    rw [hl] at hi
    have hw : a.working.length ≤ i := List.getElem?_eq_none_iff.mp hi.1
    simp only [Option.isSome_none, Bool.false_eq_true, false_iff]
    omega
  · next hdel =>
    have hw : (a.saved[i]?).isSome → (a.working[i]?).isSome := fun hs => by
      rw [h.isSome_iff i]
      split
      · next hl =>
        rintro rfl
        exact hdel (hmem.mpr ⟨_, hl⟩)
      · exact hs
    simp only [isSome_getElem?] at hw ⊢
    omega

theorem vectorSaveGroups_spec (ord : IterOrder) {a : Txn (List T)} {s : VectorState T}
    (h : VectorInv cfg a s) (ho : s.self.ptransaction.isSome) :
    Ends (vectorFrame cfg) (VectorLoader.saveGroups cfg ord) s (fun _ s' =>
      VectorInv cfg { a with saved := a.working } s') := by
  unfold VectorLoader.saveGroups
  refine (ends_get (Q := fun b t => b = s ∧ t = s) ⟨rfl, rfl⟩).bind fun b t _ htt => ?_
  obtain ⟨rfl, rfl⟩ := htt
  refine (VectorLoader.saveGroup_spec ord h.stored ho (Overlay.keysOf_nodup ord _ .deleted)
    (h.overlay.admits_erase ord) (extent_list _) (extent_erased ord h.overlay)).bind
    fun _ s2 hle2 h2 => ?_
  obtain ⟨hst2, ho2, hov2, hn2⟩ := h2
  have hmod := h.overlay.admits_modify ord (assign (t.self.overlay.keysOf ord .deleted)
    (Op.erase.result t.self.overlay.packetOf) fun i => a.saved[i]?)
  have hgroups := h.overlay.assign_groups ord
  rw [← Op.result_erase (t.self.overlay.packetOf)] at hgroups
  refine (VectorLoader.saveGroup_spec ord hst2 ho2
    (Overlay.keysOf_nodup ord t.self.overlay .modified) (by rw [hov2]; exact hmod)
    (extent_erased ord h.overlay)
    (by rw [hov2, Op.result_modify, hgroups]; exact extent_list _)).bind fun _ s3 hle3 h3 => ?_
  obtain ⟨hst3, ho3, hov3, hn3⟩ := h3
  rw [hov2, Op.result_modify, hgroups] at hst3
  refine Ends.bind (ends_modify (F := vectorFrame cfg) (Q := fun _ s' => s' =
    { s3 with self := { s3.self with overlay := ∅ } })
    ⟨List.suffix_refl _, fun _ => .refl _, id, id⟩ rfl) fun _ s4 hle4 h4 => ?_
  subst h4
  refine (ends_get (Q := fun b t => b = _ ∧ t = _) ⟨rfl, rfl⟩).bind fun b t4 _ htt => ?_
  obtain ⟨rfl, rfl⟩ := htt
  refine (VectorLoader.onSaver_spec (s := { s3 with self := { s3.self with overlay := ∅ } })
    (onHead_spec (saveSize_spec ord hst3.sizeBlock hst3.ok.head) fun _ _ hr => hr.1)).mono
    fun _ s5 hle5 h5 => ?_
  obtain ⟨t5, ⟨taken, ⟨htaken, hsize⟩, htr5, hdisk5⟩, rfl⟩ := h5
  have hentry : ∀ f, f ≠ cfg.sizeFile → t5.transaction.entry cfg.sizeFile f =
      s3.self.transaction.entry cfg.sizeFile f := fun f hf => by
    rw [htr5, ClassTransaction.entry, if_neg hf, ClassTransaction.entry, if_neg hf]
    rfl
  refine ⟨⟨fun f hf => ?_, ?_, hst3.size, ?_⟩, ?_, Overlay.between_empty _, ?_,
    fun hn => by cases hn⟩
  · show (t5.world.disk f).Rep cfg.blockFormat (t5.transaction.entry cfg.sizeFile f).isSome _
    rw [hdisk5 f hf, hentry f hf]
    exact hst3.blocks f hf
  · show SizeIs cfg (t5.world.disk cfg.sizeFile) t5.transaction.head.isSome _
    rw [htr5, ← hst3.size]
    exact hsize
  · show t5.transaction.Ok _
    rw [htr5]
    exact ⟨htaken, hst3.ok.entries, hst3.ok.data⟩
  · exact h.durable.frame fun f => ((hle2.2.1 f).trans (hle3.2.1 f)).trans (hle5.2.1 f)
  · exact hn3.trans (hn2.trans h.sizeWithOverlay)

/-- A save gets through, or it throws because a call failed: then the container is
what it was at the last commit, and so are the committed files. -/
theorem vectorSave_answers (ord : IterOrder) {a : Txn (List T)} {s : VectorState T}
    (h : VectorInv cfg a s) :
    match VectorLoader.save cfg ord s with
    | .ok _ t => VectorInv cfg { a with saved := a.working } t
    | .error _ t => s.world.Faulty ∧ VectorInv cfg (Txn.start a.committed) t ∧
        t.self.ptransaction = none ∧ ∀ f, (s.world.disk f).SameCommitted (t.world.disk f) := by
  unfold VectorLoader.save
  rw [get_bind_run]
  by_cases hnil : s.self.overlay.entries.isEmpty = true
  · rw [if_pos hnil]
    have hsame : a.saved = a.working :=
      List.ext_getElem? fun i => congrFun (h.overlay.eq_of_empty hnil) i
    obtain ⟨c, g, w⟩ := a
    obtain rfl : g = w := hsame
    exact h
  · rw [if_neg hnil, modify_bind_run]
    have hopen := h.opened
    have hgroups := vectorSaveGroups_spec ord hopen rfl
    cases hb : VectorLoader.saveGroups cfg ord
        { s with self := { s.self with toCore := s.self.opened } } with
    | ok u t =>
      simp only [onFailure, hb]
      exact (hgroups.of_ok hb).2
    | error e t =>
      obtain ⟨hle, hx⟩ := hgroups.of_error hb
      obtain ⟨r, hd, hinv, hnone, hsame⟩ := vectorDiscard_run ord
        (hopen.durable.frame hle.2.1) (hle.2.2.1 hopen.stored.ok)
      simp only [onFailure, hb, hd]
      exact ⟨hx, hinv, hnone, fun f => (hle.2.1 f).trans (hsame f)⟩

/-! ## Opening -/

theorem vectorConstruct_run (ord : IterOrder) {c : List T} {d : Disk}
    (h : VectorHolding cfg c d) (faults : List (Option Fault)) :
    ∃ self, VectorLoader.construct cfg ord ⟨d, []⟩ = .ok self ⟨d, []⟩ ∧
      VectorInv cfg (Txn.start c) ⟨⟨d, faults⟩, self⟩ ∧ self.ptransaction = none := by
  obtain ⟨size, hrun, rfl, -⟩ := returns_quiet (loadSize_spec ord (w := ⟨d, []⟩)
    h.sizeBlock)
  refine ⟨⟨⟨∅, none⟩, c.length, c.length⟩, ?_, VectorHolding.fresh (w := ⟨d, faults⟩) h, rfl⟩
  unfold VectorLoader.construct
  simp only [bind, EStateM.bind, hrun]
  rfl

variable (cfg) in
theorem vectorHolding_empty : VectorHolding cfg ([] : List T) Disk.empty where
  blocks f _ := by
    have : restrict cfg.filename (fun i => ([] : List T)[i]?) f = fun _ => none := by
      funext j; simp [restrict]
    rw [this]
    exact Files.rep_absent false
  sizeBlock := by
    refine ⟨none, ?_, rfl⟩
    have : (fun k : Nat => if k = 0 then (none : Option Nat) else none) = fun _ => none := by
      funext j; simp
    rw [this]
    exact Files.rep_absent false

theorem vectorReopen_run (ord : IterOrder) {a : Txn (List T)} {s : VectorState T}
    (h : VectorInv cfg a s) :
    ∃ t, VectorLoader.reopen cfg ord s = .ok ⟨⟩ t ∧ VectorInv cfg (Txn.start a.saved) t := by
  obtain ⟨u, s1, hc, -, h1⟩ := (vectorCommit_spec h).returns id
  obtain ⟨self, hself, hinv, -⟩ := vectorConstruct_run ord h1.durable s1.world.faults
  refine ⟨⟨s1.world, self⟩, ?_, hinv⟩
  unfold VectorLoader.reopen
  simp only [bind, EStateM.bind, hc, get_run, hself]
  rfl

/-! ## The container as a machine -/

/-- The store between two operations. -/
def VectorStoreInv (cfg : VectorConfig T) (a : Txn (List T)) (s : VectorStore T) : Prop :=
  ∀ faults, VectorInv cfg a ⟨⟨s.disk, faults⟩, s.self⟩

theorem VectorInv.store {a : Txn (List T)} {t : VectorState T} (h : VectorInv cfg a t) :
    VectorStoreInv cfg a ⟨t.world.disk, t.self⟩ := fun _ => h.of_disk rfl

def VectorOut.Thrown : VectorOut T → Prop
  | .thrown _ => True
  | _ => False

/-- Each operation answers as the abstract list does, or a call on a file failed in
it and it threw. -/
theorem vector_implements : Implements (VectorSpec.act cfg.name) VectorOut.done VectorOut.Thrown
    (fun c : Call (VectorOp T) => c.op) Call.Faulty (VectorStore.step cfg)
    (VectorStoreInv cfg) := by
  intro a s c h
  have hi := h c.faults
  obtain ⟨op, ord, faults⟩ := c
  unfold VectorStore.step
  cases op with
  | act op =>
    have hans := vectorAct_answers hi op
    unfold VectorAnswers at hans
    simp only [VectorLoader.perform]
    cases hr : VectorLoader.act cfg op ⟨⟨s.disk, faults⟩, s.self⟩ with
    | ok o t =>
      rw [hr] at hans
      exact .inl ⟨hans.1, hans.2.store⟩
    | error e t =>
      rw [hr] at hans
      rcases hans with ⟨ho, ht⟩ | ⟨hx, ht⟩
      · exact .inl ⟨ho, ht.store⟩
      · exact .inr ⟨hx, trivial, ht.store⟩
  | save =>
    have hans := vectorSave_answers ord hi
    simp only [VectorLoader.perform, bind, EStateM.bind]
    cases hr : VectorLoader.save cfg ord ⟨⟨s.disk, faults⟩, s.self⟩ with
    | ok u t =>
      rw [hr] at hans
      exact .inl ⟨rfl, hans.store⟩
    | error e t =>
      rw [hr] at hans
      exact .inr ⟨hans.1, trivial, hans.2.1.store⟩
  | commit =>
    obtain ⟨u, t, hr, -, ht⟩ := (vectorCommit_spec hi).returns id
    simp only [VectorLoader.perform, bind, EStateM.bind, hr]
    exact .inl ⟨rfl, ht.store⟩
  | discard =>
    obtain ⟨t, hr, ht, -⟩ := vectorDiscard_run ord hi.durable hi.stored.ok
    simp only [VectorLoader.perform, bind, EStateM.bind, hr]
    exact .inl ⟨rfl, ht.store⟩
  | reopen =>
    obtain ⟨t, hr, ht⟩ := vectorReopen_run ord hi
    simp only [VectorLoader.perform, bind, EStateM.bind, hr]
    exact .inl ⟨rfl, ht.store⟩

/-- A container opened on a directory whose committed files hold `c`. -/
theorem vectorOpened_inv (ord : IterOrder) {c : List T} {d : Disk} (h : VectorHolding cfg c d) :
    ∃ s, VectorStore.opened cfg ord d = some s ∧ s.disk = d ∧ VectorStoreInv cfg (Txn.start c) s ∧
      s.self.ptransaction = none := by
  obtain ⟨self, hself, hinv, hnone⟩ := vectorConstruct_run ord h []
  refine ⟨⟨d, self⟩, ?_, rfl, hinv.store, hnone⟩
  unfold VectorStore.opened
  rw [hself]

/-- Every run without faults from an empty directory answers as the transactional
list does. -/
theorem vector_refines (cfg : VectorConfig T) (ord : IterOrder) :
    ∃ s, VectorStore.opened cfg ord Disk.empty = some s ∧
      ∀ calls : List (Call (VectorOp T)), (∀ c ∈ calls, ¬ c.Faulty) →
        outputs (VectorStore.step cfg) s calls =
          outputs (fun t c => Txn.step (VectorSpec.act cfg.name) .done t c.op) (Txn.start [])
            calls := by
  obtain ⟨s, hs, -, hinv, -⟩ := vectorOpened_inv ord (vectorHolding_empty cfg)
  exact ⟨s, hs, fun calls hq => (vector_implements.refines hinv hq).1⟩

/-- Heights in two files, two indices at a time. -/
def heights : VectorConfig Nat := ⟨"heights", 2, 2, natItem, natItem⟩

/-- An index is popped and pushed again between two saves. -/
def heightsRun : List (Call (VectorOp Nat)) :=
  [.act (.pushBack 1), .act (.pushBack 2), .act (.pushBack 3), .save, .act .popBack,
    .act (.constAt 2), .act (.pushBack 4), .save, .commit, .act .clear, .act .popBack, .save,
    .act .size, .discard, .act (.constAt 2), .act (.constAt 3), .reopen,
    .act .size].map fun op => ⟨op, .stored, []⟩

theorem vector_refines_heights : ∃ s, VectorStore.opened heights .stored Disk.empty = some s ∧
    outputs (VectorStore.step heights) s heightsRun =
      [.done, .done, .done, .done, .done,
        .thrown (.outOfRange "index is deleted in container overlay: \"2\", \"heights\""),
        .done, .done, .done, .done, .thrown (.runtimeError "heights: container empty"), .done,
        .size 0, .done, .value 4,
        .thrown (.outOfRange "index is out of range of container: \"3\", \"heights\""), .done,
        .size 3] := by
  obtain ⟨s, hs, h⟩ := vector_refines heights .stored
  refine ⟨s, hs, (h heightsRun fun c hc => ?_).trans rfl⟩
  obtain ⟨op, -, rfl⟩ := List.mem_map.mp hc
  intro ⟨x, hx⟩
  cases hx

end MeshPP.SystemUtility
