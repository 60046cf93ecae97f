import MeshPP.SystemUtility.MapSave
import MeshPP.SystemUtility.Text

/-! # `map_loader` refines a transactional map

The abstract container is a finite map kept three times. `MapInv` ties it to
the parts of the container: the saved map is spread over the index and the
blocks an open transaction would commit, the committed one over the committed
files and `index_to_rollback`, and the overlay holds the difference between the
working and the saved map. Every operation keeps the relation, also when a call
on a file fails in it. -/

namespace MeshPP.SystemUtility
open MeshPP.Lib

abbrev Map (T : Type) := Finmap fun _ : String => T

/-- What the abstract map answers and becomes. A missing key is reported as deleted
where the saved map still has it. -/
def MapSpec.act {T : Type} (name : String) (saved working : Map T) : MapOp T → MapOut T × Map T
  | .insert key value =>
    if key ∈ working then (.flag false, working) else (.flag true, working.insert key value)
  | .erase key => if key ∈ working then (.count 1, working.erase key) else (.count 0, working)
  | .mutableAt key assign =>
    match working.lookup key with
    | some v => (.value v, working.insert key (assign v))
    | none => (.thrown (.outOfRange (missing key)), working)
  | .constAt key =>
    match working.lookup key with
    | some v => (.value v, working)
    | none => (.thrown (.outOfRange (missing key)), working)
  | .clear => (.done, ∅)
  | .contains key => (.flag (key ∈ working), working)
  | .keys => (.keys working.keys, working)
where
  missing (key : String) : String :=
    if key ∈ saved then MapLoader.deletedText name key else MapLoader.notFoundText name key

variable {T : Type} (cfg : MapConfig T)

/-- The committed files and `index_to_rollback` hold `c`. -/
structure Durable (c : String → Option T) (s : MapState T) : Prop where
  blocks : Committed cfg.blockFormat cfg.filename cfg.indexFile s.world.disk c
  indexBlock : (s.world.disk cfg.indexFile).Rep cfg.indexFormat false (names cfg c)
  indexToRollback : ∀ k, s.self.indexToRollback.lookup k = names cfg c k

structure MapInv (a : Txn (Map T)) (s : MapState T) : Prop where
  stored : Stored cfg (fun k => a.saved.lookup k) s
  durable : Durable cfg (fun k => a.committed.lookup k) s
  overlay : s.self.overlay.Between (fun k => a.saved.lookup k) fun k => a.working.lookup k
  keys : s.self.keysWithOverlay = a.working.keys
  closed : s.self.ptransaction = none →
    s.self.index = s.self.indexToRollback ∧ a.saved = a.committed

variable {cfg}

theorem Durable.frame {c : String → Option T} {s t : MapState T} (h : Durable cfg c s)
    (hsame : ∀ f, (s.world.disk f).SameCommitted (t.world.disk f))
    (hr : t.self.indexToRollback = s.self.indexToRollback) : Durable cfg c t :=
  ⟨fun f hf => (hsame _).rep (h.blocks f hf), (hsame _).rep h.indexBlock,
    fun k => by rw [hr]; exact h.indexToRollback k⟩

/-- Committed files alone make a container without an open transaction. -/
theorem Durable.stored {c : String → Option T} {s : MapState T} (h : Durable cfg c s)
    (hp : s.self.ptransaction = none) (hi : s.self.index = s.self.indexToRollback) :
    Stored cfg c s := by
  have ht : s.self.transaction = .empty := by rw [Core.transaction, hp]; rfl
  refine ⟨fun f hf => ?_, ?_, fun k => by rw [hi]; exact h.indexToRollback k, ?_⟩
  · have he : ClassTransaction.empty.entry cfg.indexFile f = none := by
      simp [ClassTransaction.entry, hf, ClassTransaction.empty]
    rw [ht, he]
    exact h.blocks f hf
  · rw [ht]; exact h.indexBlock
  · rw [ht]; exact ClassTransaction.ok_empty _

theorem names_keys {m : Map T} {index : UMap String String}
    (h : ∀ k, index.lookup k = names cfg (fun k => m.lookup k) k) :
    index.keys.toFinset = m.keys := by
  ext k
  rw [List.mem_toFinset, ← AList.mem_keys, UMap.mem_iff, Finmap.mem_keys, Finmap.mem_iff]
  simp only [h, names, Option.map_eq_some_iff]
  constructor
  · rintro ⟨_, v, hv, -⟩; exact ⟨v, hv⟩
  · rintro ⟨v, hv⟩; exact ⟨_, v, hv, rfl⟩

/-- A container over committed files only, with an empty overlay. -/
theorem Durable.fresh {c : Map T} {s : MapState T} (h : Durable cfg (fun k => c.lookup k) s)
    (hp : s.self.ptransaction = none) (hi : s.self.index = s.self.indexToRollback)
    (ho : s.self.overlay = ∅) (hk : s.self.keysWithOverlay = s.self.index.keys.toFinset) :
    MapInv cfg (Txn.start c) s where
  stored := h.stored hp hi
  durable := h
  overlay := by rw [ho]; exact Overlay.between_empty _
  keys := by rw [hk, hi]; exact names_keys h.indexToRollback
  closed _ := ⟨hi, rfl⟩

/-! ## Discard and commit -/

theorem discard_spec {c : Map T} {s : MapState T} (h : Durable cfg (fun k => c.lookup k) s)
    (hok : s.self.transaction.Ok cfg.indexFile)
    (hc : s.self.ptransaction = none → s.self.index = s.self.indexToRollback) :
    Ends .total MapLoader.discard s (fun _ s' => MapInv cfg (Txn.start c) s' ∧
      s'.self.ptransaction = none ∧ (∀ f, (s.world.disk f).SameCommitted (s'.world.disk f))) := by
  cases hp : s.self.ptransaction with
  | some t =>
    have ht : s.self.transaction = t := by rw [Core.transaction, hp]; rfl
    rw [ht] at hok
    have hsame : ∀ f, (s.world.disk f).SameCommitted (t.rollback s.world.disk f) := fun f => by
      rw [hok.rollback_apply]
      split <;> exact ⟨rfl, rfl⟩
    refine ends_ok (by simp only [MapLoader.discard, hp]; rfl) trivial ⟨?_, rfl, hsame⟩
    refine Durable.fresh (h.frame hsame rfl) rfl rfl rfl rfl
  | none =>
    have hi := hc hp
    have hperm : s.self.index.entries.isPerm s.self.indexToRollback.entries = true := by
      rw [hi, List.isPerm_iff]
    refine ends_ok (a := ⟨⟩) (t := { s with self := s.self.cleared })
      (by simp only [MapLoader.discard, hp, hperm, if_true]) trivial ⟨?_, hp, fun _ => .refl _⟩
    exact Durable.fresh (h.frame (fun _ => .refl _) rfl) hp hi rfl rfl

theorem commit_spec {a : Txn (Map T)} {s : MapState T} (h : MapInv cfg a s) :
    Ends .total MapLoader.commit s (fun _ s' => MapInv cfg { a with committed := a.saved } s' ∧
      s'.self.ptransaction = none) := by
  unfold MapLoader.commit
  refine ends_modify trivial ?_
  cases hp : s.self.ptransaction with
  | some t =>
    have ht : s.self.transaction = t := by rw [Core.transaction, hp]; rfl
    have hok := h.stored.ok
    rw [ht] at hok
    have hdur : Durable cfg (fun k => a.saved.lookup k)
        { world := { s.world with disk := t.commit s.world.disk },
          self := { s.self with ptransaction := none, indexToRollback := s.self.index } } := by
      refine ⟨fun f hf => ?_, ?_, h.stored.index⟩
      · have := (h.stored.blocks f hf).commit
        rw [ht] at this
        simp only [hok.commit_apply]
        exact this
      · have := h.stored.indexBlock.commit
        rw [ht] at this
        simp only [hok.commit_apply, ClassTransaction.entry, if_true]
        exact this
    exact ⟨⟨hdur.stored rfl rfl, hdur, h.overlay, h.keys, fun _ => ⟨rfl, rfl⟩⟩, rfl⟩
  | none =>
    obtain ⟨hi, hsc⟩ := h.closed hp
    have ha : ({ a with committed := a.saved } : Txn (Map T)) = a := by
      cases a; simp_all
    rw [ha]
    exact ⟨h, hp⟩

/-! ## Access -/

/-- What a container means depends on the world through the disk only. -/
theorem MapInv.of_disk {a : Txn (Map T)} {s : MapState T} (h : MapInv cfg a s) {w : World}
    (hw : w.disk = s.world.disk) : MapInv cfg a { s with world := w } := by
  obtain ⟨⟨h1, h2, h3, h4⟩, ⟨h5, h6, h7⟩, h8, h9, h10⟩ := h
  rw [← hw] at h1 h2 h5 h6
  exact ⟨⟨h1, h2, h3, h4⟩, ⟨h5, h6, h7⟩, h8, h9, h10⟩

abbrev mapAccess (cfg : MapConfig T) (a : Txn (Map T)) : Frame (CoreState String T) :=
  Core.accessFrame cfg.blockFormat cfg.filename cfg.indexFile (fun k => a.saved.lookup k)
    fun k => a.working.lookup k

theorem MapInv.means {a : Txn (Map T)} {s : MapState T} (h : MapInv cfg a s) :
    Core.Means cfg.blockFormat cfg.filename cfg.indexFile (fun k => a.saved.lookup k)
      (fun k => a.working.lookup k) ⟨s.world, s.self.toCore⟩ :=
  ⟨h.stored.blocks, h.stored.ok, h.overlay⟩

/-- An access leaves the container with the same meaning. -/
theorem MapInv.access {a : Txn (Map T)} {s : MapState T} (h : MapInv cfg a s)
    {t : CoreState String T} (hle : (mapAccess cfg a).le ⟨s.world, s.self.toCore⟩ t) :
    MapInv cfg a { world := t.world, self := { s.self with toCore := t.core } } := by
  obtain ⟨-, hdisk, hhead, hopen, hmeans⟩ := hle
  have hm := hmeans h.means
  have h' := h.of_disk hdisk
  refine ⟨⟨hm.blocks, ?_, h.stored.index, hm.ok⟩, h'.durable.frame (fun _ => .refl _) rfl,
    hm.overlay, h.keys, fun hn => h.closed ?_⟩
  · show (t.world.disk cfg.indexFile).Rep cfg.indexFormat t.core.transaction.head.isSome _
    rw [hhead]
    exact h'.stored.indexBlock
  · have hn' : t.core.ptransaction = none := hn
    have hs : s.self.ptransaction.isSome = false := by
      rw [hn'] at hopen
      exact hopen.symm
    exact Option.isSome_eq_false_iff.mp hs |> Option.isNone_iff_eq_none.mp

theorem MapInv.setOverlay {a : Txn (Map T)} {s : MapState T} (h : MapInv cfg a s) {w : Map T}
    {o : Overlay String T} {ks : Finset String}
    (ho : o.Between (fun k => a.saved.lookup k) fun k => w.lookup k) (hk : ks = w.keys) :
    MapInv cfg { a with working := w }
      { s with self := { s.self with overlay := o, keysWithOverlay := ks } } :=
  ⟨⟨h.stored.blocks, h.stored.indexBlock, h.stored.index, h.stored.ok⟩,
    ⟨h.durable.blocks, h.durable.indexBlock, h.durable.indexToRollback⟩, ho, hk, h.closed⟩

theorem mem_index_iff {a : Txn (Map T)} {s : MapState T} (h : MapInv cfg a s) (key : String) :
    key ∈ s.self.index ↔ key ∈ a.saved := by
  rw [UMap.mem_iff, Finmap.mem_iff]
  simp only [h.stored.index, names, Option.map_eq_some_iff]
  constructor
  · rintro ⟨_, v, hv, -⟩; exact ⟨v, hv⟩
  · rintro ⟨v, hv⟩; exact ⟨_, v, hv, rfl⟩

theorem known_eq {a : Txn (Map T)} {s : MapState T} (h : MapInv cfg a s) (key : String) :
    decide (key ∈ s.self.index) = (a.saved.lookup key).isSome := by
  rw [Bool.eq_iff_iff, decide_eq_true_iff, mem_index_iff h, Finmap.lookup_isSome]

theorem missing_eq {a : Txn (Map T)} (key : String) :
    (if (a.saved.lookup key).isSome then (MapLoader.texts cfg.name key).deleted
      else (MapLoader.texts cfg.name key).missing) = MapSpec.act.missing cfg.name a.saved key := by
  unfold MapSpec.act.missing
  exact if_congr Finmap.lookup_isSome rfl rfl

/-- The machine's answer to a program on a container. -/
def MapAnswers (cfg : MapConfig T) (a a' : Txn (Map T)) (out : MapOut T) (m : MapM T (MapOut T))
    (s : MapState T) : Prop :=
  match m s with
  | .ok o t => o = out ∧ MapInv cfg a' t
  | .error e t => (.thrown e = out ∧ MapInv cfg a' t) ∨ (s.world.Faulty ∧ MapInv cfg a t)

theorem keys_insert_mem {m : Map T} {key : String} (v : T) (h : key ∈ m) :
    (m.insert key v).keys = m.keys := by
  ext k
  rw [Finmap.mem_keys, Finmap.mem_keys, Finmap.mem_insert]
  exact ⟨fun hk => hk.elim (fun he => he ▸ h) id, .inr⟩

theorem mutableAt_answers {a : Txn (Map T)} {s : MapState T} (h : MapInv cfg a s) (key : String)
    (assign : T → T) :
    MapAnswers cfg a
      { a with working := (MapSpec.act cfg.name a.saved a.working (.mutableAt key assign)).2 }
      (MapSpec.act cfg.name a.saved a.working (.mutableAt key assign)).1
      (MapLoader.act cfg (.mutableAt key assign)) s := by
  have hk := known_eq h key
  unfold MapAnswers MapLoader.act MapLoader.mutableAt
  simp only [MapSpec.act, MapLoader.onCore, bind, EStateM.bind, get_run, zoom]
  cases hv : a.working.lookup key with
  | none =>
    have hr := Core.reach_missing h.means hv (cfg.filename key)
      (MapLoader.texts cfg.name key) hk
    simp only [Core.mutableAt, bind, EStateM.bind, hr, missing_eq]
    exact .inl ⟨trivial, h⟩
  | some v =>
    have hr := Core.mutableAt_spec h.means (filename_ne cfg key) hv
      (MapLoader.texts cfg.name key) hk assign
    cases hm : Core.mutableAt cfg.blockFormat (cfg.filename key) key (MapLoader.texts cfg.name key)
        (decide (key ∈ s.self.index)) assign ⟨s.world, s.self.toCore⟩ with
    | error e t =>
      rw [hm] at hr
      exact .inr ⟨hr.1, h.access hr.2⟩
    | ok r t =>
      rw [hm] at hr
      obtain ⟨rfl, s1, hle, rfl⟩ := hr
      have ht := h.access hle
      have hmem : key ∈ a.working := Finmap.mem_iff.mpr ⟨r, hv⟩
      refine ⟨rfl, ht.setOverlay
        (ht.overlay.insert (fun k hk => Finmap.lookup_insert_of_ne _ hk) ?_)
        (ht.keys.trans (keys_insert_mem _ hmem).symm)⟩
      simp only [OverlayAt, Finmap.lookup_insert]
      exact ⟨trivial, rfl⟩

theorem constAt_answers {a : Txn (Map T)} {s : MapState T} (h : MapInv cfg a s) (key : String) :
    MapAnswers cfg a
      { a with working := (MapSpec.act cfg.name a.saved a.working (.constAt key)).2 }
      (MapSpec.act cfg.name a.saved a.working (.constAt key)).1
      (MapLoader.act cfg (.constAt key)) s := by
  have hk := known_eq h key
  unfold MapAnswers MapLoader.act MapLoader.constAt
  simp only [MapSpec.act, MapLoader.onCore, bind, EStateM.bind, get_run, zoom]
  cases hv : a.working.lookup key with
  | none =>
    have hr := Core.reach_missing h.means hv (cfg.filename key)
      (MapLoader.texts cfg.name key) hk
    simp only [hr, missing_eq]
    exact .inl ⟨trivial, h⟩
  | some v =>
    have hr := Core.reach_spec h.means (filename_ne cfg key) hv
      (MapLoader.texts cfg.name key) hk
    cases hm : Core.reach cfg.blockFormat (cfg.filename key) key (MapLoader.texts cfg.name key)
        (decide (key ∈ s.self.index)) ⟨s.world, s.self.toCore⟩ with
    | error e t => exact .inr ⟨(hr.of_error hm).2, h.access (hr.of_error hm).1⟩
    | ok r t =>
      obtain ⟨hle, rfl⟩ := hr.of_ok hm
      exact ⟨rfl, h.access hle⟩

/-! ## Changes to the overlay -/

theorem mem_working_iff {a : Txn (Map T)} {s : MapState T} (h : MapInv cfg a s) (key : String) :
    key ∈ s.self.keysWithOverlay ↔ key ∈ a.working := by rw [h.keys, Finmap.mem_keys]

theorem mem_working_of_overlay {a : Txn (Map T)} {s : MapState T} (h : MapInv cfg a s)
    (key : String) : key ∈ a.working ↔ match s.self.overlay.lookup key with
      | some (_, code) => code ≠ .deleted
      | none => key ∈ s.self.index := by
  rw [← Finmap.lookup_isSome, h.overlay.isSome_iff key]
  cases s.self.overlay.lookup key with
  | none => exact Finmap.lookup_isSome.trans (mem_index_iff h key).symm
  | some entry => exact Iff.rfl

theorem keys_insert (m : Map T) (key : String) (v : T) :
    (m.insert key v).keys = insert key m.keys := by
  ext k
  simp only [Finmap.mem_keys, Finmap.mem_insert, Finset.mem_insert]

theorem insertNew_run {a : Txn (Map T)} {s : MapState T} (h : MapInv cfg a s) {key : String}
    (value : T) (hk : key ∉ a.working) :
    ∃ t, MapLoader.insertKey key { s with self :=
        { s.self with overlay := s.self.overlay.insert key (some value, .modified) } } =
          .ok true t ∧
      MapInv cfg { a with working := a.working.insert key value } t := by
  have hk' : key ∉ s.self.keysWithOverlay := fun hm => hk ((mem_working_iff h key).mp hm)
  refine ⟨_, by unfold MapLoader.insertKey; rw [get_bind_run, if_neg hk']; rfl, ?_⟩
  refine h.setOverlay (h.overlay.insert (fun k hk => Finmap.lookup_insert_of_ne _ hk) ?_) ?_
  · simp only [OverlayAt, Finmap.lookup_insert]
    exact ⟨trivial, rfl⟩
  · rw [keys_insert, ← h.keys]

theorem insert_run {a : Txn (Map T)} {s : MapState T} (h : MapInv cfg a s) (key : String)
    (value : T) : ∃ b t, MapLoader.insert key value s = .ok b t ∧
      .flag b = (MapSpec.act cfg.name a.saved a.working (.insert key value)).1 ∧
      MapInv cfg
        { a with working := (MapSpec.act cfg.name a.saved a.working (.insert key value)).2 } t := by
  have hw := mem_working_of_overlay h key
  unfold MapLoader.insert
  rw [get_bind_run]
  by_cases hk : key ∈ a.working
  · simp only [MapSpec.act, if_pos hk]
    refine ⟨false, s, ?_, rfl, h⟩
    rw [hw] at hk
    cases hl : s.self.overlay.lookup key with
    | none =>
      rw [hl] at hk
      simp only
      rw [get_bind_run, if_pos hk]
      rfl
    | some entry =>
      rw [hl] at hk
      simp only
      rw [if_pos hk]
      rfl
  · obtain ⟨t, ht, hinv⟩ := insertNew_run h value hk
    simp only [MapSpec.act, if_neg hk]
    refine ⟨true, t, ?_, rfl, hinv⟩
    rw [hw] at hk
    cases hl : s.self.overlay.lookup key with
    | none =>
      rw [hl] at hk
      simp only
      rw [get_bind_run, if_neg hk, modify_bind_run]
      exact ht
    | some entry =>
      rw [hl] at hk
      simp only
      rw [if_neg hk, modify_bind_run]
      exact ht

/-- The working map without `key`, over an overlay that says so. -/
theorem eraseOld_run {a : Txn (Map T)} {s : MapState T} (h : MapInv cfg a s) {key : String}
    (hk : key ∈ a.working) {o : Overlay String T}
    (ho : o.Between (fun k => a.saved.lookup k) fun k => (a.working.erase key).lookup k) :
    ∃ t, MapLoader.eraseKey key { s with self := { s.self with overlay := o } } = .ok 1 t ∧
      MapInv cfg { a with working := a.working.erase key } t := by
  have hk' : key ∈ s.self.keysWithOverlay := (mem_working_iff h key).mpr hk
  refine ⟨_, by unfold MapLoader.eraseKey; rw [get_bind_run, if_pos hk']; rfl, ?_⟩
  exact h.setOverlay ho (by rw [Finmap.keys_erase, ← h.keys])

theorem erase_run {a : Txn (Map T)} {s : MapState T} (h : MapInv cfg a s) (key : String) :
    ∃ n t, MapLoader.erase key s = .ok n t ∧
      .count n = (MapSpec.act cfg.name a.saved a.working (.erase key)).1 ∧
      MapInv cfg
        { a with working := (MapSpec.act cfg.name a.saved a.working (.erase key)).2 } t := by
  have hw := mem_working_of_overlay h key
  have hne : ∀ k, k ≠ key → (a.working.erase key).lookup k = a.working.lookup k :=
    fun k hk => Finmap.lookup_erase_ne hk
  unfold MapLoader.erase
  rw [get_bind_run]
  by_cases hk : key ∈ a.working
  · simp only [MapSpec.act, if_pos hk]
    have hmark : ∀ packet, key ∈ a.saved →
        Overlay.Between (s.self.overlay.insert key (packet, .deleted)) (fun k => a.saved.lookup k)
          fun k => (a.working.erase key).lookup k := fun packet hs =>
      h.overlay.insert hne ⟨Finmap.lookup_erase _ _, Finmap.lookup_isSome.mpr hs⟩
    cases hl : s.self.overlay.lookup key with
    | none =>
      have hin : key ∈ s.self.index := by rw [hw, hl] at hk; exact hk
      obtain ⟨t, ht, hinv⟩ := eraseOld_run h hk (hmark none ((mem_index_iff h key).mp hin))
      refine ⟨1, t, ?_, rfl, hinv⟩
      simp only
      rw [get_bind_run, if_pos hin, modify_bind_run]
      exact ht
    | some entry =>
      have hcode : entry.2 ≠ .deleted := by rw [hw, hl] at hk; exact hk
      simp only
      rw [if_neg hcode, get_bind_run]
      by_cases hin : key ∈ s.self.index
      · obtain ⟨t, ht, hinv⟩ := eraseOld_run h hk (hmark entry.1 ((mem_index_iff h key).mp hin))
        refine ⟨1, t, ?_, rfl, hinv⟩
        rw [if_pos hin, modify_bind_run]
        exact ht
      · have hout : key ∉ a.saved := fun hs => hin ((mem_index_iff h key).mpr hs)
        obtain ⟨t, ht, hinv⟩ := eraseOld_run h hk (h.overlay.erase hne
          ((Finmap.lookup_erase _ _).trans (Finmap.lookup_eq_none.mpr hout).symm))
        refine ⟨1, t, ?_, rfl, hinv⟩
        rw [if_neg hin, modify_bind_run]
        exact ht
  · simp only [MapSpec.act, if_neg hk]
    refine ⟨0, s, ?_, rfl, h⟩
    cases hl : s.self.overlay.lookup key with
    | none =>
      have hin : key ∉ s.self.index := by rw [hw, hl] at hk; exact hk
      simp only
      rw [get_bind_run, if_neg hin]
      rfl
    | some entry =>
      have hcode : entry.2 = .deleted := by
        rw [hw, hl] at hk
        simpa using hk
      simp only
      rw [if_pos hcode]
      rfl

theorem lookup_clear (index : UMap String String) (k : String) :
    (index.entries.foldl (fun (o : UMap String (Option T × ECode)) e =>
      if e.1 ∈ o then o else o.insert e.1 (none, .deleted)) ∅).lookup k =
      if k ∈ index then some (none, .deleted) else none := by
  suffices h : ∀ (es : List (Sigma fun _ : String => String)) (o : UMap String (Option T × ECode)),
      (∀ k p, o.lookup k = some p → p = (none, .deleted)) →
      (es.foldl (fun o e => if e.1 ∈ o then o else o.insert e.1 (none, .deleted)) o).lookup k =
        if k ∈ es.map Sigma.fst then some (none, .deleted) else o.lookup k by
    rw [h _ _ (by simp)]
    exact if_congr Iff.rfl rfl rfl
  intro es
  induction es with
  | nil => intro o _; simp
  | cons e es ih =>
    intro o ho
    have hstep : ∀ j, (if e.1 ∈ o then o else o.insert e.1 (none, .deleted)).lookup j =
        if j = e.1 then some (none, .deleted) else o.lookup j := by
      intro j
      split
      · next hin =>
        split
        · next he =>
          obtain ⟨p, hp⟩ := UMap.mem_iff.mp hin
          rw [he, hp, ho _ _ hp]
        · rfl
      · exact UMap.lookup_insert o e.1 _ j
    rw [List.foldl_cons, ih _ (fun j p hp => ?_), hstep]
    · by_cases hk : k ∈ es.map Sigma.fst
      · simp [hk]
      · by_cases he : k = e.1 <;> simp [hk, he]
    · rw [hstep] at hp
      split at hp
      · exact (Option.some.inj hp).symm
      · exact ho j p hp

theorem clear_inv {a : Txn (Map T)} {s : MapState T} (h : MapInv cfg a s) :
    MapInv cfg { a with working := ∅ } { s with self := s.self.clear } := by
  refine h.setOverlay (fun k => ?_) Finmap.keys_empty.symm
  show OverlayAt (a.saved.lookup k) ((∅ : Map T).lookup k) (s.self.clear.overlay.lookup k)
  rw [MapLoader.clear, lookup_clear, Finmap.lookup_empty]
  by_cases hk : k ∈ s.self.index
  · rw [if_pos hk]
    exact ⟨rfl, Finmap.lookup_isSome.mpr ((mem_index_iff h k).mp hk)⟩
  · rw [if_neg hk]
    exact (Finmap.lookup_eq_none.mpr fun hs => hk ((mem_index_iff h k).mpr hs)).symm

theorem act_answers {a : Txn (Map T)} {s : MapState T} (h : MapInv cfg a s) (op : MapOp T) :
    MapAnswers cfg a { a with working := (MapSpec.act cfg.name a.saved a.working op).2 }
      (MapSpec.act cfg.name a.saved a.working op).1 (MapLoader.act cfg op) s := by
  cases op with
  | insert key value =>
    obtain ⟨b, t, ht, ho, hinv⟩ := insert_run h key value
    unfold MapAnswers MapLoader.act
    simp only [bind, EStateM.bind, ht]
    exact ⟨ho, hinv⟩
  | erase key =>
    obtain ⟨n, t, ht, ho, hinv⟩ := erase_run h key
    unfold MapAnswers MapLoader.act
    simp only [bind, EStateM.bind, ht]
    exact ⟨ho, hinv⟩
  | mutableAt key assign => exact mutableAt_answers h key assign
  | constAt key => exact constAt_answers h key
  | clear => exact ⟨rfl, clear_inv h⟩
  | contains key =>
    refine ⟨congrArg MapOut.flag ?_, h⟩
    rw [MapLoader.contains, decide_eq_decide]
    exact mem_working_iff h key
  | keys => exact ⟨congrArg MapOut.keys h.keys, h⟩

/-! ## Saving -/

theorem MapInv.opened {a : Txn (Map T)} {s : MapState T} (h : MapInv cfg a s) :
    MapInv cfg a { s with self := { s.self with toCore := s.self.opened } } :=
  ⟨⟨h.stored.blocks, h.stored.indexBlock, h.stored.index, h.stored.ok⟩,
    h.durable.frame (fun _ => .refl _) rfl, h.overlay, h.keys, fun hn => by cases hn⟩

theorem saveGroups_spec (ord : IterOrder) {a : Txn (Map T)} {s : MapState T} (h : MapInv cfg a s)
    (ho : s.self.ptransaction.isSome) :
    Ends (mapFrame cfg) (MapLoader.saveGroups cfg ord) s (fun _ s' =>
      MapInv cfg { a with saved := a.working } s') := by
  unfold MapLoader.saveGroups
  refine (ends_get (Q := fun b t => b = s ∧ t = s) ⟨rfl, rfl⟩).bind fun b t _ htt => ?_
  obtain ⟨rfl, rfl⟩ := htt
  refine (saveGroup_spec ord h.stored ho (Overlay.keysOf_nodup ord _ .deleted)
    (h.overlay.admits_erase ord)).bind fun _ s2 hle2 h2 => ?_
  obtain ⟨hst2, ho2, hov2, hk2⟩ := h2
  have hmod := h.overlay.admits_modify ord (assign (t.self.overlay.keysOf ord .deleted)
    (Op.erase.result t.self.overlay.packetOf) fun k => a.saved.lookup k)
  refine (saveGroup_spec ord hst2 ho2 (Overlay.keysOf_nodup ord t.self.overlay .modified)
    (by rw [hov2]; exact hmod)).bind fun _ s3 hle3 h3 => ?_
  obtain ⟨hst3, ho3, hov3, hk3⟩ := h3
  rw [hov2, Op.result_modify, Op.result_erase, h.overlay.assign_groups ord] at hst3
  refine ends_modify ⟨List.suffix_refl _, fun _ => .refl _, rfl, id, id⟩ ?_
  refine ⟨⟨hst3.blocks, hst3.indexBlock, hst3.index, hst3.ok⟩, ?_, Overlay.between_empty _, ?_,
    fun hn => ?_⟩
  · exact h.durable.frame (fun f => (hle2.2.1 f).trans (hle3.2.1 f))
      (hle3.2.2.1.trans hle2.2.2.1)
  · exact hk3.trans (hk2.trans h.keys)
  · have hn' : s3.self.ptransaction = none := hn
    rw [hn'] at ho3
    cases ho3

/-- A save gets through, or it throws because a call failed: then the container is
what it was at the last commit, and so are the committed files. -/
theorem save_answers (ord : IterOrder) {a : Txn (Map T)} {s : MapState T} (h : MapInv cfg a s) :
    match MapLoader.save cfg ord s with
    | .ok _ t => MapInv cfg { a with saved := a.working } t
    | .error _ t => s.world.Faulty ∧ MapInv cfg (Txn.start a.committed) t ∧
        t.self.ptransaction = none ∧ ∀ f, (s.world.disk f).SameCommitted (t.world.disk f) := by
  unfold MapLoader.save
  rw [get_bind_run]
  by_cases hnil : s.self.overlay.entries.isEmpty = true
  · rw [if_pos hnil]
    have hsame : a.saved = a.working :=
      Finmap.ext_lookup fun k => congrFun (h.overlay.eq_of_empty hnil) k
    obtain ⟨c, g, w⟩ := a
    obtain rfl : g = w := hsame
    exact h
  · rw [if_neg hnil, modify_bind_run]
    have hopen := h.opened
    have hgroups := saveGroups_spec ord hopen rfl
    cases hb : MapLoader.saveGroups cfg ord
        { s with self := { s.self with toCore := s.self.opened } } with
    | ok u t =>
      simp only [onFailure, hb]
      exact (hgroups.of_ok hb).2
    | error e t =>
      obtain ⟨hle, hx⟩ := hgroups.of_error hb
      have hisSome : t.self.ptransaction.isSome := hle.2.2.2.2 rfl
      obtain ⟨u, r, hd, -, hinv, hnone, hsame⟩ := (discard_spec
        (hopen.durable.frame hle.2.1 hle.2.2.1) (hle.2.2.2.1 hopen.stored.ok)
        fun hn => by rw [hn] at hisSome; cases hisSome).returns id
      simp only [onFailure, hb, hd]
      exact ⟨hx, hinv, hnone, fun f => (hle.2.1 f).trans (hsame f)⟩

/-! ## Opening -/

theorem loadIndex_spec (ord : IterOrder) {c : Map T} {w : World}
    (h : (w.disk cfg.indexFile).Rep cfg.indexFormat false (names cfg fun k => c.lookup k)) :
    Ends readFrame (loadIndex cfg ord) w (fun index w' =>
      (∀ k, index.lookup k = names cfg (fun k => c.lookup k) k) ∧ w'.disk = w.disk) := by
  obtain ⟨items, hh, hd⟩ := h
  unfold loadIndex
  refine (construct_committed hh).bind fun temp w1 _ h1 => ?_
  obtain ⟨hc, hw⟩ := h1
  have hv := hc.values (by rw [hc.clear]; simp)
  have hmem := mem_loaded hv hd
  have hloaded : ∀ k ∈ ord.order temp.loaded, ∃ v, (names cfg fun k => c.lookup k) k = some v ∧
      ∃ u, temp.values.lookup k = some u ∧ u.item.item = some v := fun k hk => by
    obtain ⟨-, hs⟩ := (hmem k).mp (ord.mem.mp hk)
    obtain ⟨v, hv'⟩ := Option.isSome_iff_exists.mp hs
    obtain ⟨u, hu⟩ := UMap.mem_iff.mp ((hv.mem_iff k).mpr (.inr ⟨rfl, (hd.mem_keys k).mpr hs⟩))
    exact ⟨v, hv', u, hu, by rw [(hv.item hd hu).1, hv']⟩
  have hloop : ∀ (todo done : List String) (index : UMap String String),
      (∀ k ∈ todo, k ∈ ord.order temp.loaded) →
      (∀ k, index.lookup k = if k ∈ done then names cfg (fun k => c.lookup k) k else none) →
      Ends readFrame (todo.foldlM (fun index key => do
          let value ← temp.getValue key
          pure (index.insert key value)) index) w1 (fun index' w' => (∀ k, index'.lookup k =
        if k ∈ done ++ todo then names cfg (fun k => c.lookup k) k else none) ∧ w' = w1) := by
    intro todo
    induction todo with
    | nil =>
      intro done index _ hidx
      exact ends_pure ⟨by simpa using hidx, rfl⟩
    | cons key todo ih =>
      intro done index hin hidx
      obtain ⟨v, hv', u, hu, hitem⟩ := hloaded key (hin key (by simp))
      rw [List.foldlM_cons]
      simp only [BlockFileLoader.getValue, BlockFileLoader.get, hu, hitem]
      have := ih (done ++ [key]) (index.insert key v) (fun k hk => hin k (by simp [hk])) fun k => by
        rw [UMap.lookup_insert, hidx]
        by_cases he : k = key
        · simp [he, hv']
        · simp [he]
      rwa [List.append_assoc, List.singleton_append] at this
  refine (hloop (ord.order temp.loaded) [] ∅ (fun _ => id) (by simp)).mono fun index w2 _ h2 => ?_
  obtain ⟨hidx, rfl⟩ := h2
  refine ⟨fun k => ?_, hw⟩
  rw [hidx, List.nil_append]
  split
  · rfl
  · next hno =>
    rw [ord.mem, hmem] at hno
    exact (Option.not_isSome_iff_eq_none.mp fun hs => hno ⟨.inl rfl, hs⟩).symm

/-- The files a directory has committed hold `c`. -/
structure Holding (cfg : MapConfig T) (c : Map T) (d : Disk) : Prop where
  blocks : Committed cfg.blockFormat cfg.filename cfg.indexFile d fun k => c.lookup k
  indexBlock : (d cfg.indexFile).Rep cfg.indexFormat false (names cfg fun k => c.lookup k)

theorem construct_run (ord : IterOrder) {c : Map T} {d : Disk} (h : Holding cfg c d)
    (faults : List (Option Fault)) :
    ∃ self, MapLoader.construct cfg ord ⟨d, []⟩ = .ok self ⟨d, []⟩ ∧
      MapInv cfg (Txn.start c) ⟨⟨d, faults⟩, self⟩ ∧ self.ptransaction = none := by
  obtain ⟨index, hrun, hidx, -⟩ := returns_quiet (loadIndex_spec ord (w := ⟨d, []⟩)
    h.indexBlock)
  refine ⟨⟨⟨∅, none⟩, index, index, index.keys.toFinset⟩, ?_, ?_, rfl⟩
  · unfold MapLoader.construct
    simp only [bind, EStateM.bind, hrun]
    rfl
  · exact Durable.fresh ⟨h.blocks, h.indexBlock, hidx⟩ rfl rfl rfl rfl

variable (cfg) in
theorem holding_empty : Holding cfg (∅ : Map T) Disk.empty where
  blocks f _ := by
    have : restrict cfg.filename (fun k => (∅ : Map T).lookup k) f = fun _ => none := by
      funext j; simp [restrict]
    rw [this]
    exact Files.rep_absent false
  indexBlock := by
    have : names cfg (fun k => (∅ : Map T).lookup k) = fun _ => none := by
      funext j; simp [names]
    rw [this]
    exact Files.rep_absent false

theorem reopen_run (ord : IterOrder) {a : Txn (Map T)} {s : MapState T} (h : MapInv cfg a s) :
    ∃ t, MapLoader.reopen cfg ord s = .ok ⟨⟩ t ∧ MapInv cfg (Txn.start a.saved) t := by
  obtain ⟨u, s1, hc, -, h1, -⟩ := (commit_spec h).returns id
  obtain ⟨self, hself, hinv, -⟩ := construct_run ord
    ⟨h1.durable.blocks, h1.durable.indexBlock⟩ s1.world.faults
  refine ⟨⟨s1.world, self⟩, ?_, hinv⟩
  unfold MapLoader.reopen
  simp only [bind, EStateM.bind, hc, get_run, hself]
  rfl

/-! ## The container as a machine -/

/-- The store between two operations. -/
def StoreInv (cfg : MapConfig T) (a : Txn (Map T)) (s : MapStore T) : Prop :=
  ∀ faults, MapInv cfg a ⟨⟨s.disk, faults⟩, s.self⟩

theorem MapInv.store {a : Txn (Map T)} {t : MapState T} (h : MapInv cfg a t) :
    StoreInv cfg a ⟨t.world.disk, t.self⟩ := fun _ => h.of_disk rfl

def MapOut.Thrown : MapOut T → Prop
  | .thrown _ => True
  | _ => False

/-- Each operation answers as the abstract map does, or a call on a file failed in it
and it threw. -/
theorem map_implements : Implements (MapSpec.act cfg.name) MapOut.done MapOut.Thrown
    (fun c : Call (MapOp T) => c.op) Call.Faulty (MapStore.step cfg) (StoreInv cfg) := by
  intro a s c h
  have hi := h c.faults
  obtain ⟨op, ord, faults⟩ := c
  unfold MapStore.step
  cases op with
  | act op =>
    have hans := act_answers hi op
    unfold MapAnswers at hans
    simp only [MapLoader.perform]
    cases hr : MapLoader.act cfg op ⟨⟨s.disk, faults⟩, s.self⟩ with
    | ok o t =>
      rw [hr] at hans
      exact .inl ⟨hans.1, hans.2.store⟩
    | error e t =>
      rw [hr] at hans
      rcases hans with ⟨ho, ht⟩ | ⟨hx, ht⟩
      · exact .inl ⟨ho, ht.store⟩
      · exact .inr ⟨hx, trivial, ht.store⟩
  | save =>
    have hans := save_answers ord hi
    simp only [MapLoader.perform, bind, EStateM.bind]
    cases hr : MapLoader.save cfg ord ⟨⟨s.disk, faults⟩, s.self⟩ with
    | ok u t =>
      rw [hr] at hans
      exact .inl ⟨rfl, hans.store⟩
    | error e t =>
      rw [hr] at hans
      exact .inr ⟨hans.1, trivial, hans.2.1.store⟩
  | commit =>
    obtain ⟨u, t, hr, -, ht, -⟩ := (commit_spec hi).returns id
    simp only [MapLoader.perform, bind, EStateM.bind, hr]
    exact .inl ⟨rfl, ht.store⟩
  | discard =>
    obtain ⟨u, t, hr, -, ht, -⟩ := (discard_spec hi.durable hi.stored.ok
      fun hn => (hi.closed hn).1).returns id
    simp only [MapLoader.perform, bind, EStateM.bind, hr]
    exact .inl ⟨rfl, ht.store⟩
  | reopen =>
    obtain ⟨t, hr, ht⟩ := reopen_run ord hi
    simp only [MapLoader.perform, bind, EStateM.bind, hr]
    exact .inl ⟨rfl, ht.store⟩

/-- A container opened on a directory whose committed files hold `c`. -/
theorem opened_inv (ord : IterOrder) {c : Map T} {d : Disk} (h : Holding cfg c d) :
    ∃ s, MapStore.opened cfg ord d = some s ∧ s.disk = d ∧ StoreInv cfg (Txn.start c) s ∧
      s.self.ptransaction = none := by
  obtain ⟨self, hself, hinv, hnone⟩ := construct_run ord h []
  refine ⟨⟨d, self⟩, ?_, rfl, hinv.store, hnone⟩
  unfold MapStore.opened
  rw [hself]

/-- The keys that index and overlay make reachable: saved and not deleted in the
overlay, or put into the overlay. -/
def MapLoader.reachable (self : MapLoader T) (key : String) : Prop :=
  match self.overlay.lookup key with
  | some (_, code) => code ≠ .deleted
  | none => key ∈ self.index

/-- Every run without faults from an empty directory answers as the transactional
map does, and `keys_with_overlay` is what index and overlay make reachable. -/
theorem map_refines (cfg : MapConfig T) (ord : IterOrder) :
    ∃ s, MapStore.opened cfg ord Disk.empty = some s ∧
      ∀ calls : List (Call (MapOp T)), (∀ c ∈ calls, ¬ c.Faulty) →
        outputs (MapStore.step cfg) s calls =
          outputs (fun t c => Txn.step (MapSpec.act cfg.name) .done t c.op) (Txn.start ∅) calls ∧
        ∀ key, key ∈ (final (MapStore.step cfg) s calls).self.keysWithOverlay ↔
          (final (MapStore.step cfg) s calls).self.reachable key := by
  obtain ⟨s, hs, -, hinv, -⟩ := opened_inv ord (holding_empty cfg)
  refine ⟨s, hs, fun calls hq => ?_⟩
  obtain ⟨hout, hfin⟩ := map_implements.refines hinv hq
  refine ⟨hout, fun key => ?_⟩
  have hi := hfin []
  rw [mem_working_iff hi key, mem_working_of_overlay hi key]
  exact Iff.rfl

/-- Balances in two files, under a hash that puts every key into the first. -/
def balances : MapConfig Nat := ⟨"balances", 2, fun _ => 0, stringItem, indexItem⟩

/-- Two keys share a block; one is erased and inserted again across two saves. -/
def balancesRun : List (Call (MapOp Nat)) :=
  [.act (.insert "a" 1), .act (.insert "b" 2), .save, .act (.erase "a"), .save,
    .act (.insert "a" 3), .act (.insert "a" 4), .save, .commit, .act (.constAt "c"),
    .act (.mutableAt "b" (· + 5)), .discard, .act (.constAt "b"), .reopen,
    .act (.constAt "a")].map fun op => ⟨op, .stored, []⟩

theorem map_refines_balances : ∃ s, MapStore.opened balances .stored Disk.empty = some s ∧
    outputs (MapStore.step balances) s balancesRun =
      [.flag true, .flag true, .done, .count 1, .done, .flag true, .flag false, .done, .done,
        .thrown (.outOfRange "key not found in container index: \"c\", \"balances\""),
        .value 2, .done, .value 2, .done, .value 3] := by
  obtain ⟨s, hs, h⟩ := map_refines balances .stored
  refine ⟨s, hs, (h balancesRun fun c hc => ?_).1.trans rfl⟩
  obtain ⟨op, -, rfl⟩ := List.mem_map.mp hc
  intro ⟨x, hx⟩
  cases hx

end MeshPP.SystemUtility
