import MeshPP.SystemUtility.MapLoader

/-! # What one group of `map_loader_internals::save` does

A group of keys goes through the index block, the index in memory and the
blocks of its files. `Stored g` says that all of them hold the same partial
function `g`; `saveGroup_spec` moves it to `g` with the group's keys updated. -/

namespace MeshPP.SystemUtility
open MeshPP.Lib

variable {T : Type} (cfg : MapConfig T)

theorem padded_isDigit (n : Nat) : ∀ c ∈ (padded n).toList, c.isDigit = true := by
  intro c hc
  simp only [padded, String.toList_append, String.toList_ofList, List.mem_append,
    Nat.toString_eq_ofList_toDigits] at hc
  rcases hc with hc | hc
  · rw [(List.mem_replicate.mp hc).2]; rfl
  · exact Nat.isDigit_of_mem_toDigits (by omega) (by omega) hc

/-- A numbered file is none with a suffix that starts with a letter. -/
theorem numbered_ne (name : String) (n : Nat) {c : Char} (hc : c.isDigit = false)
    (rest : List Char) : name ++ "." ++ padded n ≠ name ++ ("." ++ String.ofList (c :: rest)) := by
  intro h
  have hlist := congrArg String.toList h
  simp only [String.toList_append, List.append_assoc, List.append_cancel_left_eq,
    String.toList_ofList] at hlist
  have hdigits := padded_isDigit n
  rw [hlist] at hdigits
  rw [hdigits c (by simp)] at hc
  cases hc

theorem filename_ne (key : String) : cfg.filename key ≠ cfg.indexFile :=
  numbered_ne cfg.name _ (c := 'i') rfl "ndex".toList

/-- The index of a container that holds `g`: every key with the name of its file. -/
def names (g : String → Option T) : String → Option String := fun k =>
  (g k).map fun _ => cfg.filename k

variable {cfg}

theorem names_assign_erase (keys : List String) (g : String → Option T) :
    names cfg (assign keys (fun _ => none) g) = assign keys (fun _ => none) (names cfg g) := by
  funext k
  unfold names assign
  split <;> rfl

theorem names_assign_modify {keys : List String} {packetOf : String → Option T}
    (h : ∀ k ∈ keys, (packetOf k).isSome) (g : String → Option T) :
    names cfg (assign keys packetOf g) =
      assign keys (fun k => some (cfg.filename k)) (names cfg g) := by
  funext k
  unfold names assign
  split
  · next hk =>
    obtain ⟨v, hv⟩ := Option.isSome_iff_exists.mp (h k hk)
    rw [hv]; rfl
  · rfl

/-! ## The index block -/

/-- The loop over the group: the block has been given the names of the new keys,
and the keys are grouped by the names of their files. -/
structure IndexSoFar (cfg : MapConfig T) (indexBl : BlockFileLoader String String)
    (done : List String) (acc : BlockFileLoader String String × UMap String (List String)) :
    Prop where
  put : PutInto (fun k => some (cfg.filename k)) done indexBl acc.1
  groups : Grouped cfg.filename done acc.2
  same : (∀ k ∈ done, k ∈ indexBl.loaded) → acc.1 = indexBl
  modified : (∃ k ∈ done, k ∉ indexBl.loaded) → acc.1.modified = true

theorem groupKey_spec {F : Frame World} {i : Op} {g : String → Option T} {k : String}
    {keys done : List String} {items : List (BlockItem String String)}
    {indexBl : BlockFileLoader String String}
    {acc : BlockFileLoader String String × UMap String (List String)} {w : World}
    (hv : LoadedValues items keys indexBl.values) (hd : Denotes items (names cfg g))
    (h : IndexSoFar cfg indexBl done acc) (hk : k ∈ keys)
    (hold : i = .erase → (g k).isSome) :
    Ends F (MapLoader.groupKey cfg i indexBl.loaded acc k) w
      (fun acc' w' => IndexSoFar cfg indexBl (done ++ [k]) acc' ∧ w' = w) := by
  have hin : k ∈ indexBl.values := (hv.mem_iff k).mpr (.inl hk)
  have hloaded : k ∈ indexBl.loaded ↔ (g k).isSome := by
    rw [mem_loaded hv hd]
    simp [hk, names]
  unfold MapLoader.groupKey
  split
  · next hl =>
    obtain ⟨v, hg⟩ := Option.isSome_iff_exists.mp (hloaded.mp hl)
    obtain ⟨u, hu⟩ := UMap.mem_iff.mp ((h.put.mem k).mpr hin)
    obtain ⟨u0, hu0, rfl⟩ := h.put.lookup k u hu
    have hitem : u0.item.item = some (cfg.filename k) := by
      rw [(hv.item hd hu0).1, names, hg]; rfl
    have hget : (if k ∈ done then some (cfg.filename k) else u0.item.item) =
        some (cfg.filename k) := by split <;> simp [hitem]
    simp only [BlockFileLoader.get, hu, hget]
    refine ends_pure ⟨⟨?_, h.groups.push k, fun hall => ?_, fun hex => ?_⟩, rfl⟩
    · refine ⟨h.put.ptransaction, h.put.mainPath, h.put.markers, h.put.mem, fun j v' hj => ?_⟩
      obtain ⟨v0, hv0, rfl⟩ := h.put.lookup j v' hj
      refine ⟨v0, hv0, ?_⟩
      by_cases he : j = k
      · subst he
        rw [hu0] at hv0
        cases hv0
        simp [hitem]
      · simp [he]
    · exact h.same fun j hj => hall j (by simp [hj])
    · obtain ⟨j, hj, hno⟩ := hex
      rcases List.mem_append.mp hj with hj | hj
      · exact h.modified ⟨j, hj, hno⟩
      · rw [List.mem_singleton.mp hj] at hno
        exact absurd hl hno
  · next hl =>
    cases i with
    | erase => exact absurd (hloaded.mpr (hold rfl)) hl
    | modify =>
      refine (setItem_spec h.put hin).bind fun bl w1 _ h1 => ?_
      obtain ⟨hput, hmod, rfl⟩ := h1
      exact ends_pure ⟨⟨hput, h.groups.push k, fun hall => absurd (hall k (by simp)) hl,
        fun _ => hmod⟩, rfl⟩

theorem groupKeys_spec {F : Frame World} {i : Op} {g : String → Option T} {keys : List String}
    {items : List (BlockItem String String)} {indexBl : BlockFileLoader String String} {w : World}
    (hv : LoadedValues items keys indexBl.values) (hd : Denotes items (names cfg g))
    (hold : i = .erase → ∀ k ∈ keys, (g k).isSome) :
    Ends F (keys.foldlM (MapLoader.groupKey cfg i indexBl.loaded) (indexBl, ∅)) w
      (fun acc w' => IndexSoFar cfg indexBl keys acc ∧ w' = w) := by
  suffices h : ∀ (todo done : List String) acc, done ++ todo = keys →
      IndexSoFar cfg indexBl done acc →
      Ends F (todo.foldlM (MapLoader.groupKey cfg i indexBl.loaded) acc) w
        (fun acc w' => IndexSoFar cfg indexBl keys acc ∧ w' = w) from
    h keys [] (indexBl, ∅) rfl ⟨.refl _ _, .empty _, fun _ => rfl, fun ⟨k, hk, _⟩ => by cases hk⟩
  intro todo
  induction todo with
  | nil =>
    intro done acc he h
    rw [List.append_nil] at he
    exact ends_pure ⟨he ▸ h, rfl⟩
  | cons k todo ih =>
    intro done acc he h
    have hk : k ∈ keys := by rw [← he]; simp
    rw [List.foldlM_cons]
    refine (groupKey_spec hv hd h hk fun hi => hold hi k hk).bind fun acc1 w1 _ h1 => ?_
    obtain ⟨h1, rfl⟩ := h1
    exact ih (done ++ [k]) acc1 (by rw [← he]; simp) h1

/-- A key that has a value is already in the index with its file. -/
theorem assign_names_same {keys : List String} {g : String → Option T}
    (h : ∀ k ∈ keys, (g k).isSome) :
    assign keys (fun k => some (cfg.filename k)) (names cfg g) = names cfg g := by
  funext k
  unfold assign
  split
  · next hk =>
    obtain ⟨v, hg⟩ := Option.isSome_iff_exists.mp (h k hk)
    rw [names, hg]
    rfl
  · rfl

/-- The index block holds the names of the updated function, and the group is
split by file. -/
theorem saveIndex_spec (ord : IterOrder) {i : Op} {packetOf g : String → Option T}
    {keys : List String} {pt : Option BlockTransaction} {w : World}
    (h : (w.disk cfg.indexFile).Rep cfg.indexFormat pt.isSome (names cfg g))
    (ht : ∀ b ∈ pt, b = ⟨cfg.indexFile, false⟩) (hne : keys ≠ [])
    (hadm : i.Admits packetOf g keys) :
    Ends (blockFrame cfg.indexFile) (MapLoader.saveIndex cfg ord i keys pt) w (fun r w' =>
      (∀ b ∈ r.1, b = ⟨cfg.indexFile, false⟩) ∧
      (w'.disk cfg.indexFile).Rep cfg.indexFormat r.1.isSome
        (names cfg (assign keys (i.result packetOf) g)) ∧
      Grouped cfg.filename keys r.2) := by
  obtain ⟨items, hh, hd⟩ := h
  unfold MapLoader.saveIndex
  refine (ends_onBlock (construct_spec hh)).bind fun indexBl w1 _ h1 => ?_
  obtain ⟨hc, hw⟩ := h1
  have hcl : indexBl.purposeClearAll = false := by rw [hc.clear]; rfl
  have hv := hc.values hcl
  have hkeys : ∀ k, k ∈ indexBl.values ↔ k ∈ keys := fun k => by rw [hv.mem_iff]; simp [hne]
  have hms := hc.markers
  rw [← hw, ← hc.ptransaction] at hh hms
  have htr : ∀ b ∈ indexBl.ptransaction, b = ⟨cfg.indexFile, false⟩ := by
    rw [hc.ptransaction]; exact ht
  have hold : i = .erase → ∀ k ∈ keys, (g k).isSome := by rintro rfl; exact hadm
  refine (groupKeys_spec hv hd hold).bind fun acc w2 _ h2 => ?_
  obtain ⟨hacc, rfl⟩ := h2
  obtain ⟨bl0, groups⟩ := acc
  have hput : PutInto (fun k => some (cfg.filename k)) keys indexBl bl0 := hacc.put
  have hsame0 : (∀ k ∈ keys, k ∈ indexBl.loaded) → bl0 = indexBl := hacc.same
  have hloaded : ∀ k ∈ keys, k ∈ indexBl.loaded ↔ (g k).isSome := fun k hk => by
    rw [mem_loaded hv hd]
    simp [hk, names]
  cases i with
  | erase =>
    rw [hsame0 fun k hk => (hloaded k hk).mpr (hadm k hk)]
    refine (erase_spec hc.mainPath hh hms fun _ => hv.indexed hh.stores.nodup).bind
      fun bl w3 _ h3 => ends_pure ?_
    obtain ⟨htaken, hpend, -⟩ := h3
    rw [hcl] at hpend
    rw [htaken, openTransaction_eq hc.mainPath htr]
    refine ⟨fun b hb => (Option.some.inj hb).symm, ⟨_, hpend, ?_⟩, hacc.groups⟩
    rw [Op.result_erase, names_assign_erase]
    exact hd.erased hkeys
  | modify =>
    by_cases hall : ∀ k ∈ keys, k ∈ indexBl.loaded
    · rw [hsame0 hall]
      refine (save_unmodified ord hc.modified).bind fun bl w3 _ h3 => ends_pure ?_
      obtain ⟨rfl, rfl⟩ := h3
      refine ⟨htr, ⟨items, hh, ?_⟩, hacc.groups⟩
      rw [Op.result_modify, names_assign_modify hadm]
      rw [assign_names_same fun k hk => (hloaded k hk).mp (hall k hk)]
      exact hd
    · have hex : ∃ k ∈ keys, k ∉ indexBl.loaded := by
        simpa only [not_forall, exists_prop] using hall
      have hind := hput.indexed (hv.indexed hh.stores.nodup)
      have hkeys' : ∀ k, k ∈ bl0.values ↔ k ∈ keys := fun k => (hput.mem k).trans (hkeys k)
      have hentries : bl0.values.entries ≠ [] := UMap.entries_ne_nil hne hkeys'
      refine (save_spec ord (hput.mainPath.trans hc.mainPath) (hacc.modified hex)
        (by rw [hput.ptransaction]; exact hh)
        (by rw [hput.ptransaction, hput.markers]; exact hms) hind hentries (written _)).bind
        fun bl w3 _ h3 => ends_pure ?_
      obtain ⟨htaken, hpend, -⟩ := h3
      rw [htaken, openTransaction_eq (hput.mainPath.trans hc.mainPath)
        (by rw [hput.ptransaction]; exact htr)]
      refine ⟨fun b hb => (Option.some.inj hb).symm, ⟨_, hpend, ?_⟩, hacc.groups⟩
      rw [Op.result_modify, names_assign_modify hadm]
      refine hd.replaced hind (fun e => ord.mem) hkeys' fun k v hv => ?_
      obtain ⟨v0, -, rfl⟩ := hput.lookup k v hv
      have hk : k ∈ keys := (hkeys' k).mp (UMap.mem_iff.mpr ⟨_, hv⟩)
      exact ⟨by simp [hk], rfl⟩

/-! ## The index in memory -/

theorem lookup_eraseKeys (ks : List String) (index : UMap String String) (k : String) :
    (ks.foldl (fun index key => index.erase key) index).lookup k =
      if k ∈ ks then none else index.lookup k := by
  induction ks generalizing index with
  | nil => simp
  | cons a ks ih =>
    rw [List.foldl_cons, ih, UMap.lookup_erase]
    by_cases hk : k ∈ ks <;> by_cases ha : k = a <;> simp [hk, ha]

theorem lookup_insertKeys {ks : List String} {index : UMap String String} {f : String}
    (h : ∀ k ∈ ks, ∀ v, index.lookup k = some v → v = f) (k : String) :
    (ks.foldl (fun index key => if key ∈ index then index else index.insert key f) index).lookup k =
      if k ∈ ks then some f else index.lookup k := by
  induction ks generalizing index with
  | nil => simp
  | cons a ks ih =>
    -- an entry that is there already names the same file
    have ha : ∀ j, (if a ∈ index then index else index.insert a f).lookup j =
        if j = a then some f else index.lookup j := by
      intro j
      split
      · next hin =>
        split
        · next he =>
          obtain ⟨v, hv⟩ := UMap.mem_iff.mp hin
          rw [he, hv, h a (by simp) v hv]
        · rfl
      · exact UMap.lookup_insert index a f j
    rw [List.foldl_cons, ih, ha]
    · by_cases hk : k ∈ ks <;> by_cases hka : k = a <;> simp [hk, hka]
    · intro j hj v hv
      rw [ha] at hv
      split at hv
      · exact (Option.some.inj hv).symm
      · exact h j (by simp [hj]) v hv

/-- What the loop over the files of a group leaves in the container. -/
structure Noted (cfg : MapConfig T) (i : Op) (es : List (Sigma fun _ : String => List String))
    (a b : MapLoader T) : Prop where
  core : Core.Entered cfg.indexFile (es.map Sigma.fst) a.toCore b.toCore
  index : ∀ k, b.index.lookup k = if k ∈ es.flatMap Sigma.snd then
    i.result (fun k => some (cfg.filename k)) k else a.index.lookup k
  indexToRollback : b.indexToRollback = a.indexToRollback
  keysWithOverlay : b.keysWithOverlay = a.keysWithOverlay

theorem note_spec {i : Op} {a : MapLoader T} {e : Sigma fun _ : String => List String}
    (hname : ∀ k ∈ e.2, cfg.filename k = e.1) (hf : e.1 ≠ cfg.indexFile)
    (hidx : ∀ k v, a.index.lookup k = some v → v = cfg.filename k) :
    Noted cfg i [e] a (MapLoader.note i a e) := by
  refine ⟨.single a.toCore hf, fun k => ?_, rfl, rfl⟩
  rw [List.flatMap_singleton]
  cases i with
  | erase => exact lookup_eraseKeys e.2 a.index k
  | modify =>
    simp only [MapLoader.note]
    rw [lookup_insertKeys fun k hk v hv => (hidx k v hv).trans (hname k hk)]
    split
    · next hk => rw [← hname k hk]; rfl
    · rfl

theorem Noted.trans {i : Op} {es es' : List (Sigma fun _ : String => List String)}
    {a b c : MapLoader T} (h : Noted cfg i es a b) (h' : Noted cfg i es' b c) :
    Noted cfg i (es ++ es') a c where
  core := by rw [List.map_append]; exact h.core.trans h'.core
  index k := by
    rw [h'.index, h.index, List.flatMap_append]
    by_cases h1 : k ∈ es.flatMap Sigma.snd <;> by_cases h2 : k ∈ es'.flatMap Sigma.snd <;>
      simp [h1, h2, -List.mem_flatMap]
  indexToRollback := h'.indexToRollback.trans h.indexToRollback
  keysWithOverlay := h'.keysWithOverlay.trans h.keysWithOverlay

theorem notes_spec {i : Op} {es : List (Sigma fun _ : String => List String)}
    (hname : ∀ e ∈ es, ∀ k ∈ e.2, cfg.filename k = e.1) (hf : ∀ e ∈ es, e.1 ≠ cfg.indexFile) :
    ∀ {a : MapLoader T}, (∀ k v, a.index.lookup k = some v → v = cfg.filename k) →
      Noted cfg i es a (es.foldl (MapLoader.note i) a) := by
  induction es with
  | nil => exact fun _ => ⟨.nil _, fun _ => by simp, rfl, rfl⟩
  | cons e es ih =>
    intro a hidx
    have h1 := note_spec (i := i) (hname e (by simp)) (hf e (by simp)) hidx
    refine h1.trans (ih (fun e he => hname e (by simp [he])) (fun e he => hf e (by simp [he]))
      fun k v hv => ?_)
    rw [h1.index] at hv
    split at hv
    · cases i with
      | erase => cases hv
      | modify => exact (Option.some.inj hv).symm
    · exact hidx k v hv

/-! ## One group -/

/-- What every part of a save keeps of a container. -/
def mapFrame (cfg : MapConfig T) : Frame (MapState T) where
  le s t := t.world.faults <:+ s.world.faults ∧
    (∀ f, (s.world.disk f).SameCommitted (t.world.disk f)) ∧
    t.self.indexToRollback = s.self.indexToRollback ∧
    (s.self.transaction.Ok cfg.indexFile → t.self.transaction.Ok cfg.indexFile) ∧
    (s.self.ptransaction.isSome → t.self.ptransaction.isSome)
  refl _ := ⟨List.suffix_refl _, fun _ => .refl _, rfl, id, id⟩
  trans h h' := ⟨h'.1.trans h.1, fun f => (h.2.1 f).trans (h'.2.1 f), h'.2.2.1.trans h.2.2.1,
    h'.2.2.2.1 ∘ h.2.2.2.1, h'.2.2.2.2 ∘ h.2.2.2.2⟩
  excused s := s.world.Faulty
  excused_of_le h := fun ⟨x, hx⟩ => ⟨x, h.1.subset hx⟩

theorem onSaver_spec {α : Type} {m : SaverM α} {s : MapState T} {Q : α → Saver → Prop}
    (h : Ends (saveFrame cfg.indexFile) m ⟨s.world, s.self.transaction⟩ Q) :
    Ends (mapFrame cfg) (MapLoader.onSaver m) s (fun a s' => ∃ t, Q a t ∧
      s' = ⟨t.world, { s.self with ptransaction := some t.transaction }⟩) := by
  refine (h.zoom (F := mapFrame cfg) (fun t ht => ?_) id).mono fun _ _ _ hs => ?_
  · exact ⟨ht.1, ht.2.1, rfl, ht.2.2, fun _ => rfl⟩
  · obtain ⟨t, rfl, -, hq⟩ := hs
    exact ⟨t, hq, rfl⟩

/-- Blocks, index block and index in memory all hold `g`. -/
structure Stored (cfg : MapConfig T) (g : String → Option T) (s : MapState T) : Prop where
  blocks : Saved cfg.blockFormat cfg.filename cfg.indexFile s.world.disk s.self.transaction g
  indexBlock : (s.world.disk cfg.indexFile).Rep cfg.indexFormat s.self.transaction.head.isSome
    (names cfg g)
  index : ∀ k, s.self.index.lookup k = names cfg g k
  ok : s.self.transaction.Ok cfg.indexFile

/-- What the group and the container are when the group has gone through the index block
and `c` is the container that has noted it. -/
structure Handed (cfg : MapConfig T) (ord : IterOrder) (i : Op) (g : String → Option T)
    (keys : List String) (a : MapLoader T) (groups : UMap String (List String)) (w : World)
    (c : MapLoader T) : Prop where
  grouped : Grouped cfg.filename keys groups
  indexBlock : (w.disk cfg.indexFile).Rep cfg.indexFormat c.transaction.head.isSome
    (names cfg (assign keys (i.result a.overlay.packetOf) g))
  blocks : Saved cfg.blockFormat cfg.filename cfg.indexFile w.disk c.transaction g
  ok : c.transaction.Ok cfg.indexFile
  entered : ∀ k ∈ keys, cfg.filename k ∈ c.transaction.overlay
  overlay : c.overlay = a.overlay
  keysWithOverlay : c.keysWithOverlay = a.keysWithOverlay
  index : ∀ k, c.index.lookup k = if k ∈ (ord.order groups.entries).flatMap Sigma.snd then
    i.result (fun k => some (cfg.filename k)) k else a.index.lookup k

theorem handed_spec (ord : IterOrder) {i : Op} {g : String → Option T} {keys : List String}
    {s : MapState T} (h : Stored cfg g s) (hne : keys ≠ [])
    (hadm : i.Admits s.self.overlay.packetOf g keys) :
    Ends (mapFrame cfg) (MapLoader.onSaver (onHead (MapLoader.saveIndex cfg ord i keys))) s
      (fun groups s1 => let self := (ord.order groups.entries).foldl (MapLoader.note i) s1.self
        Handed cfg ord i g keys s.self groups s1.world self ∧
          (mapFrame cfg).le s1 { s1 with self }) := by
  refine (onSaver_spec (onHead_spec (saveIndex_spec ord h.indexBlock h.ok.head hne hadm)
    fun _ _ hr => hr.1)).mono fun groups s1 _ h1 => ?_
  obtain ⟨t1, ⟨taken, ⟨htaken, hindex, hgroups⟩, htr1, hdisk1⟩, rfl⟩ := h1
  -- every file of the group gets an entry
  have hfiles : ∀ e ∈ ord.order groups.entries, e.1 ≠ cfg.indexFile := fun e he => by
    obtain ⟨k, -, hk⟩ := hgroups.exists_name he
    exact hk ▸ filename_ne cfg k
  have hnoted := notes_spec (i := i) (a := { s.self with ptransaction := some t1.transaction })
    (fun e he k => hgroups.name_eq he) hfiles (fun k v hv => by
      have hv' : s.self.index.lookup k = some v := hv
      rw [h.index, names, Option.map_eq_some_iff] at hv'
      exact hv'.choose_spec.2.symm)
  refine ⟨?_, List.suffix_refl _, fun _ => .refl _, hnoted.indexToRollback, hnoted.core.ok,
    fun _ => by rw [hnoted.core.isOpen]; rfl⟩
  dsimp only
  generalize (ord.order groups.entries).foldl (MapLoader.note i)
    { s.self with ptransaction := some t1.transaction } = self at hnoted
  have hhead : self.transaction.head = taken := by
    rw [hnoted.core.head]
    show t1.transaction.head = _
    rw [htr1]
  refine ⟨hgroups, ?_, fun f hf => ?_, hnoted.core.ok ?_, fun k hk =>
    hnoted.core.entered rfl _ (hgroups.name_mem ord hk), hnoted.core.overlay,
    hnoted.keysWithOverlay, hnoted.index⟩
  · rw [hhead]
    exact hindex
  · have hentry : self.transaction.entry cfg.indexFile f =
        s.self.transaction.entry cfg.indexFile f := by
      rw [hnoted.core.entry]
      show t1.transaction.entry _ _ = _
      rw [htr1]
      simp [ClassTransaction.entry, hf]
    rw [hentry, hdisk1 f hf]
    exact h.blocks f hf
  · show t1.transaction.Ok _
    rw [htr1]
    exact ⟨htaken, h.ok.entries, h.ok.data⟩

theorem saveGroup_spec (ord : IterOrder) {i : Op} {g : String → Option T} {keys : List String}
    {s : MapState T} (h : Stored cfg g s) (ho : s.self.ptransaction.isSome) (hn : keys.Nodup)
    (hadm : i.Admits s.self.overlay.packetOf g keys) :
    Ends (mapFrame cfg) (MapLoader.saveGroup cfg ord i keys) s (fun _ s' =>
      Stored cfg (assign keys (i.result s.self.overlay.packetOf) g) s' ∧
      s'.self.ptransaction.isSome ∧ s'.self.overlay = s.self.overlay ∧
      s'.self.keysWithOverlay = s.self.keysWithOverlay) := by
  unfold MapLoader.saveGroup
  split
  · next hnil =>
    have hnil' : keys = [] := by simpa using hnil
    rw [hnil', assign_nil]
    exact ends_pure ⟨h, ho, rfl, rfl⟩
  · next hnil =>
    have hne : keys ≠ [] := by simpa using hnil
    refine (handed_spec ord h hne hadm).bind fun groups s1 _ h1 => ?_
    obtain ⟨hhanded, hle⟩ := h1
    refine Ends.bind (ends_modify (F := mapFrame cfg) (Q := fun _ s' => s' = ⟨s1.world,
      (ord.order groups.entries).foldl (MapLoader.note i) s1.self⟩) hle rfl) fun _ s2 _ h2 => ?_
    subst h2
    generalize (ord.order groups.entries).foldl (MapLoader.note i) s1.self = self2 at hhanded
    refine (ends_get (Q := fun a t => a = _ ∧ t = _) ⟨rfl, rfl⟩).bind fun a t _ ht => ?_
    obtain ⟨rfl, rfl⟩ := ht
    simp only [hhanded.overlay]
    refine (onSaver_spec (ends_onSaver (fileSaverHelper_spec hhanded.blocks hhanded.ok
      hhanded.grouped hn hhanded.entered hadm))).mono fun _ s3 _ h3 => ?_
    obtain ⟨t3, ⟨⟨hblocks3, hok3⟩, hdisk3, hhead3⟩, rfl⟩ := h3
    refine ⟨⟨hblocks3, ?_, fun k => ?_, hok3⟩, rfl, hhanded.overlay, hhanded.keysWithOverlay⟩
    · show (t3.world.disk cfg.indexFile).Rep cfg.indexFormat t3.transaction.head.isSome _
      rw [hdisk3, hhead3]
      exact hhanded.indexBlock
    · show self2.index.lookup k = _
      rw [hhanded.index]
      simp only [hhanded.grouped.mem_flatMap ord, names, assign]
      split
      · next hk =>
        cases i with
        | erase => rfl
        | modify =>
          obtain ⟨v, hv⟩ := Option.isSome_iff_exists.mp (hadm k hk)
          simp only [Op.result, hv, Option.map_some]
      · exact h.index k

end MeshPP.SystemUtility
