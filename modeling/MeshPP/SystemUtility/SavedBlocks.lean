import MeshPP.SystemUtility.BlockView

/-! # The block files of a container

A container spreads a partial function over block files: block `f` holds what the
function has at the keys whose file name is `f`, and a file that is no key's holds
nothing. `Saved` says this of the files
an open transaction would commit, `Committed` of the committed ones. The work of
`file_saver_helper` moves the saved function, `commit` and `rollback` of the
complex transaction move the committed and the saved one. -/

namespace MeshPP.SystemUtility
open MeshPP.Lib

variable {K T : Type} (fmt : BlockFormat K T) (name : K → String)

/-- The part of `g` that lies in block `f`. -/
def restrict (g : K → Option T) (f : String) : K → Option T := fun k =>
  if name k = f then g k else none

namespace ClassTransaction

/-- The transaction of one file, the head file included. -/
def entry (t : ClassTransaction) (headFile f : String) : Option BlockTransaction :=
  if f = headFile then t.head else (t.overlay.lookup f).join

/-- Every transaction is one of the file it is kept for. -/
structure Ok (t : ClassTransaction) (headFile : String) : Prop where
  head : ∀ b ∈ t.head, b = ⟨headFile, false⟩
  entries : ∀ f b, t.overlay.lookup f = some (some b) → b = ⟨f, false⟩
  data : headFile ∉ t.overlay

theorem ok_empty (headFile : String) : empty.Ok headFile where
  head b hb := by cases hb
  entries f b hb := by simp [empty] at hb
  data := by simp [empty]

theorem Ok.enter {t : ClassTransaction} {headFile f : String} (h : t.Ok headFile)
    (hf : f ≠ headFile) : (t.enter f).Ok headFile where
  head := h.head
  entries q b hb := by
    unfold ClassTransaction.enter at hb
    split at hb
    · exact h.entries q b hb
    · simp only [UMap.lookup_insert] at hb
      split at hb
      · cases hb
      · exact h.entries q b hb
  data := by
    unfold ClassTransaction.enter
    split
    · exact h.data
    · simp only [AList.mem_insert, not_or]
      exact ⟨Ne.symm hf, h.data⟩

theorem mem_enter (t : ClassTransaction) (f q : String) :
    q ∈ (t.enter f).overlay ↔ q = f ∨ q ∈ t.overlay := by
  unfold enter
  split
  · next h => exact ⟨.inr, fun hq => hq.elim (fun he => he ▸ h) id⟩
  · simp

theorem entry_enter (t : ClassTransaction) (headFile f q : String) :
    (t.enter f).entry headFile q = t.entry headFile q := by
  unfold entry enter
  split
  · rfl
  · split
    · rfl
    · next hf =>
      simp only [UMap.lookup_insert]
      split
      · next he => rw [he, AList.lookup_eq_none.mpr hf]; rfl
      · rfl

theorem Ok.insert {t : ClassTransaction} {headFile f : String} (h : t.Ok headFile)
    (hf : f ∈ t.overlay) :
    ({ t with overlay := t.overlay.insert f (some ⟨f, false⟩) } :
      ClassTransaction).Ok headFile where
  head := h.head
  entries q b hb := by
    simp only [UMap.lookup_insert] at hb
    split at hb
    · next he => cases hb; rw [he]
    · exact h.entries q b hb
  data := by
    simp only [AList.mem_insert, not_or]
    exact ⟨fun he => h.data (he ▸ hf), h.data⟩

end ClassTransaction

/-- The saved view of the blocks: `g`, spread over pending and committed files. -/
def Saved (headFile : String) (d : Disk) (t : ClassTransaction) (g : K → Option T) : Prop :=
  ∀ f, f ≠ headFile → (d f).Rep fmt (t.entry headFile f).isSome (restrict name g f)

def Committed (headFile : String) (d : Disk) (c : K → Option T) : Prop :=
  ∀ f, f ≠ headFile → (d f).Rep fmt false (restrict name c f)

/-- What the work on data files keeps: committed files, the head file and its
transaction, and that transactions are kept for the files they are of. -/
def saverFrame (headFile : String) : Frame Saver where
  le s t := t.world.faults <:+ s.world.faults ∧
    (∀ f, (s.world.disk f).SameCommitted (t.world.disk f)) ∧
    t.world.disk headFile = s.world.disk headFile ∧ t.transaction.head = s.transaction.head ∧
    (s.transaction.Ok headFile → t.transaction.Ok headFile)
  refl _ := ⟨List.suffix_refl _, fun _ => .refl _, rfl, rfl, id⟩
  trans h h' := ⟨h'.1.trans h.1, fun f => (h.2.1 f).trans (h'.2.1 f), h'.2.2.1.trans h.2.2.1,
    h'.2.2.2.1.trans h.2.2.2.1, h'.2.2.2.2 ∘ h.2.2.2.2⟩
  excused s := s.world.Faulty
  excused_of_le h := fun ⟨x, hx⟩ => ⟨x, h.1.subset hx⟩

/-- What every part of a save keeps: committed files, and that transactions are
kept for the files they are of. -/
def saveFrame (headFile : String) : Frame Saver where
  le s t := t.world.faults <:+ s.world.faults ∧
    (∀ f, (s.world.disk f).SameCommitted (t.world.disk f)) ∧
    (s.transaction.Ok headFile → t.transaction.Ok headFile)
  refl _ := ⟨List.suffix_refl _, fun _ => .refl _, id⟩
  trans h h' := ⟨h'.1.trans h.1, fun f => (h.2.1 f).trans (h'.2.1 f), h'.2.2 ∘ h.2.2⟩
  excused s := s.world.Faulty
  excused_of_le h := fun ⟨x, hx⟩ => ⟨x, h.1.subset hx⟩

theorem ends_onSaver {α ε : Type} {headFile : String} {m : EStateM ε Saver α} {s : Saver}
    {Q : α → Saver → Prop} (h : Ends (saverFrame headFile) m s Q) :
    Ends (saveFrame headFile) m s fun a t => Q a t ∧
      t.world.disk headFile = s.world.disk headFile ∧ t.transaction.head = s.transaction.head :=
  (h.mono (R := fun a t => Q a t ∧ t.world.disk headFile = s.world.disk headFile ∧
      t.transaction.head = s.transaction.head) fun _ _ hle hq =>
        ⟨hq, hle.2.2.1, hle.2.2.2.1⟩).weaken
    (fun _ hle => ⟨hle.1, hle.2.1, hle.2.2.2.2⟩) id

/-- The work on the head file. -/
theorem onHead_spec {α : Type} {headFile : String}
    {m : Option BlockTransaction → FileM (Option BlockTransaction × α)}
    {s : Saver} {Q : Option BlockTransaction × α → World → Prop}
    (h : Ends (blockFrame headFile) (m s.transaction.head) s.world Q)
    (hq : ∀ r w, Q r w → ∀ b ∈ r.1, b = ⟨headFile, false⟩) :
    Ends (saveFrame headFile) (onHead m) s (fun a s' => ∃ taken, Q (taken, a) s'.world ∧
      s'.transaction = { s.transaction with head := taken } ∧
      ∀ f, f ≠ headFile → s'.world.disk f = s.world.disk f) := by
  unfold onHead
  refine (ends_get (Q := fun a t => a = s ∧ t = s) ⟨rfl, rfl⟩).bind fun a t _ ht => ?_
  obtain ⟨rfl, rfl⟩ := ht
  refine Ends.bind (h.zoom (F := saveFrame headFile) (fun w hw => ⟨hw.1, fun q => ?_, id⟩) id)
    fun r s1 _ h1 => ?_
  · by_cases hq : q = headFile
    · rw [hq]; exact hw.2.2
    · rw [hw.2.1 q hq]; exact .refl _
  · obtain ⟨w, rfl, hw, hr⟩ := h1
    have hle : (saveFrame headFile).le { t with world := w }
        { world := w, transaction := { t.transaction with head := r.1 } } :=
      ⟨List.suffix_refl _, fun _ => .refl _, fun hok => ⟨hq r w hr, hok.entries, hok.data⟩⟩
    exact (ends_modify (Q := fun _ s' => s' = { world := w, transaction :=
      { t.transaction with head := r.1 } }) hle rfl).bind fun _ s2 _ h2 =>
        ends_pure (by subst h2; exact ⟨r.1, hr, rfl, hw.2.1⟩)

variable [DecidableEq K] {fmt} {name}

theorem restrict_assign {keys : List K} {file : String} (hk : ∀ k ∈ keys, name k = file)
    (h g : K → Option T) (f : String) :
    restrict name (assign keys h g) f =
      if f = file then assign keys h (restrict name g f) else restrict name g f := by
  funext k
  unfold restrict assign
  by_cases hf : f = file
  · subst hf
    by_cases hin : k ∈ keys
    · simp [hin, hk k hin]
    · simp [hin]
  · by_cases hin : k ∈ keys
    · have hne : name k ≠ f := fun he => hf (he.symm.trans (hk k hin))
      simp [hf, hne]
    · simp [hf, hin]

theorem onWorld_spec {α : Type} {headFile f : String} {m : FileM α} {s : Saver}
    {Q : α → World → Prop} (hf : f ≠ headFile) (h : Ends (blockFrame f) m s.world Q) :
    Ends (saverFrame headFile) (onWorld m) s (fun a s' =>
      s'.transaction = s.transaction ∧ (∀ q, q ≠ f → s'.world.disk q = s.world.disk q) ∧
        Q a s'.world) := by
  refine (h.zoom (F := saverFrame headFile) (fun w hw => ⟨hw.1, fun q => ?_, ?_, rfl, id⟩)
    id).mono fun a s' _ hs' => ?_
  · by_cases hq : q = f
    · rw [hq]; exact hw.2.2
    · rw [hw.2.1 q hq]; exact .refl _
  · exact hw.2.1 headFile (Ne.symm hf)
  · obtain ⟨w, rfl, hw, hq⟩ := hs'
    exact ⟨rfl, hw.2.1, hq⟩

theorem processFile_spec [fmt.Lawful] {headFile : String} {ord : IterOrder}
    {packetOf g : K → Option T} {i : Op} {file : String} {keys : List K} {s : Saver}
    (hs : Saved fmt name headFile s.world.disk s.transaction g)
    (hok : s.transaction.Ok headFile) (hname : ∀ k ∈ keys, name k = file) (hne : keys ≠ [])
    (hn : keys.Nodup) (hin : file ∈ s.transaction.overlay)
    (hadm : i.Admits packetOf g keys) :
    Ends (saverFrame headFile) (processFile fmt ord packetOf i ⟨file, keys⟩) s (fun _ s' =>
      Saved fmt name headFile s'.world.disk s'.transaction (assign keys (i.result packetOf) g) ∧
      s'.transaction.Ok headFile ∧ ∀ f ∈ s.transaction.overlay, f ∈ s'.transaction.overlay) := by
  have hfile : file ≠ headFile := fun he => hok.data (he ▸ hin)
  obtain ⟨pt, hpt⟩ := UMap.mem_iff.mp hin
  have hentry : s.transaction.entry headFile file = pt := by
    simp [ClassTransaction.entry, hfile, hpt]
  have hrep := hs file hfile
  rw [hentry] at hrep
  have hadm' : i.Admits packetOf (restrict name g file) keys := by
    cases i with
    | erase => exact fun k hk => by simp only [restrict, hname k hk, if_true]; exact hadm k hk
    | modify => exact hadm
  unfold processFile
  refine (ends_get (Q := fun a t => a = s ∧ t = s) ⟨rfl, rfl⟩).bind fun a t _ ht => ?_
  obtain ⟨rfl, rfl⟩ := ht
  simp only [hpt]
  refine (onWorld_spec hfile (processBlock_spec ord hrep hn hne hadm' fun b hb =>
    hok.entries file b (by rw [hpt]; exact congrArg some hb))).bind fun taken s1 _ h1 => ?_
  obtain ⟨htr, hother, rfl, hrep'⟩ := h1
  refine ends_modify ⟨List.suffix_refl _, fun _ => .refl _, rfl, rfl, fun h => ?_⟩
    ⟨fun f hf => ?_, ?_, fun f hf => ?_⟩
  · exact h.insert (by rw [htr]; exact hin)
  · rw [restrict_assign hname]
    by_cases hk : f = file
    · rw [hk, if_pos rfl]
      simpa [ClassTransaction.entry, hfile] using hrep'
    · rw [if_neg hk]
      have := hs f hf
      rw [← hother _ hk] at this
      simpa [ClassTransaction.entry, UMap.lookup_insert, hk, htr] using this
  · rw [htr]; exact hok.insert hin
  · rw [htr]
    exact (AList.mem_insert _).mpr (.inr hf)

omit [DecidableEq K] in
theorem Op.Admits.frame {i : Op} {packetOf g g' : K → Option T} {keys : List K}
    (h : i.Admits packetOf g keys) (hg : ∀ k ∈ keys, g' k = g k) : i.Admits packetOf g' keys := by
  cases i with
  | erase => exact fun k hk => by rw [hg k hk]; exact h k hk
  | modify => exact h

/-- A group of keys that can be processed: its keys share the file, which has an
entry in the transaction. -/
structure Ready (name : K → String) (i : Op) (packetOf g : K → Option T) (t : ClassTransaction)
    (e : Sigma fun _ : String => List K) : Prop where
  ne_nil : e.2 ≠ []
  nodup : e.2.Nodup
  name : ∀ k ∈ e.2, name k = e.1
  entered : e.1 ∈ t.overlay
  admits : i.Admits packetOf g e.2

/-- A turn leaves the groups of other files ready. -/
theorem Ready.after {i : Op} {packetOf g : K → Option T} {t t' : ClassTransaction}
    {e e' : Sigma fun _ : String => List K} (h : Ready name i packetOf g t e')
    (hname : ∀ k ∈ e.2, name k = e.1) (hne : e.1 ≠ e'.1) (ht : e'.1 ∈ t.overlay → e'.1 ∈ t'.overlay)
    (values : K → Option T) : Ready name i packetOf (assign e.2 values g) t' e' := by
  refine ⟨h.ne_nil, h.nodup, h.name, ht h.entered, h.admits.frame fun k hk => ?_⟩
  have hout : k ∉ e.2 := fun hin => hne ((hname k hin).symm.trans (h.name k hk))
  rw [assign, if_neg hout]

omit [DecidableEq K] in
/-- The groups of keys that are admitted and whose files are entered are ready. -/
theorem ready_of_grouped {ord : IterOrder} {packetOf g : K → Option T} {i : Op} {keys : List K}
    {groups : UMap String (List K)} {t : ClassTransaction} (hg : Grouped name keys groups)
    (hn : keys.Nodup) (hin : ∀ k ∈ keys, name k ∈ t.overlay) (hadm : i.Admits packetOf g keys)
    {e : Sigma fun _ : String => List K} (he : e ∈ ord.order groups.entries) :
    Ready name i packetOf g t e := by
  obtain ⟨hne, hmem⟩ := hg.entry he
  have hsub : ∀ k ∈ e.2, k ∈ keys := fun k hk => ((hmem k).mp hk).1
  refine ⟨hne, hg.nodup hn (UMap.mem_entries.mp (ord.mem.mp he)),
    fun k hk => ((hmem k).mp hk).2, ?_, ?_⟩
  · obtain ⟨k, hk, hname⟩ := hg.exists_name he
    exact hname ▸ hin k hk
  · cases i with
    | erase => exact fun k hk => hadm k (hsub k hk)
    | modify => exact fun k hk => hadm k (hsub k hk)

/-- The loop: each turn leaves the later groups ready, for they are of other files. -/
theorem processFiles_spec [fmt.Lawful] {headFile : String} {ord : IterOrder}
    {packetOf : K → Option T} {i : Op} {es : List (Sigma fun _ : String => List K)}
    (hkeys : (es.map Sigma.fst).Nodup) :
    ∀ {g : K → Option T} {s : Saver}, Saved fmt name headFile s.world.disk s.transaction g →
      s.transaction.Ok headFile → (∀ e ∈ es, Ready name i packetOf g s.transaction e) →
      Ends (saverFrame headFile) (es.foldlM (fun _ e => processFile fmt ord packetOf i e) ⟨⟩) s
        (fun _ s' => Saved fmt name headFile s'.world.disk s'.transaction
          (assign (es.flatMap Sigma.snd) (i.result packetOf) g) ∧ s'.transaction.Ok headFile) := by
  induction es with
  | nil =>
    intro g s hs hok _
    have hnil : assign [] (i.result packetOf) g = g := by funext k; simp [assign]
    exact ends_pure ⟨by simpa only [List.flatMap_nil, hnil] using hs, hok⟩
  | cons e es ih =>
    intro g s hs hok hready
    obtain ⟨hfirst, hrest⟩ := List.nodup_cons.mp hkeys
    have he := hready e (by simp)
    rw [List.foldlM_cons]
    refine (processFile_spec hs hok he.name he.ne_nil he.nodup he.entered he.admits).bind
      fun _ s1 _ h1 => ?_
    obtain ⟨hs1, hok1, hsub⟩ := h1
    rw [List.flatMap_cons, ← assign_append]
    exact ih hrest hs1 hok1 fun e' he' => (hready e' (by simp [he'])).after he.name
      (fun heq => hfirst (List.mem_map.mpr ⟨e', he', heq.symm⟩)) (hsub _) _

/-- One pass over the groups gives every key of the groups its new value. -/
theorem fileSaverHelper_spec [fmt.Lawful] {headFile : String} {ord : IterOrder}
    {packetOf g : K → Option T} {i : Op} {keys : List K} {groups : UMap String (List K)} {s : Saver}
    (hs : Saved fmt name headFile s.world.disk s.transaction g) (hok : s.transaction.Ok headFile)
    (hg : Grouped name keys groups) (hn : keys.Nodup)
    (hin : ∀ k ∈ keys, name k ∈ s.transaction.overlay) (hadm : i.Admits packetOf g keys) :
    Ends (saverFrame headFile) (fileSaverHelper fmt ord packetOf i groups) s (fun _ s' =>
      Saved fmt name headFile s'.world.disk s'.transaction (assign keys (i.result packetOf) g) ∧
      s'.transaction.Ok headFile) := by
  have hall : assign ((ord.order groups.entries).flatMap Sigma.snd) (i.result packetOf) g =
      assign keys (i.result packetOf) g := by
    funext k
    unfold assign
    simp only [hg.mem_flatMap ord]
  rw [← hall]
  exact processFiles_spec (UMap.keys_nodup ord groups) hs hok
    fun e he => ready_of_grouped hg hn hin hadm he

/-! ## Commit and rollback -/

/-- Where every entry acts on the file it is kept for, the loop over the entries
acts once on each pending file. -/
theorem foldl_entries {u : BlockTransaction → Disk → Disk} {v : Files → Files}
    (hu : ∀ f d, u ⟨f, false⟩ d = Function.update d f (v (d f)))
    {es : List (Sigma fun _ : String => Option BlockTransaction)}
    (hok : ∀ e ∈ es, ∀ b ∈ e.2, b = ⟨e.1, false⟩) (hn : (es.map Sigma.fst).Nodup) (d : Disk)
    (f : String) :
    (es.foldl (fun d e => e.2.elim d fun t => u t d) d) f =
      if es.any (fun e => decide (e.1 = f) && e.2.isSome) then v (d f) else d f := by
  induction es generalizing d with
  | nil => rfl
  | cons e es ih =>
    obtain ⟨hfirst, hrest⟩ := List.nodup_cons.mp hn
    rw [List.foldl_cons, ih (fun e he => hok e (by simp [he])) hrest, List.any_cons]
    obtain ⟨q, b⟩ := e
    cases b with
    | none => rw [Option.elim_none, Option.isSome_none, Bool.and_false, Bool.false_or]
    | some b =>
      have hb : b = ⟨q, false⟩ := hok ⟨q, some b⟩ (by simp) b rfl
      rw [Option.elim_some, hb, hu]
      by_cases hf : q = f
      · subst hf
        have hno : es.any (fun e => decide (e.1 = q) && e.2.isSome) = false := by
          rw [List.any_eq_false]
          intro e he hc
          simp only [Bool.and_eq_true, decide_eq_true_eq] at hc
          exact hfirst (List.mem_map.mpr ⟨e, he, hc.1⟩)
        simp [hno]
      · rw [Function.update_of_ne (Ne.symm hf), decide_eq_false hf, Bool.false_and, Bool.false_or]

theorem ClassTransaction.Ok.foldl_apply {t : ClassTransaction} {headFile : String}
    (h : t.Ok headFile) {u : BlockTransaction → Disk → Disk} {v : Files → Files}
    (hu : ∀ f d, u ⟨f, false⟩ d = Function.update d f (v (d f))) (d : Disk) (f : String) :
    (t.head.elim (t.overlay.entries.foldl (fun d e => e.2.elim d fun t => u t d) d)
      fun b => u b (t.overlay.entries.foldl (fun d e => e.2.elim d fun t => u t d) d)) f =
      if (t.entry headFile f).isSome then v (d f) else d f := by
  have hfold := foldl_entries hu
    (fun e (he : e ∈ t.overlay.entries) b hb => h.entries e.1 b (by
      rw [UMap.mem_entries.mp he]; exact congrArg some hb)) t.overlay.nodupKeys d
  have hpend : ∀ q, (t.overlay.entries.any fun e => decide (e.1 = q) && e.2.isSome) =
      ((t.overlay.lookup q).join).isSome := by
    intro q
    rw [Bool.eq_iff_iff, List.any_eq_true, Option.isSome_iff_exists]
    simp only [Bool.and_eq_true, decide_eq_true_eq, Option.isSome_iff_exists]
    constructor
    · rintro ⟨e, he, rfl, b, hb⟩
      exact ⟨b, by rw [UMap.mem_entries.mp he, hb]; rfl⟩
    · intro ⟨b, hb⟩
      rw [Option.join_eq_some_iff] at hb
      exact ⟨⟨q, some b⟩, UMap.mem_entries.mpr hb, rfl, b, rfl⟩
  have hhead : (t.overlay.lookup headFile).join = none := by
    rw [AList.lookup_eq_none.mpr h.data]; rfl
  simp only [hpend] at hfold
  unfold ClassTransaction.entry
  cases ht : t.head with
  | none =>
    rw [Option.elim_none, hfold]
    by_cases hf : f = headFile
    · subst hf
      simp [hhead]
    · simp [hf]
  | some b =>
    rw [Option.elim_some, h.head b ht, hu]
    by_cases hf : f = headFile
    · subst hf
      rw [Function.update_self, hfold]
      simp [hhead]
    · rw [Function.update_of_ne hf, hfold]
      simp [hf]

theorem after_commitCalls (f : Files) : f.after commitCalls = ⟨f.tr, f.mTr, none, none⟩ := by
  obtain ⟨main, m, tr, mTr⟩ := f
  cases main <;> cases m <;> cases tr <;> cases mTr <;> rfl

theorem after_rollbackCalls (f : Files) : f.after rollbackCalls = ⟨f.main, f.m, none, none⟩ := by
  obtain ⟨main, m, tr, mTr⟩ := f
  cases tr <;> cases mTr <;> rfl

theorem ClassTransaction.Ok.commit_apply {t : ClassTransaction} {headFile : String}
    (h : t.Ok headFile) (d : Disk) (f : String) : t.commit d f =
      if (t.entry headFile f).isSome then ⟨(d f).tr, (d f).mTr, none, none⟩ else d f := by
  have := h.foldl_apply (u := BlockTransaction.commit)
    (v := fun f => ⟨f.tr, f.mTr, none, none⟩)
    (fun f d => by simp [BlockTransaction.commit, after_commitCalls]) d f
  exact this

theorem ClassTransaction.Ok.rollback_apply {t : ClassTransaction} {headFile : String}
    (h : t.Ok headFile) (d : Disk) (f : String) : t.rollback d f =
      if (t.entry headFile f).isSome then ⟨(d f).main, (d f).m, none, none⟩ else d f := by
  have := h.foldl_apply (u := BlockTransaction.rollback)
    (v := fun f => ⟨f.main, f.m, none, none⟩)
    (fun f d => by simp [BlockTransaction.rollback, after_rollbackCalls]) d f
  exact this

omit [DecidableEq K] in
theorem Files.SameCommitted.rep {f f' : Files}
    (h : f.SameCommitted f') {g : K → Option T} (hr : f.Rep fmt false g) : f'.Rep fmt false g := by
  obtain ⟨items, hi, hd⟩ := hr
  refine ⟨items, ?_, hd⟩
  unfold Files.Holds Files.contents Files.markers at hi ⊢
  simp only [Bool.false_eq_true, if_false] at hi ⊢
  rw [← h.1, ← h.2]
  exact hi

omit [DecidableEq K] in
/-- A block that is committed keeps what its pending files held. -/
theorem Files.Rep.commit {f : Files} {pending : Bool}
    {g : K → Option T} (h : f.Rep fmt pending g) :
    (if pending then ⟨f.tr, f.mTr, none, none⟩ else f : Files).Rep fmt false g := by
  cases pending with
  | true => exact h
  | false => exact h

end MeshPP.SystemUtility
