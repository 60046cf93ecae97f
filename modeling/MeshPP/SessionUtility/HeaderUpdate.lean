import MeshPP.SessionUtility.SessionShape

/-! # What a header update does to the sessions

`add` and `process` work on a copy of a session's header, and store what the
actions have made of it with `modify`. Where another session has one of its keys
`modify` erases the session, and the assertion that it does not is compiled out. -/

namespace MeshPP.SessionUtility
open MeshPP.Lib

variable {H : Type}

/-! ## The header that the actions leave -/

/-- What the actions that `process` calls make of the header, from the action at `index` on. -/
def scannedHeader (answer : Nat → Answer H) : Bool → Nat → List SessionAction → H → H
  | _, _, [], header => header
  | true, index, a :: rest, header =>
    let r := answer index
    if !(a.started r).errored && (a.started r).completed then
      scannedHeader answer true (index + 1) rest (r.header header)
    else r.header header
  | false, index, a :: rest, header =>
    let r := answer index
    if (a.answered r).errored then r.header header
    else scannedHeader answer (r.accepts && (a.answered r).completed) (index + 1) rest
      (r.header header)

/-- What the new actions that `add` initiates make of the header, where `existing` are the types
that are left out and `previous` is whether nothing is at work. -/
def addedHeader (answer : Nat → Answer H) : Nat → List Nat → Bool → List SessionAction → H → H
  | _, _, _, [], header => header
  | index, existing, previous, a :: rest, header =>
    let r := answer index
    let types := if a.permanent then a.typeid :: existing else existing
    if a.typeid ∈ existing then addedHeader answer (index + 1) existing previous rest header
    else if previous then
      if (a.started r).errored then r.header header
      else addedHeader answer (index + 1) types (a.started r).completed rest (r.header header)
    else addedHeader answer (index + 1) types false rest header

/-- The calls that `process` makes return, and none of them leaves its action with an error. -/
def scanReturns (answer : Nat → Answer H) : Bool → Nat → List SessionAction → Bool
  | _, _, [] => true
  | true, index, a :: rest =>
    let r := answer index
    !r.throws && !(a.started r).errored &&
      (!(a.started r).completed || scanReturns answer true (index + 1) rest)
  | false, index, a :: rest =>
    let r := answer index
    !r.throws && !(a.answered r).errored &&
      scanReturns answer (r.accepts && (a.answered r).completed) (index + 1) rest

/-- The calls of `initiate` that `add` makes do so. -/
def addReturns (answer : Nat → Answer H) : Nat → List Nat → Bool → List SessionAction → Bool
  | _, _, _, [] => true
  | index, existing, previous, a :: rest =>
    let r := answer index
    let types := if a.permanent then a.typeid :: existing else existing
    if a.typeid ∈ existing then addReturns answer (index + 1) existing previous rest
    else if previous then
      !r.throws && !(a.started r).errored &&
        addReturns answer (index + 1) types (a.started r).completed rest
    else addReturns answer (index + 1) types false rest

/-- Every action completes in its turn and none is permanent: the first by the packet that it
accepts, unless it is to be initiated, and each of the others as soon as it is initiated. -/
def allDisposed (answer : Nat → Answer H) : Bool → Nat → List SessionAction → Bool
  | _, _, [] => true
  | initiate, index, a :: rest =>
    (initiate || (answer index).accepts) && (a.answered (answer index)).disposable &&
      allDisposed answer true (index + 1) rest

theorem Scan.run_leaves (answer : Nat → Answer H) {s : Scan H} (h : s.errored = true)
    (rest : List SessionAction) : (Scan.run answer s rest).header = s.header := by
  cases rest with
  | nil => rfl
  | cons a rest =>
    rw [Scan.run, if_pos h]
    rfl

theorem Scan.offered_header (s : Scan H) (a : SessionAction) (r : Answer H) :
    (s.offered a r).header = r.header s.header := by
  unfold Scan.offered
  cases hacc : r.accepts <;> cases hc : (a.answered r).completed <;> cases hp : a.permanent <;>
    simp [Scan.dispose, hp]

theorem Scan.run_header (answer : Nat → Answer H) (rest : List SessionAction) :
    ∀ s : Scan H, s.errored = false → (Scan.run answer s rest).thrown = false →
      (Scan.run answer s rest).header =
        scannedHeader answer s.initiate s.passed.length rest s.header := by
  induction rest with
  | nil =>
    intro s _ _
    cases s.initiate <;> rfl
  | cons a rest ih =>
    intro s herr
    rw [Scan.run]
    cases hinit : s.initiate with
    | true =>
      rw [scannedHeader]
      simp only [herr, Bool.false_eq_true, if_false, if_true]
      generalize answer s.passed.length = r
      split
      · intro hthrown
        cases hthrown
      · split
        · next hc =>
          intro hthrown
          obtain ⟨n, hd⟩ := (s.initiated a r).dispose_eq a
          rw [hd] at hthrown ⊢
          rw [hc, Bool.and_true]
          cases hfine : (a.started r).errored with
          | true => exact Scan.run_leaves answer hfine rest
          | false =>
            rw [ih _ hfine hthrown]
            show scannedHeader answer s.initiate (s.passed ++ [a.started r]).length rest _ = _
            rw [hinit, List.length_append]
            rfl
        · next hc =>
          intro _
          rw [Bool.eq_false_iff.mpr hc, Bool.and_false]
          rfl
    | false =>
      rw [scannedHeader]
      simp only [herr, Bool.false_eq_true, if_false]
      generalize answer s.passed.length = r
      split
      · intro hthrown
        cases hthrown
      · intro hthrown
        obtain ⟨hp, he, -, hin, -⟩ := s.offered_fields a r
        cases hfine : (a.answered r).errored with
        | true => exact (Scan.run_leaves answer (he.trans hfine) rest).trans (s.offered_header a r)
        | false =>
          rw [ih _ (he.trans hfine) hthrown, hp, hin, hinit, s.offered_header, List.length_append]
          rfl

theorem Adding.keep_loop (s : Adding H) (a : SessionAction) :
    (s.keep a).header = s.header ∧ (s.keep a).previousCompleted = s.previousCompleted ∧
      (s.keep a).existingPermanentActions =
        if a.permanent then a.typeid :: s.existingPermanentActions
        else s.existingPermanentActions := by
  unfold Adding.keep
  cases hc : a.completed <;> cases hp : a.permanent <;> simp

theorem Adding.run_header (answer : Nat → Answer H) (rest : List SessionAction) :
    ∀ (index : Nat) (s : Adding H), (Adding.run answer index s rest).thrown = false →
      (Adding.run answer index s rest).header =
        addedHeader answer index s.existingPermanentActions s.previousCompleted rest s.header := by
  induction rest with
  | nil =>
    intro index s _
    rfl
  | cons a rest ih =>
    intro index s
    rw [Adding.run, addedHeader]
    generalize answer index = r
    split
    · exact ih _ _
    · cases hprev : s.previousCompleted with
      | true =>
        simp only [if_true]
        split
        · intro hthrown
          cases hthrown
        · split
          · next hbad =>
            intro _
            unfold Adding.initiated
            dsimp only
            rw [if_pos hbad]
          · next hgood =>
            intro hthrown
            obtain ⟨hh, hp, he⟩ := (s.called a r).keep_loop (a.started r)
            rw [ih _ _ hthrown, s.initiated_eq (Bool.eq_false_iff.mpr hgood), hh, hp, he]
            rfl
      | false =>
        simp only [Bool.false_eq_true, if_false]
        intro hthrown
        obtain ⟨hh, hp, he⟩ := s.keep_loop a
        rw [ih _ _ hthrown, hh, hp, he, hprev]

/-! ## What the calls leave of a session -/

theorem Scan.run_returns (answer : Nat → Answer H) (rest : List SessionAction) :
    ∀ s : Scan H, s.errored = false → s.thrown = false →
      ((Scan.run answer s rest).thrown = false ∧ (Scan.run answer s rest).errored = false ↔
        scanReturns answer s.initiate s.passed.length rest = true) := by
  induction rest with
  | nil =>
    intro s herr hthrown
    cases s.initiate <;> simp [Scan.run, scanReturns, herr, hthrown]
  | cons a rest ih =>
    intro s herr hthrown
    rw [Scan.run]
    cases hinit : s.initiate with
    | true =>
      rw [scanReturns]
      simp only [herr, Bool.false_eq_true, if_false, if_true]
      generalize answer s.passed.length = r
      cases hr : r.throws with
      | true => simp [Scan.failed, Scan.leave]
      | false =>
        simp only [Bool.false_eq_true, if_false]
        split
        · next hc =>
          obtain ⟨hp, he, ht, hi, -⟩ := (s.initiated a r).dispose_fields a
          cases hfine : (a.started r).errored with
          | true => simp [Scan.run_errored answer (he.trans hfine) rest]
          | false =>
            rw [ih _ (he.trans hfine) (ht.trans hthrown), hp, hi]
            show scanReturns answer s.initiate (s.passed ++ [a.started r]).length rest = true ↔ _
            rw [hinit, hc, List.length_append]
            simp
        · next hc =>
          have hthrown' : ((s.initiated a r).leave rest).thrown = false := hthrown
          have herr' : ((s.initiated a r).leave rest).errored = (a.started r).errored := rfl
          rw [hthrown', herr', Bool.eq_false_iff.mpr hc]
          simp
    | false =>
      rw [scanReturns]
      simp only [herr, Bool.false_eq_true, if_false]
      generalize answer s.passed.length = r
      cases hr : r.throws with
      | true => simp [Scan.failed, Scan.leave]
      | false =>
        simp only [Bool.false_eq_true, if_false]
        obtain ⟨hp, he, ht, hi, -⟩ := s.offered_fields a r
        cases hfine : (a.answered r).errored with
        | true => simp [Scan.run_errored answer (he.trans hfine) rest]
        | false =>
          rw [ih _ (he.trans hfine) (ht.trans hthrown), hp, hi, hinit, List.length_append]
          simp

theorem Scan.offered_disposeCount (s : Scan H) (a : SessionAction) (r : Answer H) :
    (s.offered a r).disposeCount =
      s.disposeCount + if r.accepts && (a.answered r).disposable then 1 else 0 := by
  have hp : (a.answered r).permanent = a.permanent := rfl
  unfold Scan.offered SessionAction.disposable
  rw [hp]
  cases hacc : r.accepts <;> cases hc : (a.answered r).completed <;> cases hperm : a.permanent <;>
    simp [Scan.dispose, hperm]

/-- The loop counts every action exactly if all of them are disposed of. -/
theorem Scan.run_disposeCount (answer : Nat → Answer H) (rest : List SessionAction) :
    ∀ s : Scan H, s.errored = false →
      scanReturns answer s.initiate s.passed.length rest = true →
      (Scan.run answer s rest).disposeCount ≤ s.disposeCount + rest.length ∧
        ((Scan.run answer s rest).disposeCount = s.disposeCount + rest.length ↔
          allDisposed answer s.initiate s.passed.length rest = true) := by
  induction rest with
  | nil =>
    intro s _ _
    simp [Scan.run, allDisposed]
  | cons a rest ih =>
    intro s herr
    rw [Scan.run, allDisposed]
    cases hinit : s.initiate with
    | true =>
      rw [scanReturns]
      simp only [herr, Bool.false_eq_true, if_false, if_true, Bool.and_eq_true, Bool.not_eq_true',
        Bool.true_or, true_and]
      generalize answer s.passed.length = r
      rintro ⟨⟨hr, hfine⟩, hrest⟩
      have hdisposable : (a.answered r).disposable = ((a.started r).completed && !a.permanent) := rfl
      rw [hr, hdisposable]
      simp only [Bool.false_eq_true, if_false]
      split
      · next hc =>
        obtain ⟨hp, he, -, hi, -, hcount⟩ := (s.initiated a r).dispose_fields a
        have hinit' : ((s.initiated a r).dispose a).initiate = true := hi.trans hinit
        have hlength : ((s.initiated a r).dispose a).passed.length = s.passed.length + 1 := by
          rw [hp]
          exact List.length_append
        have hcount' : ((s.initiated a r).dispose a).disposeCount =
            s.disposeCount + if a.permanent then 0 else 1 := hcount
        have hrest' := ih ((s.initiated a r).dispose a) (he.trans hfine)
        rw [hinit', hlength, hcount'] at hrest'
        rw [hc] at hrest ⊢
        obtain ⟨hle, hiff⟩ := hrest' (by simpa using hrest)
        cases hperm : a.permanent with
        | true =>
          rw [hperm, if_pos rfl] at hle
          rw [List.length_cons]
          exact ⟨by omega, fun heq => by omega, fun hall => by simp at hall⟩
        | false =>
          rw [hperm, if_neg Bool.false_ne_true] at hle hiff
          rw [List.length_cons]
          refine ⟨by omega, fun heq => ⟨rfl, hiff.mp (by omega)⟩, fun hall => ?_⟩
          have heq := hiff.mpr hall.2
          omega
      · next hc =>
        have hcount : ((s.initiated a r).leave rest).disposeCount = s.disposeCount := rfl
        rw [hcount, Bool.eq_false_iff.mpr hc, List.length_cons]
        simp
    | false =>
      rw [scanReturns]
      simp only [herr, Bool.false_eq_true, if_false, Bool.and_eq_true, Bool.not_eq_true',
        Bool.false_or]
      generalize answer s.passed.length = r
      rintro ⟨⟨hr, hfine⟩, hrest⟩
      rw [hr]
      simp only [Bool.false_eq_true, if_false]
      obtain ⟨hp, he, -, hi, -⟩ := s.offered_fields a r
      have hinit' : (s.offered a r).initiate = (r.accepts && (a.answered r).completed) := by
        rw [hi, hinit, Bool.false_or]
      have hlength : (s.offered a r).passed.length = s.passed.length + 1 := by
        rw [hp]
        exact List.length_append
      have hrest' := ih (s.offered a r) (he.trans hfine)
      rw [hinit', hlength, s.offered_disposeCount] at hrest'
      obtain ⟨hle, hiff⟩ := hrest' hrest
      cases hall : r.accepts && (a.answered r).disposable with
      | true =>
        obtain ⟨hacc, hdisposable⟩ := Bool.and_eq_true_iff.mp hall
        have hc : (a.answered r).completed = true := (Bool.and_eq_true_iff.mp hdisposable).1
        rw [hall] at hle hiff
        rw [hacc, hc] at hiff
        rw [hacc, hdisposable]
        simp only [if_true, List.length_cons, Bool.and_self, true_and] at hle hiff ⊢
        exact ⟨by omega, by rw [← hiff]; omega⟩
      | false =>
        have hnot : ¬ ((r.accepts = true ∧ (a.answered r).disposable = true) ∧
            allDisposed answer true (s.passed.length + 1) rest = true) := fun h =>
          Bool.false_ne_true (hall.symm.trans (Bool.and_eq_true_iff.mpr h.1))
        rw [hall] at hle
        simp only [Bool.false_eq_true, if_false, List.length_cons] at hle ⊢
        exact ⟨by omega, fun h => by omega, fun h => absurd h hnot⟩

theorem Adding.run_returns (answer : Nat → Answer H) (rest : List SessionAction) :
    ∀ (index : Nat) (s : Adding H), s.errored = false → s.thrown = false →
      ((Adding.run answer index s rest).thrown = false ∧
          (Adding.run answer index s rest).errored = false ↔
        addReturns answer index s.existingPermanentActions s.previousCompleted rest = true) := by
  induction rest with
  | nil =>
    intro index s herr hthrown
    simp [Adding.run, addReturns, herr, hthrown]
  | cons a rest ih =>
    intro index s herr hthrown
    rw [Adding.run, addReturns]
    generalize answer index = r
    split
    · exact ih _ _ herr hthrown
    · cases hprev : s.previousCompleted with
      | true =>
        simp only [if_true]
        cases hr : r.throws with
        | true => simp [Adding.failed]
        | false =>
          simp only [Bool.false_eq_true, if_false]
          cases hfine : (a.started r).errored with
          | true => simp [Adding.initiated, hfine]
          | false =>
            obtain ⟨-, hp, he⟩ := (s.called a r).keep_loop (a.started r)
            obtain ⟨-, herr', hthrown', -⟩ := (s.called a r).keep_fields (a.started r)
            simp only [Bool.false_eq_true, if_false]
            rw [s.initiated_eq hfine, ih _ _ (herr'.trans herr) (hthrown'.trans hthrown), hp, he]
            simp only [Bool.not_false, Bool.true_and]
            rfl
      | false =>
        obtain ⟨-, hp, he⟩ := s.keep_loop a
        obtain ⟨-, herr', hthrown', -⟩ := s.keep_fields a
        simp only [Bool.false_eq_true, if_false]
        rw [ih _ _ (herr'.trans herr) (hthrown'.trans hthrown), hp, he, hprev]

/-- `add` takes no action out of a session. -/
theorem Adding.run_actions_ne (answer : Nat → Answer H) (rest : List SessionAction) :
    ∀ (index : Nat) (s : Adding H), s.actions ≠ [] →
      (Adding.run answer index s rest).actions ≠ [] := by
  have hkeep : ∀ (s : Adding H) (a : SessionAction), s.actions ≠ [] →
      (s.keep a).actions ≠ [] := by
    intro s a hne
    rw [(s.keep_fields a).2.2.2]
    split
    · exact List.append_ne_nil_of_left_ne_nil hne _
    · exact hne
  induction rest with
  | nil => exact fun _ _ hne => hne
  | cons a rest ih =>
    intro index s hne
    rw [Adding.run]
    generalize answer index = r
    split
    · exact ih _ _ hne
    · split
      · split
        · exact hne
        · split
          · next hbad =>
            unfold Adding.initiated
            dsimp only
            rw [if_pos hbad]
            exact hne
          · next hgood =>
            rw [s.initiated_eq (Bool.eq_false_iff.mpr hgood)]
            exact ih _ _ (hkeep _ _ hne)
      · exact ih _ _ (hkeep _ _ hne)

/-- Nothing is left of a session without actions exactly if all the new ones are disposed of. -/
theorem Adding.run_actions (answer : Nat → Answer H) (rest : List SessionAction) :
    ∀ (index : Nat) (s : Adding H), s.actions = [] → s.existingPermanentActions = [] →
      s.previousCompleted = true → addReturns answer index [] true rest = true →
      ((Adding.run answer index s rest).actions = [] ↔
        allDisposed answer true index rest = true) := by
  induction rest with
  | nil =>
    intro index s hnil _ _ _
    simp [Adding.run, allDisposed, hnil]
  | cons a rest ih =>
    intro index s hnil htypes hprev
    rw [Adding.run, addReturns, allDisposed, htypes, hprev, if_neg List.not_mem_nil,
      if_neg List.not_mem_nil]
    generalize answer index = r
    simp only [if_true, Bool.and_eq_true, Bool.not_eq_true', Bool.true_or, true_and]
    rintro ⟨⟨hr, hfine⟩, hrest⟩
    rw [hr, hfine, s.initiated_eq hfine]
    simp only [Bool.false_eq_true, if_false]
    obtain ⟨-, hp, he⟩ := (s.called a r).keep_loop (a.started r)
    have hactions := ((s.called a r).keep_fields (a.started r)).2.2.2
    have hcalled : (s.called a r).actions = [] := hnil
    rw [hcalled, List.nil_append] at hactions
    cases hall : (a.answered r).disposable with
    | true =>
      obtain ⟨hc, hperm⟩ := Bool.and_eq_true_iff.mp hall
      have hc' : (a.started r).completed = true := hc
      have hperm' : (a.started r).permanent = false := (Bool.not_eq_true' _).mp hperm
      have htypes' : (s.called a r).existingPermanentActions = [] := htypes
      have hperm₀ : a.permanent = false := hperm'
      rw [hc', hperm', Bool.not_true, Bool.false_or, if_neg Bool.false_ne_true] at hactions
      rw [hperm', if_neg Bool.false_ne_true] at he
      rw [hperm₀, if_neg Bool.false_ne_true, hc'] at hrest
      rw [ih _ _ hactions (he.trans htypes') (hp.trans hc') hrest]
      exact (and_iff_right rfl).symm
    | false =>
      have hkept : (!(a.started r).completed || (a.started r).permanent) = true := by
        cases hc : (a.started r).completed with
        | false => rfl
        | true =>
          cases hperm : (a.started r).permanent with
          | true => rfl
          | false =>
            have hdisposable : (a.answered r).disposable =
                ((a.started r).completed && !(a.started r).permanent) := rfl
            rw [hall, hc, hperm] at hdisposable
            cases hdisposable
      rw [if_pos hkept] at hactions
      have hne : ((s.called a r).keep (a.started r)).actions ≠ [] := by
        rw [hactions]
        exact List.cons_ne_nil _ _
      exact ⟨fun hnil' => absurd hnil' (Adding.run_actions_ne answer rest _ _ hne),
        fun hfalse => absurd hfalse.1 Bool.false_ne_true⟩

/-! ## Keys -/

/-- The headers have no unique key in common. -/
def Apart [HeaderKeys H] (h h' : H) : Prop :=
  ∀ (k : Nat) (key : String), (HeaderKeys.uniqueKeys h)[k]? = some key →
    (HeaderKeys.uniqueKeys h')[k]? ≠ some key

theorem apart_iff {Address : Type} [DecidableEq Address] {h h' : NodeidSessionHeader Address} :
    Apart h h' ↔ h.peerid ≠ h'.peerid ∧ h.nodeid ≠ h'.nodeid := by
  constructor
  · intro ha
    exact ⟨fun he => ha 0 h.peerid rfl (congrArg some he.symm),
      fun he => ha 1 h.nodeid rfl (congrArg some he.symm)⟩
  · intro ⟨hp, hn⟩ k key hk hk'
    match k with
    | 0 => exact hp (Option.some.inj (hk.trans hk'.symm))
    | 1 => exact hn (Option.some.inj (hk.trans hk'.symm))
    | k + 2 => cases hk

section
variable [HeaderKeys H]

theorem Apart.symm {h h' : H} (ha : Apart h h') : Apart h' h :=
  fun k key hk hk' => ha k key hk' hk

namespace SessionManager

omit [HeaderKeys H] in
theorem first_eq_none {m : SessionManager H} {p : Session H → Bool} :
    m.first p = none ↔ ∀ s ∈ m.sessions, p s = false := by
  unfold SessionManager.first
  constructor
  · intro h
    cases hf : m.sessions.findIdx? p with
    | none => exact List.findIdx?_eq_none_iff.mp hf
    | some index =>
      obtain ⟨hlt, -⟩ := List.findIdx?_eq_some_iff_getElem.mp hf
      rw [hf, Option.bind_some, List.getElem?_eq_getElem hlt] at h
      cases h
  · intro h
    rw [List.findIdx?_eq_none_iff.mpr h]
    rfl

theorem blocking_eq_none {m : SessionManager H} {header : H} :
    m.blocking header = none ↔ ∀ s ∈ m.sessions, Apart s.header header := by
  unfold SessionManager.blocking
  rw [List.findSome?_eq_none_iff]
  constructor
  · intro h s hs k key hk hk'
    have hkey : (key, k) ∈ (HeaderKeys.uniqueKeys header).zipIdx :=
      List.mk_mem_zipIdx_iff_getElem?.mpr hk'
    have hnone := first_eq_none.mp (h (key, k) hkey) s hs
    exact of_decide_eq_false hnone hk
  · intro h key hkey
    refine first_eq_none.mpr fun s hs => decide_eq_false fun hk => ?_
    exact h s hs key.2 key.1 hk (List.mk_mem_zipIdx_iff_getElem?.mp hkey)

/-- No other session than the one at `index` has a key of the header. -/
def Free (sessions : List (Session H)) (index : Nat) (header : H) : Prop :=
  ∀ s ∈ sessions.eraseIdx index, Apart s.header header

/-- The sessions are as they were, but for the one at `index`, which has the header. -/
def Updates (sessions sessions' : List (Session H)) (index : Nat) (header : H) : Prop :=
  ∃ session, sessions' = sessions.set index session ∧ session.header = header

/-- `modify` updates the session exactly if its keys are free. -/
theorem replaceAt_updates_iff {m : SessionManager H} {index : Nat} {session : Session H}
    (hlt : index < m.sessions.length) :
    Updates m.sessions (m.replaceAt index session).sessions index session.header ↔
      Free m.sessions index session.header := by
  have hfree : ((m.eraseAt index).blocking session.header).isSome = false ↔
      Free m.sessions index session.header := by
    rw [Option.isSome_eq_false_iff, Option.isNone_iff_eq_none, blocking_eq_none]
    rfl
  rw [← hfree]
  unfold SessionManager.replaceAt
  constructor
  · intro ⟨session', hs, _⟩
    by_contra hblocked
    rw [if_pos ((Bool.not_eq_false _).mp hblocked)] at hs
    have hlength := congrArg List.length hs
    rw [SessionManager.eraseAt, List.length_eraseIdx_of_lt hlt, List.length_set] at hlength
    omega
  · intro hno
    rw [if_neg (by rw [hno]; exact Bool.false_ne_true)]
    exact ⟨session, rfl, rfl⟩

/-- Any two sessions have keys of their own. -/
def Unique (m : SessionManager H) : Prop :=
  m.sessions.Pairwise fun s t => Apart s.header t.header

theorem Unique.free {m : SessionManager H} (h : m.Unique) {index : Nat} {session : Session H}
    (hs : m.sessions[index]? = some session) : Free m.sessions index session.header := by
  unfold Unique at h
  rw [sessions_split hs, List.pairwise_append, List.pairwise_cons] at h
  obtain ⟨-, ⟨hdrop, -⟩, htake⟩ := h
  intro t ht
  rw [List.eraseIdx_eq_take_drop_succ, List.mem_append] at ht
  rcases ht with ht | ht
  · exact htake t ht session List.mem_cons_self
  · exact (hdrop t ht).symm

theorem Unique.eraseAt {m : SessionManager H} (h : m.Unique) (index : Nat) :
    (m.eraseAt index).Unique := List.Pairwise.sublist (List.eraseIdx_sublist _ _) h

theorem Unique.setAt {m : SessionManager H} {index : Nat} (h : (m.eraseAt index).Unique)
    {session : Session H} (hlt : index < m.sessions.length)
    (hfree : Free m.sessions index session.header) : (m.setAt index session).Unique := by
  unfold Unique SessionManager.eraseAt at h
  unfold Unique SessionManager.setAt
  unfold Free at hfree
  dsimp only at h ⊢
  rw [List.eraseIdx_eq_take_drop_succ] at h hfree
  rw [List.pairwise_append] at h
  rw [List.set_eq_take_append_cons_drop, if_pos hlt, List.pairwise_append, List.pairwise_cons]
  refine ⟨h.1, ⟨fun t ht => (hfree t (List.mem_append_right _ ht)).symm, h.2.1⟩,
    fun s hs t ht => ?_⟩
  rcases List.mem_cons.mp ht with rfl | ht
  · exact hfree s (List.mem_append_left _ hs)
  · exact h.2.2 s hs t ht

theorem Unique.replaceAt {m : SessionManager H} {index : Nat} (h : (m.eraseAt index).Unique)
    (session : Session H) (hlt : index < m.sessions.length) :
    (m.replaceAt index session).Unique := by
  unfold SessionManager.replaceAt
  split
  · exact h
  · next hno =>
    rw [Option.not_isSome_iff_eq_none, blocking_eq_none] at hno
    exact h.setAt hlt hno

/-! ## The operations -/

variable [DecidableEq H]

/-- The sessions once `add` has found or made the one it is about, with that session. -/
def addTarget (m : SessionManager H) (header : H) (waitDuration : Nat) :
    Option (List (Session H) × Nat × Session H) :=
  match m.blocking header with
  | none =>
    let session : Session H := ⟨header, 0, waitDuration, []⟩
    some (m.sessions ++ [session], m.sessions.length, session)
  | some (index, session) =>
    if HeaderKeys.keysSame session.header header then some (m.sessions, index, session) else none

/-- What is asked of a header that an operation leaves in a session that goes on: where the calls
that it makes return without an error, and not all actions are completed and disposed of. -/
def Leaves (m : SessionManager H) (P : List (Session H) → Nat → H → Prop) :
    SessionOp H → Prop
  | .process peerid _ answer => peerid ≠ "" → ∀ index session,
    m.findPeer peerid = some (index, session) →
      scanReturns answer false 0 session.actions = true →
      allDisposed answer false 0 session.actions = false →
      P m.sessions index (scannedHeader answer false 0 session.actions session.header)
  | .add header actions waitDuration _ answer => actions ≠ [] → ∀ sessions index session,
    m.addTarget header waitDuration = some (sessions, index, session) →
      addReturns answer 0 ((session.actions.filter SessionAction.permanent).map SessionAction.typeid)
        (session.actions.getLast?.all SessionAction.completed) (m.number actions) = true →
      ¬ (session.actions = [] ∧ allDisposed answer true 0 (m.number actions) = true) →
      P sessions index (addedHeader answer 0
        ((session.actions.filter SessionAction.permanent).map SessionAction.typeid)
        (session.actions.getLast?.all SessionAction.completed) (m.number actions) session.header)
  | _ => True

/-- The session goes on with the header that the actions leave, and the others are as they were. -/
def Keeps (m : SessionManager H) (op : SessionOp H) : Prop :=
  m.Leaves (fun sessions index header =>
    Updates sessions (m.step op).2.sessions index header) op

/-- No other session has a key of the header that the actions leave. -/
def FreeUpdate (m : SessionManager H) (op : SessionOp H) : Prop := m.Leaves Free op

/-- Both operations store what the actions leave in this way. -/
theorem Unique.stores_iff {m : SessionManager H} (h : m.Unique) {index : Nat}
    {session left same : Session H} (hs : m.sessions[index]? = some session) {update : Bool}
    {header : H} (hleft : left.header = header) (hsame : same.header = session.header) :
    Updates m.sessions (if header ≠ session.header ∨ update then m.replaceAt index left
        else m.setAt index same).sessions index header ↔ Free m.sessions index header := by
  split
  · rw [← hleft]
    exact replaceAt_updates_iff (List.getElem?_eq_some_iff.mp hs).1
  · next hno =>
    have heq : header = session.header := not_not.mp fun hne => hno (.inl hne)
    rw [heq]
    exact ⟨fun _ => h.free hs, fun _ => ⟨same, rfl, hsame⟩⟩

theorem Unique.process_iff {m : SessionManager H} (h : m.Unique) {index : Nat}
    {session : Session H} (hs : m.sessions[index]? = some session) (now : Nat)
    {answer : Nat → Answer H} (hreturns : scanReturns answer false 0 session.actions = true)
    (hgoes : allDisposed answer false 0 session.actions = false) :
    Updates m.sessions (m.processAt index session now answer).2.sessions index
        (scannedHeader answer false 0 session.actions session.header) ↔
      Free m.sessions index (scannedHeader answer false 0 session.actions session.header) := by
  obtain ⟨hthrown, hne⟩ :=
    (Scan.run_returns answer session.actions (.start session.header) rfl rfl).mpr hreturns
  have hdispose := (Scan.run_disposeCount answer session.actions (.start session.header) rfl
    hreturns).2
  have hcount : (Scan.run answer (.start session.header) session.actions).disposeCount ≠
      session.actions.length := fun heq => Bool.false_ne_true
    (hgoes.symm.trans (hdispose.mp (heq.trans (Nat.zero_add _).symm)))
  have hheader := Scan.run_header answer session.actions (.start session.header) rfl hthrown
  unfold SessionManager.processAt
  dsimp only
  rw [if_neg (by rw [hthrown]; exact Bool.false_ne_true),
    if_neg (by rw [hne]; exact Bool.false_ne_true), if_neg hcount]
  dsimp only
  rw [hheader]
  exact h.stores_iff hs rfl rfl

theorem Unique.add_iff {m : SessionManager H} (h : m.Unique) {index : Nat} {session : Session H}
    (hs : m.sessions[index]? = some session) {news : List SessionAction} (waitDuration now : Nat)
    {answer : Nat → Answer H}
    (hreturns : addReturns answer 0
      ((session.actions.filter SessionAction.permanent).map SessionAction.typeid)
      (session.actions.getLast?.all SessionAction.completed) news = true)
    (hgoes : ¬ (session.actions = [] ∧ allDisposed answer true 0 news = true)) :
    Updates m.sessions (m.addAt index session news waitDuration now answer).2.sessions index
        (addedHeader answer 0
          ((session.actions.filter SessionAction.permanent).map SessionAction.typeid)
          (session.actions.getLast?.all SessionAction.completed) news session.header) ↔
      Free m.sessions index (addedHeader answer 0
        ((session.actions.filter SessionAction.permanent).map SessionAction.typeid)
        (session.actions.getLast?.all SessionAction.completed) news session.header) := by
  obtain ⟨hthrown, hne⟩ := (Adding.run_returns answer news 0 (.start session) rfl rfl).mpr hreturns
  have hnil : (Adding.run answer 0 (.start session) news).actions ≠ [] := by
    by_cases hactions : session.actions = []
    · intro hempty
      rw [hactions] at hreturns
      refine hgoes ⟨hactions, (Adding.run_actions answer news 0 (.start session) hactions ?_ ?_
        hreturns).mp hempty⟩
      · unfold Adding.start
        rw [hactions]
        rfl
      · unfold Adding.start
        rw [hactions]
        rfl
    · exact Adding.run_actions_ne answer news 0 (.start session) hactions
  have hheader := Adding.run_header answer news 0 (.start session) hthrown
  unfold SessionManager.addAt
  dsimp only
  rw [if_neg (by rw [hthrown]; exact Bool.false_ne_true),
    if_neg (by rw [hne]; exact Bool.false_ne_true), if_neg hnil]
  dsimp only
  rw [hheader]
  exact h.stores_iff hs rfl rfl

omit [DecidableEq H] in
theorem Unique.target {m : SessionManager H} (h : m.Unique) {header : H} {waitDuration : Nat}
    {sessions : List (Session H)} {index : Nat} {session : Session H}
    (ht : m.addTarget header waitDuration = some (sessions, index, session)) :
    sessions[index]? = some session ∧ Unique ⟨sessions, m.nextId⟩ := by
  unfold addTarget at ht
  split at ht
  · next hb =>
    cases ht
    refine ⟨by simp, ?_⟩
    unfold Unique
    rw [List.pairwise_append]
    refine ⟨h, List.pairwise_singleton _ _, fun s hs t ht => ?_⟩
    rw [List.mem_singleton.mp ht]
    exact blocking_eq_none.mp hb s hs
  · next index session hb =>
    split at ht
    · cases ht
      exact ⟨blocking_spec hb, h⟩
    · cases ht

theorem add_eq {m : SessionManager H} {header : H} {actions : List NewAction} (hne : actions ≠ [])
    (waitDuration now : Nat) (answer : Nat → Answer H) :
    m.add header actions waitDuration now answer = match m.addTarget header waitDuration with
      | some (sessions, index, session) =>
        addAt ⟨sessions, m.nextId + actions.length⟩ index session (m.number actions)
          waitDuration now answer
      | none => (⟨.flag false, []⟩, { m with nextId := m.nextId + actions.length }) := by
  unfold SessionManager.add addTarget
  rw [if_neg hne]
  dsimp only
  have hsame : SessionManager.blocking { m with nextId := m.nextId + actions.length } header =
      m.blocking header := rfl
  rw [hsame]
  cases m.blocking header with
  | none => rfl
  | some it =>
    dsimp only
    split <;> rfl

/-- **A header update keeps its session exactly if no other session has a key of it.** -/
theorem Unique.keeps_iff {m : SessionManager H} (h : m.Unique) (op : SessionOp H) :
    m.Keeps op ↔ m.FreeUpdate op := by
  cases op with
  | process peerid now answer =>
    refine forall_congr' fun hne => forall_congr' fun index => forall_congr' fun session =>
      forall_congr' fun hf => forall_congr' fun hreturns => forall_congr' fun hgoes => ?_
    have hstep : (m.step (.process peerid now answer)).2 =
        (m.processAt index session now answer).2 := by
      unfold SessionManager.step SessionManager.process
      dsimp only
      rw [if_neg hne, hf]
    rw [hstep]
    exact h.process_iff (first_spec hf) now hreturns hgoes
  | add header actions waitDuration now answer =>
    refine forall_congr' fun hne => forall_congr' fun sessions => forall_congr' fun index =>
      forall_congr' fun session => forall_congr' fun ht => forall_congr' fun hreturns =>
        forall_congr' fun hgoes => ?_
    have hstep : (m.step (.add header actions waitDuration now answer)).2 =
        (addAt ⟨sessions, m.nextId + actions.length⟩ index session (m.number actions)
          waitDuration now answer).2 := by
      unfold SessionManager.step
      dsimp only
      rw [add_eq hne, ht]
    rw [hstep]
    obtain ⟨hs, hu⟩ := h.target ht
    have hu' : Unique ⟨sessions, m.nextId + actions.length⟩ := hu
    exact hu'.add_iff hs waitDuration now hreturns hgoes
  | remove peerid => exact Iff.rfl
  | eraseAllPending now => exact Iff.rfl

/-! ## Runs -/

theorem Unique.processAt {m : SessionManager H} (h : m.Unique) {index : Nat} {session : Session H}
    (hs : m.sessions[index]? = some session) (now : Nat) (answer : Nat → Answer H) :
    (m.processAt index session now answer).2.Unique := by
  have hlt := (List.getElem?_eq_some_iff.mp hs).1
  have hfree := h.free hs
  unfold SessionManager.processAt
  dsimp only
  split
  · exact h.eraseAt index
  · dsimp only
    split
    · exact h.eraseAt index
    · split
      · exact h.eraseAt index
      · split
        · exact (h.eraseAt index).replaceAt _ hlt
        · exact (h.eraseAt index).setAt hlt hfree

theorem Unique.addAt {m : SessionManager H} (h : m.Unique) {index : Nat} {session : Session H}
    (hs : m.sessions[index]? = some session) (actions : List SessionAction)
    (waitDuration now : Nat) (answer : Nat → Answer H) :
    (m.addAt index session actions waitDuration now answer).2.Unique := by
  have hlt := (List.getElem?_eq_some_iff.mp hs).1
  have hfree := h.free hs
  unfold SessionManager.addAt
  dsimp only
  split
  · exact h.eraseAt index
  · dsimp only
    split
    · exact h.eraseAt index
    · split
      · exact h.eraseAt index
      · split
        · exact (h.eraseAt index).replaceAt _ hlt
        · exact (h.eraseAt index).setAt hlt hfree

omit [DecidableEq H] in
theorem unique_init : (init : SessionManager H).Unique := List.Pairwise.nil

theorem Unique.step {m : SessionManager H} (h : m.Unique) (op : SessionOp H) :
    (m.step op).2.Unique := by
  cases op with
  | add header actions waitDuration now answer =>
    show (m.add header actions waitDuration now answer).2.Unique
    by_cases hne : actions = []
    · unfold SessionManager.add
      rw [if_pos hne]
      exact h
    · rw [add_eq hne]
      cases ht : m.addTarget header waitDuration with
      | none => exact h
      | some target =>
        obtain ⟨sessions, index, session⟩ := target
        obtain ⟨hs, hu⟩ := h.target ht
        have hu' : Unique ⟨sessions, m.nextId + actions.length⟩ := hu
        exact hu'.addAt hs _ waitDuration now answer
  | process peerid now answer =>
    show (m.process peerid now answer).2.Unique
    unfold SessionManager.process
    split
    · exact h
    · cases hf : m.findPeer peerid with
      | none => exact h
      | some found => exact h.processAt (first_spec hf) now answer
  | remove peerid =>
    show (m.remove peerid).Unique
    unfold SessionManager.remove
    split
    · exact h
    · exact h.eraseAt _
  | eraseAllPending now => exact List.Pairwise.filter _ h

end SessionManager

end

open SessionManager

/-- **In every run, a header update keeps its session exactly if no other session has the peer id
or the node id that the actions leave in the header.** -/
theorem run_keeps_iff {Address : Type} [DecidableEq Address]
    (ops : List (SessionOp (NodeidSessionHeader Address))) :
    Meets SessionManager.step Keeps .init ops ↔ Meets SessionManager.step FreeUpdate .init ops := by
  constructor
  · intro h
    exact h.invariant (C := Keeps) (fun m op hu _ => hu.step op)
      (fun m op hu => (hu.keeps_iff op).mp) unique_init
  · intro h
    exact h.invariant (C := FreeUpdate) (fun m op hu _ => hu.step op)
      (fun m op hu => (hu.keeps_iff op).mpr) unique_init

namespace Collision

/-- The action goes on, and makes of the header what `change` does. -/
def going (change : NodeidSessionHeader Nat → NodeidSessionHeader Nat) (_ : Nat) :
    Answer (NodeidSessionHeader Nat) := ⟨false, false, false, false, change⟩

/-- A second session, whose action takes the peer id of the first. -/
def ops : List (SessionOp (NodeidSessionHeader Nat)) :=
  [.add ⟨1, "p", "n1"⟩ [⟨0, false⟩] 10 0 (going id),
    .add ⟨2, "q", "n2"⟩ [⟨0, false⟩] 10 0 (going fun header => { header with peerid := "p" })]

end Collision

theorem not_run_keeps : ¬ ∀ ops : List (SessionOp (NodeidSessionHeader Nat)),
    Meets SessionManager.step Keeps .init ops := by
  intro hall
  obtain ⟨-, hkeep, -⟩ := hall Collision.ops
  obtain ⟨session', hs, -⟩ := hkeep (by decide) _ _ _ rfl rfl (by decide)
  have hlength := congrArg List.length hs
  cases hlength

end MeshPP.SessionUtility
