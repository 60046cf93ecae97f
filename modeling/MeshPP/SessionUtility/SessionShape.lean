import MeshPP.SessionUtility.SessionOrder

/-! # What a stored session looks like

In front are permanent actions that are completed, then comes the one that is at
work, and behind it are those that wait for it. A session without one at work
has none that waits, so none is ever stuck. -/

namespace MeshPP.SessionUtility
open MeshPP.Lib

variable {H : Type}

/-! ## Phases -/

namespace SessionAction

structure Done (a : SessionAction) : Prop where
  initiated : a.initiated
  completed : a.completed
  permanent : a.permanent

structure Working (a : SessionAction) : Prop where
  initiated : a.initiated
  completed : a.completed = false

structure Waiting (a : SessionAction) : Prop where
  initiated : a.initiated = false
  completed : a.completed = false

end SessionAction

inductive Shaped : List SessionAction → Prop
  | nil : Shaped []
  | done {a : SessionAction} {rest : List SessionAction} : a.Done → Shaped rest → Shaped (a :: rest)
  | working {a : SessionAction} {rest : List SessionAction} : a.Working →
    (∀ b ∈ rest, b.Waiting) → Shaped (a :: rest)

/-- What the actions of a stored session keep to. -/
structure SessionShape (actions : List SessionAction) : Prop where
  nonempty : actions ≠ []
  phases : ∃ completed working waiting, actions = completed ++ working ++ waiting ∧
    (∀ a ∈ completed, a.initiated ∧ a.completed ∧ a.permanent) ∧
    working.length ≤ 1 ∧ (∀ a ∈ working, a.initiated ∧ a.completed = false) ∧
    (∀ a ∈ waiting, a.initiated = false) ∧ (working = [] → waiting = [])
  sound : ∀ a ∈ actions, a.errored = false
  types : ((actions.filter SessionAction.permanent).map SessionAction.typeid).Nodup

theorem Shaped.phases {actions : List SessionAction} (h : Shaped actions) :
    ∃ completed working waiting, actions = completed ++ working ++ waiting ∧
      (∀ a ∈ completed, a.initiated ∧ a.completed ∧ a.permanent) ∧
      working.length ≤ 1 ∧ (∀ a ∈ working, a.initiated ∧ a.completed = false) ∧
      (∀ a ∈ waiting, a.initiated = false) ∧ (working = [] → waiting = []) := by
  induction h with
  | nil => exact ⟨[], [], [], rfl, by simp, by simp, by simp, by simp, by simp⟩
  | @done a rest ha _ ih =>
    obtain ⟨completed, working, waiting, rfl, hc, hrest⟩ := ih
    refine ⟨a :: completed, working, waiting, rfl, fun b hb => ?_, hrest⟩
    rcases List.mem_cons.mp hb with rfl | hb
    · exact ⟨ha.initiated, ha.completed, ha.permanent⟩
    · exact hc b hb
  | @working a rest ha hrest =>
    exact ⟨[], [a], rest, rfl, by simp, by simp,
      fun b hb => List.mem_singleton.mp hb ▸ ⟨ha.initiated, ha.completed⟩,
      fun b hb => (hrest b hb).initiated, by simp⟩

/-- The actions an accepted packet leaves in a session. -/
def kept (actions : List SessionAction) : List SessionAction :=
  actions.filter fun a => !a.disposable

theorem kept_waiting {actions : List SessionAction} (h : ∀ a ∈ actions, a.Waiting) :
    kept actions = actions := by
  refine List.filter_eq_self.mpr fun a ha => ?_
  rw [SessionAction.disposable, (h a ha).completed]
  rfl

theorem Shaped.not_disposable {actions : List SessionAction} (h : Shaped actions) :
    ∀ a ∈ actions, a.disposable = false := by
  induction h with
  | nil => intro a ha; cases ha
  | done hb _ ih =>
    intro a ha
    rcases List.mem_cons.mp ha with rfl | ha
    · rw [SessionAction.disposable, hb.permanent, Bool.not_true, Bool.and_false]
    · exact ih a ha
  | working hb hrest =>
    intro a ha
    rcases List.mem_cons.mp ha with rfl | ha
    · rw [SessionAction.disposable, hb.completed, Bool.false_and]
    · rw [SessionAction.disposable, (hrest a ha).completed, Bool.false_and]

/-- An action in front of others that the packet has left in their phases. -/
theorem Shaped.kept_cons {a : SessionAction} {rest : List SessionAction} (hi : a.initiated)
    (hc : a.completed) (h : Shaped (kept rest)) : Shaped (kept (a :: rest)) := by
  unfold kept at h ⊢
  cases hp : a.permanent with
  | true =>
    rw [List.filter_cons_of_pos (by simp [SessionAction.disposable, hp])]
    exact .done ⟨hi, hc, hp⟩ h
  | false =>
    rw [List.filter_cons_of_neg (by simp [SessionAction.disposable, hp, hc])]
    exact h

theorem Shaped.kept_working {a : SessionAction} {rest : List SessionAction} (ha : a.Working)
    (h : ∀ b ∈ rest, b.Waiting) : Shaped (kept (a :: rest)) := by
  have hrest := kept_waiting h
  unfold kept at hrest ⊢
  rw [List.filter_cons_of_pos (by simp [SessionAction.disposable, ha.completed]), hrest]
  exact .working ha h

/-! ## The scan of `process` -/

/-- The actions a packet is offered to behave: one that has not been initiated does not take it,
and one that does not take it neither completes nor errs. -/
def Behaves (answer : Nat → Answer H) : Nat → List SessionAction → Prop
  | _, [] => True
  | index, a :: rest =>
    (answer index).throws = false →
      (a.initiated = false → (answer index).accepts = false) ∧
      ((answer index).accepts = false →
        (answer index).completes = false ∧ (answer index).errs = false) ∧
      (a.stops (answer index) = false → Behaves answer (index + 1) rest)

/-- The scan has passed `rest` and made `tail` of it. -/
structure Passes (s s' : Scan H) (rest tail : List SessionAction) : Prop where
  passed : s'.passed = s.passed ++ tail
  kinds : tail.map (fun a => (a.typeid, a.permanent)) = rest.map fun a => (a.typeid, a.permanent)
  sound : ∀ a ∈ tail, a.errored = false
  count : s'.disposeCount = s.disposeCount + tail.countP SessionAction.disposable

theorem Passes.nil (s : Scan H) : Passes s s [] [] :=
  ⟨(List.append_nil _).symm, rfl, fun _ h => (nomatch h), rfl⟩

/-- One action passed, then those behind it. -/
theorem Passes.cons {s s₁ s' : Scan H} {a a' : SessionAction} {rest tail : List SessionAction}
    (h : Passes s₁ s' rest tail) (hpassed : s₁.passed = s.passed ++ [a'])
    (hkind : (a'.typeid, a'.permanent) = (a.typeid, a.permanent)) (hfine : a'.errored = false)
    (hcount : s₁.disposeCount = s.disposeCount + if a'.disposable then 1 else 0) :
    Passes s s' (a :: rest) (a' :: tail) where
  passed := by
    rw [h.passed, hpassed]
    exact List.append_assoc s.passed [a'] tail
  kinds := by
    rw [List.map_cons, List.map_cons, h.kinds, hkind]
  sound := by
    intro b hb
    rcases List.mem_cons.mp hb with rfl | hb
    · exact hfine
    · exact h.sound b hb
  count := by
    rw [h.count, hcount, List.countP_cons]
    omega

theorem Scan.run_errored (answer : Nat → Answer H) {s : Scan H} (h : s.errored = true)
    (rest : List SessionAction) : (Scan.run answer s rest).errored = true := by
  cases rest with
  | nil => exact h
  | cons a rest =>
    rw [Scan.run, if_pos h]
    exact h

theorem Scan.dispose_fields (s : Scan H) (a : SessionAction) :
    (s.dispose a).passed = s.passed ∧ (s.dispose a).errored = s.errored ∧
      (s.dispose a).thrown = s.thrown ∧ (s.dispose a).initiate = s.initiate ∧
      (s.dispose a).updateLastContacted = s.updateLastContacted ∧
      (s.dispose a).disposeCount = s.disposeCount + if a.permanent then 0 else 1 := by
  unfold Scan.dispose
  split <;> simp

/-- Nothing of it is at work, or it has its phases. -/
def Ready (rest : List SessionAction) : Prop := Shaped rest ∨ ∀ a ∈ rest, a.Waiting

theorem Ready.tail {a : SessionAction} {rest : List SessionAction} (h : Ready (a :: rest)) :
    Ready rest := by
  rcases h with h | h
  · cases h with
    | done _ hrest => exact .inl hrest
    | working _ hrest => exact .inr hrest
  · exact .inr fun b hb => h b (List.mem_cons_of_mem _ hb)

theorem Ready.not_disposable {a : SessionAction} {rest : List SessionAction}
    (h : Ready (a :: rest)) : a.disposable = false := by
  rcases h with h | h
  · exact h.not_disposable a List.mem_cons_self
  · rw [SessionAction.disposable, (h a List.mem_cons_self).completed, Bool.false_and]

/-- Behind an action that is not completed all wait. -/
theorem Ready.waiting {a : SessionAction} {rest : List SessionAction} (h : Ready (a :: rest))
    (hc : a.completed = false) : ∀ b ∈ rest, b.Waiting := by
  rcases h with h | h
  · cases h with
    | done ha _ =>
      rw [ha.completed] at hc
      cases hc
    | working _ hrest => exact hrest
  · exact fun b hb => h b (List.mem_cons_of_mem _ hb)

/-- The phase in which the scan initiates what it gets to. -/
theorem scan_initiating (answer : Nat → Answer H) (rest : List SessionAction) :
    ∀ s : Scan H, s.initiate = true → s.errored = false → Ready rest →
      (∀ a ∈ rest, a.errored = false) → (Scan.run answer s rest).thrown = false →
      (Scan.run answer s rest).errored = false →
      ∃ tail, Passes s (Scan.run answer s rest) rest tail ∧ Shaped (kept tail) ∧
        (Scan.run answer s rest).updateLastContacted = s.updateLastContacted := by
  induction rest with
  | nil =>
    intro s _ _ _ _ _ _
    exact ⟨[], .nil s, .nil, rfl⟩
  | cons a rest ih =>
    intro s hinit herr hready hsound
    rw [Scan.run]
    simp only [herr, hinit, Bool.false_eq_true, if_false, if_true]
    generalize answer s.passed.length = r
    split
    · intro hthrown _
      cases hthrown
    · split
      · next hc =>
        intro hthrown hne
        obtain ⟨hpassed, herr₁, -, hinit₁, hupdate, hcount⟩ := (s.initiated a r).dispose_fields a
        have hfine : (a.started r).errored = false := by
          by_contra hbad
          rw [Scan.run_errored answer (herr₁.trans ((Bool.not_eq_false _).mp hbad))] at hne
          cases hne
        obtain ⟨tail, hpass, hshaped, hup⟩ := ih _ (hinit₁.trans hinit) (herr₁.trans hfine)
          hready.tail (fun b hb => hsound b (List.mem_cons_of_mem _ hb)) hthrown hne
        have hdisp : (a.started r).disposable = !a.permanent := by
          rw [SessionAction.disposable, hc, Bool.true_and]
          rfl
        refine ⟨a.started r :: tail, hpass.cons hpassed rfl hfine ?_, hshaped.kept_cons rfl hc,
          hup.trans hupdate⟩
        rw [hcount, hdisp]
        cases a.permanent <;> rfl
      · next hc =>
        intro _ hne
        have hwork : (a.started r).Working := ⟨rfl, Bool.eq_false_iff.mpr hc⟩
        have hac : a.completed = false := by
          have hor := hwork.completed
          simp only [SessionAction.started, SessionAction.answered, Bool.or_eq_false_iff] at hor
          exact hor.1
        have hwait := hready.waiting hac
        refine ⟨a.started r :: rest, ⟨?_, ?_, ?_, ?_⟩, .kept_working hwork hwait, rfl⟩
        · exact List.append_assoc s.passed [a.started r] rest
        · rfl
        · intro b hb
          rcases List.mem_cons.mp hb with rfl | hb
          · exact hne
          · exact hsound b (List.mem_cons_of_mem _ hb)
        · have hnone : (a.started r :: rest).countP SessionAction.disposable = 0 := by
            rw [List.countP_eq_zero]
            intro b hb
            rw [(Shaped.working hwork hwait).not_disposable b hb]
            exact Bool.false_ne_true
          rw [hnone]
          rfl

theorem Scan.offered_shape (s : Scan H) (a : SessionAction) (r : Answer H) :
    (s.offered a r).updateLastContacted = (s.updateLastContacted || r.accepts) ∧
      (s.offered a r).disposeCount = s.disposeCount +
        if r.accepts && (a.answered r).disposable then 1 else 0 := by
  unfold Scan.offered SessionAction.disposable
  cases hacc : r.accepts <;> cases hc : (a.answered r).completed <;> cases hp : a.permanent <;>
    simp [Scan.dispose, hp, SessionAction.answered]

theorem Scan.run_update (answer : Nat → Answer H) (rest : List SessionAction) (s : Scan H)
    (h : s.updateLastContacted = true) :
    (Scan.run answer s rest).updateLastContacted = true := by
  induction rest generalizing s with
  | nil => exact h
  | cons a rest ih =>
    rw [Scan.run]
    split
    · exact h
    · split
      · split
        · exact h
        · split
          · exact ih _ (((s.initiated a _).dispose_fields a).2.2.2.2.1.trans h)
          · exact h
      · split
        · exact h
        · refine ih _ ((s.offered_shape a _).1.trans ?_)
          rw [h, Bool.true_or]

/-- An action that does not take the packet is as before. -/
theorem SessionAction.answered_refused {a : SessionAction} {r : Answer H}
    (h : r.completes = false ∧ r.errs = false) : a.answered r = a := by
  simp [SessionAction.answered, h.1, h.2]

/-- A stored session is in its phases when the packet has been offered to its first action and
the others have been passed, in the other phase of the scan if that action has completed. -/
theorem Shaped.kept_answered {a : SessionAction} {r : Answer H} {rest tail : List SessionAction}
    (h : Shaped (a :: rest)) (hrefuse : r.accepts = false → r.completes = false ∧ r.errs = false)
    (hshaped : Shaped rest ∨ (r.accepts && (a.answered r).completed) = true → Shaped (kept tail))
    (hwait : (r.accepts && (a.answered r).completed) = false → (∀ b ∈ rest, b.Waiting) →
      tail = rest) : Shaped (kept (a.answered r :: tail)) := by
  cases h with
  | done ha hrest =>
    refine (hshaped (.inl hrest)).kept_cons ha.initiated ?_
    rw [SessionAction.answered, ha.completed]
    rfl
  | working ha hwaiting =>
    cases hc : (a.answered r).completed with
    | true =>
      have hacc : r.accepts = true := by
        by_contra hacc
        rw [SessionAction.answered_refused (hrefuse (Bool.eq_false_iff.mpr hacc)),
          ha.completed] at hc
        cases hc
      exact (hshaped (.inr (by rw [hacc, hc]; rfl))).kept_cons ha.initiated hc
    | false =>
      rw [hwait (by rw [hc, Bool.and_false]) hwaiting]
      exact .kept_working ⟨ha.initiated, hc⟩ hwaiting

/-- The phase in which the scan offers the packet. -/
theorem scan_offering (answer : Nat → Answer H) (rest : List SessionAction) :
    ∀ s : Scan H, s.initiate = false → s.errored = false → Ready rest →
      (∀ a ∈ rest, a.errored = false) → Behaves answer s.passed.length rest →
      (Scan.run answer s rest).thrown = false → (Scan.run answer s rest).errored = false →
      ∃ tail, Passes s (Scan.run answer s rest) rest tail ∧ (Shaped rest → Shaped (kept tail)) ∧
        ((∀ a ∈ rest, a.Waiting) → tail = rest) ∧
        ((Scan.run answer s rest).updateLastContacted = false → tail = rest) := by
  induction rest with
  | nil =>
    intro s _ _ _ _ _ _ _
    exact ⟨[], .nil s, fun _ => .nil, fun _ => rfl, fun _ => rfl⟩
  | cons a rest ih =>
    intro s hinit herr hready hsound hbehaves
    rw [Scan.run]
    rw [Behaves] at hbehaves
    simp only [herr, hinit, Bool.false_eq_true, if_false]
    generalize answer s.passed.length = r at hbehaves
    split
    · intro hthrown _
      cases hthrown
    · next hnothrow =>
      intro hthrown hne
      have hnothrow : r.throws = false := Bool.eq_false_iff.mpr hnothrow
      obtain ⟨hidle, hrefuse, hnext⟩ := hbehaves hnothrow
      obtain ⟨hpassed, herr₁, -, hinit₁, -⟩ := s.offered_fields a r
      obtain ⟨hupdate, hcount⟩ := s.offered_shape a r
      have hfine : (a.answered r).errored = false := by
        by_contra hbad
        rw [Scan.run_errored answer (herr₁.trans ((Bool.not_eq_false _).mp hbad))] at hne
        cases hne
      have hrestsound : ∀ b ∈ rest, b.errored = false :=
        fun b hb => hsound b (List.mem_cons_of_mem _ hb)
      -- what is behind is passed in one phase or the other
      obtain ⟨tail, hpass, hshaped, hwait, hsame⟩ : ∃ tail,
          Passes (s.offered a r) (Scan.run answer (s.offered a r) rest) rest tail ∧
          (Shaped rest ∨ (r.accepts && (a.answered r).completed) = true → Shaped (kept tail)) ∧
          ((r.accepts && (a.answered r).completed) = false → (∀ b ∈ rest, b.Waiting) →
            tail = rest) ∧
          ((Scan.run answer (s.offered a r) rest).updateLastContacted = false → tail = rest) := by
        cases hturn : r.accepts && (a.answered r).completed with
        | true =>
          obtain ⟨tail, hpass, hshaped, hup⟩ := scan_initiating answer rest (s.offered a r)
            (by rw [hinit₁, hturn, Bool.or_true]) (herr₁.trans hfine) hready.tail hrestsound
            hthrown hne
          refine ⟨tail, hpass, fun _ => hshaped, fun hf => Bool.noConfusion hf, fun hno => ?_⟩
          rw [hup, hupdate, (Bool.and_eq_true_iff.mp hturn).1, Bool.or_true] at hno
          cases hno
        | false =>
          have hstops : a.stops r = false := by
            rw [SessionAction.stops, hnothrow, hfine, hturn]
            rfl
          obtain ⟨tail, hpass, hshaped, hwait, hsame⟩ := ih (s.offered a r)
            (by rw [hinit₁, hinit, hturn]; rfl) (herr₁.trans hfine) hready.tail hrestsound
            (by rw [hpassed, List.length_append, List.length_singleton]; exact hnext hstops)
            hthrown hne
          refine ⟨tail, hpass, fun h => ?_, fun _ => hwait, hsame⟩
          rcases h with h | h
          · exact hshaped h
          · cases h
      have hdisp : (r.accepts && (a.answered r).disposable) = (a.answered r).disposable := by
        cases hacc : r.accepts with
        | true => exact Bool.true_and _
        | false =>
          rw [SessionAction.answered_refused (hrefuse hacc), hready.not_disposable,
            Bool.false_and]
      rw [hdisp] at hcount
      refine ⟨a.answered r :: tail, hpass.cons hpassed rfl hfine hcount,
        fun hshape => hshape.kept_answered hrefuse hshaped hwait, fun hall => ?_, fun hno => ?_⟩
      · have ha := hall a List.mem_cons_self
        have hacc := hidle ha.initiated
        rw [SessionAction.answered_refused (hrefuse hacc),
          hwait (by rw [hacc, Bool.false_and]) fun b hb => hall b (List.mem_cons_of_mem _ hb)]
      · have hacc : r.accepts = false := by
          by_contra hacc
          have hlate : (s.offered a r).updateLastContacted = true := by
            rw [hupdate, (Bool.not_eq_false _).mp hacc, Bool.or_true]
          rw [Scan.run_update answer rest _ hlate] at hno
          cases hno
        rw [SessionAction.answered_refused (hrefuse hacc), hsame hno]

/-! ## The loop of `add` -/

/-- No action has erred, and the loop knows the types of the permanent ones, which differ. -/
structure Sorted (s : Adding H) : Prop where
  sound : ∀ a ∈ s.actions, a.errored = false
  types : ((s.actions.filter SessionAction.permanent).map SessionAction.typeid).Nodup
  existing : ∀ a ∈ s.actions, a.permanent → a.typeid ∈ s.existingPermanentActions

/-- The actions have their phases while new ones are added. -/
structure Gathered (s : Adding H) : Prop extends Sorted s where
  shaped : Shaped s.actions
  previous : s.previousCompleted = s.actions.all SessionAction.completed

theorem Shaped.all_completed {actions : List SessionAction} (h : Shaped actions) :
    actions.getLast?.all SessionAction.completed = actions.all SessionAction.completed := by
  induction h with
  | nil => rfl
  | @done a rest ha _ ih =>
    rw [List.all_cons, ha.completed, Bool.true_and, ← ih]
    cases rest with
    | nil => rw [List.getLast?_singleton, Option.all_some, ha.completed]; rfl
    | cons b rest => rw [List.getLast?_cons_cons]
  | @working a rest ha hrest =>
    rw [List.all_cons, ha.completed, Bool.false_and]
    obtain ⟨last, hlast⟩ : ∃ last, (a :: rest).getLast? = some last :=
      ⟨_, List.getLast?_eq_some_getLast (List.cons_ne_nil a rest)⟩
    rw [hlast, Option.all_some]
    rcases List.mem_cons.mp (List.mem_of_getLast? hlast) with rfl | hm
    · exact ha.completed
    · exact (hrest last hm).completed

theorem Shaped.append_initiated {actions : List SessionAction} (h : Shaped actions)
    (hall : actions.all SessionAction.completed) {a : SessionAction} (ha : a.Done ∨ a.Working) :
    Shaped (actions ++ [a]) := by
  induction h with
  | nil =>
    rcases ha with ha | ha
    · exact .done ha .nil
    · exact .working ha fun _ hb => (nomatch hb)
  | done hb _ ih =>
    rw [List.all_cons, Bool.and_eq_true] at hall
    exact .done hb (ih hall.2)
  | working hb _ =>
    rw [List.all_cons, hb.completed] at hall
    cases hall

theorem Shaped.append_waiting {actions : List SessionAction} (h : Shaped actions)
    (hall : actions.all SessionAction.completed = false) {a : SessionAction} (ha : a.Waiting) :
    Shaped (actions ++ [a]) := by
  induction h with
  | nil => cases hall
  | done hb _ ih =>
    rw [List.all_cons, hb.completed, Bool.true_and] at hall
    exact .done hb (ih hall)
  | working hb hrest =>
    refine .working hb fun c hc => ?_
    rcases List.mem_append.mp hc with hc | hc
    · exact hrest c hc
    · exact List.mem_singleton.mp hc ▸ ha

theorem Sorted.keep {s : Adding H} (h : Sorted s) {a : SessionAction}
    (hnew : a.typeid ∉ s.existingPermanentActions) (hsound : a.errored = false) :
    Sorted (s.keep a) := by
  unfold Adding.keep
  split
  · refine ⟨fun b hb => ?_, ?_, fun b hb hp => ?_⟩
    · rcases List.mem_append.mp hb with hb | hb
      · exact h.sound b hb
      · exact List.mem_singleton.mp hb ▸ hsound
    · dsimp only
      rw [List.filter_append, List.map_append, List.nodup_append]
      refine ⟨h.types, ?_, fun x hx y hy => ?_⟩
      · cases hp : a.permanent <;> simp [hp]
      · obtain ⟨b, hb, rfl⟩ := List.mem_map.mp hx
        obtain ⟨c, hc, rfl⟩ := List.mem_map.mp hy
        obtain rfl := List.mem_singleton.mp (List.mem_filter.mp hc).1
        obtain ⟨hb, hp⟩ := List.mem_filter.mp hb
        exact fun he => hnew (he ▸ h.existing b hb hp)
    · dsimp only at hb ⊢
      rcases List.mem_append.mp hb with hb | hb
      · split
        · exact List.mem_cons_of_mem _ (h.existing b hb hp)
        · exact h.existing b hb hp
      · obtain rfl := List.mem_singleton.mp hb
        rw [if_pos hp]
        exact List.mem_cons_self
  · exact h

theorem Adding.keep_fields (s : Adding H) (a : SessionAction) :
    (s.keep a).previousCompleted = s.previousCompleted ∧
      (s.keep a).errored = s.errored ∧ (s.keep a).thrown = s.thrown ∧
      (s.keep a).actions = if !a.completed || a.permanent then s.actions ++ [a] else s.actions := by
  unfold Adding.keep
  split <;> simp

/-- The loop once `initiate` has returned, before the action is kept. -/
def Adding.called (s : Adding H) (a : SessionAction) (r : Answer H) : Adding H :=
  { s with
    header := r.header s.header
    updateLastContacted := true
    previousCompleted := (a.started r).completed
    events := s.events ++ [.initiate a s.actions] }

theorem Adding.initiated_eq (s : Adding H) {a : SessionAction} {r : Answer H}
    (hfine : (a.started r).errored = false) :
    s.initiated a r = (s.called a r).keep (a.started r) := by
  unfold Adding.initiated
  dsimp only
  rw [if_neg (by rw [hfine]; exact Bool.false_ne_true)]
  rfl

/-- The action has been initiated, behind others that are all completed. -/
theorem Gathered.initiated {s : Adding H} (h : Gathered s) (hprev : s.previousCompleted)
    {a : SessionAction} {r : Answer H} (hnew : a.typeid ∉ s.existingPermanentActions)
    (hfine : (a.started r).errored = false) :
    Gathered (s.initiated a r) ∧ (s.initiated a r).errored = s.errored := by
  have hall : s.actions.all SessionAction.completed = true := h.previous.symm.trans hprev
  rw [s.initiated_eq hfine]
  obtain ⟨hp, he, -, hactions⟩ := (s.called a r).keep_fields (a.started r)
  have hold : (s.called a r).actions = s.actions := rfl
  rw [hold] at hactions
  have hcalled : Sorted (s.called a r) := ⟨h.sound, h.types, h.existing⟩
  have hsorted : Sorted ((s.called a r).keep (a.started r)) := hcalled.keep hnew hfine
  refine ⟨⟨hsorted, ?_, ?_⟩, he⟩
  · rw [hactions]
    split
    · next hkept =>
      refine h.shaped.append_initiated hall ?_
      cases hc : (a.started r).completed with
      | true =>
        rw [hc, Bool.not_true, Bool.false_or] at hkept
        exact .inl ⟨rfl, hc, hkept⟩
      | false => exact .inr ⟨rfl, hc⟩
    · exact h.shaped
  · rw [hp, hactions]
    split
    · rw [List.all_append, hall, Bool.true_and, List.all_cons, List.all_nil, Bool.and_true]
      rfl
    · next hdropped =>
      simp only [Bool.or_eq_true, not_or, Bool.not_eq_true'] at hdropped
      rw [hall]
      exact (Bool.not_eq_false _).mp hdropped.1

/-- The action waits behind one that is at work. -/
theorem Gathered.waits {s : Adding H} (h : Gathered s) (hprev : s.previousCompleted = false)
    {a : SessionAction} (hnew : a.typeid ∉ s.existingPermanentActions) (ha : a.Waiting)
    (hfine : a.errored = false) : Gathered (s.keep a) := by
  have hall : s.actions.all SessionAction.completed = false := h.previous.symm.trans hprev
  obtain ⟨hp, -, -, hactions⟩ := s.keep_fields a
  rw [ha.completed, Bool.not_false, Bool.true_or, if_pos rfl] at hactions
  refine ⟨h.toSorted.keep hnew hfine, ?_, ?_⟩
  · rw [hactions]
    exact h.shaped.append_waiting hall ha
  · rw [hp, hactions, hprev, List.all_append, hall, Bool.false_and]

theorem Gathered.run (answer : Nat → Answer H) (rest : List SessionAction) :
    ∀ (index : Nat) (s : Adding H), Gathered s → (∀ a ∈ rest, a.Waiting ∧ a.errored = false) →
      (Adding.run answer index s rest).thrown = false →
      (Adding.run answer index s rest).errored = false →
      Gathered (Adding.run answer index s rest) := by
  induction rest with
  | nil =>
    intro index s h _ _ _
    exact h
  | cons a rest ih =>
    intro index s h hnews
    obtain ⟨hwait, hfine⟩ := hnews a List.mem_cons_self
    have hrest := fun b hb => hnews b (List.mem_cons_of_mem _ hb)
    rw [Adding.run]
    generalize answer index = r
    split
    · exact ih _ _ h hrest
    · next hnew =>
      split
      · next hprev =>
        split
        · intro hthrown
          cases hthrown
        · split
          · next hbad =>
            intro _ hne
            unfold Adding.initiated at hne
            dsimp only at hne
            rw [if_pos hbad] at hne
            cases hne
          · next hgood =>
            exact ih _ _ (h.initiated hprev hnew (Bool.eq_false_iff.mpr hgood)).1 hrest
      · next hprev =>
        exact ih _ _ (h.waits (Bool.eq_false_iff.mpr hprev) hnew hwait hfine) hrest

/-! ## The manager -/

/-- What the manager keeps of each session. -/
structure Stored (actions : List SessionAction) : Prop where
  nonempty : actions ≠ []
  shaped : Shaped actions
  sound : ∀ a ∈ actions, a.errored = false
  types : ((actions.filter SessionAction.permanent).map SessionAction.typeid).Nodup

theorem Stored.sessionShape {actions : List SessionAction} (h : Stored actions) :
    SessionShape actions := ⟨h.nonempty, h.shaped.phases, h.sound, h.types⟩

/-- The scan of a stored session, when it neither throws nor errs. -/
theorem Stored.scan {answer : Nat → Answer H} {actions : List SessionAction} (h : Stored actions)
    (hb : Behaves answer 0 actions) (header : H)
    (hthrown : (Scan.run answer (.start header) actions).thrown = false)
    (hne : (Scan.run answer (.start header) actions).errored = false) :
    ((Scan.run answer (.start header) actions).disposeCount ≠ actions.length →
      Stored (kept (Scan.run answer (.start header) actions).passed)) ∧
    ((Scan.run answer (.start header) actions).updateLastContacted = false →
      Stored (Scan.run answer (.start header) actions).passed) := by
  obtain ⟨tail, hpass, hshaped, -, hsame⟩ := scan_offering answer actions (.start header) rfl rfl
    (.inl h.shaped) h.sound hb hthrown hne
  have hpassed : (Scan.run answer (.start header) actions).passed = tail := hpass.passed
  have hlength : tail.length = actions.length := by
    simpa using congrArg List.length hpass.kinds
  have htypes : ((tail.filter SessionAction.permanent).map SessionAction.typeid).Nodup := by
    have hall : ∀ l : List SessionAction,
        (l.filter SessionAction.permanent).map SessionAction.typeid =
          ((l.map fun a => (a.typeid, a.permanent)).filter Prod.snd).map Prod.fst := by
      intro l
      rw [List.filter_map, List.map_map]
      rfl
    rw [hall, hpass.kinds, ← hall]
    exact h.types
  rw [hpassed]
  refine ⟨fun hcount => ⟨fun hnil => hcount ?_, hshaped h.shaped, fun a ha => ?_, ?_⟩,
    fun hno => ?_⟩
  · rw [hpass.count, ← hlength]
    refine (Nat.zero_add _).trans (List.countP_eq_length.mpr fun a ha => ?_)
    by_contra hkept
    have hmem : a ∈ kept tail := List.mem_filter.mpr ⟨ha, by simpa using hkept⟩
    rw [hnil] at hmem
    cases hmem
  · exact hpass.sound a (List.mem_filter.mp ha).1
  · exact htypes.sublist ((List.filter_sublist.filter _).map _)
  · rw [hsame hno]
    exact h

/-- The actions of a session and new ones, when `add` neither throws nor errs. -/
theorem Stored.adding {answer : Nat → Answer H} {session : Session H} {news : List SessionAction}
    (h : session.actions = [] ∨ Stored session.actions)
    (hnews : ∀ a ∈ news, a.Waiting ∧ a.errored = false)
    (hthrown : (Adding.run answer 0 (.start session) news).thrown = false)
    (hne : (Adding.run answer 0 (.start session) news).errored = false)
    (hnil : (Adding.run answer 0 (.start session) news).actions ≠ []) :
    Stored (Adding.run answer 0 (.start session) news).actions := by
  have hstart : Gathered (.start session) := by
    have hold : Shaped session.actions ∧ (∀ a ∈ session.actions, a.errored = false) ∧
        ((session.actions.filter SessionAction.permanent).map SessionAction.typeid).Nodup := by
      rcases h with h | h
      · rw [h]
        exact ⟨.nil, fun a ha => (nomatch ha), List.nodup_nil⟩
      · exact ⟨h.shaped, h.sound, h.types⟩
    refine ⟨⟨hold.2.1, hold.2.2, fun a ha hp => ?_⟩, hold.1, hold.1.all_completed⟩
    exact List.mem_map_of_mem (List.mem_filter.mpr ⟨ha, hp⟩)
  have hrun := Gathered.run answer news 0 (.start session) hstart hnews hthrown hne
  exact ⟨hnil, hrun.shaped, hrun.sound, hrun.types⟩

namespace SessionManager

/-- The sessions but the one at `index` are stored. -/
def StoredBut (m : SessionManager H) (index : Nat) : Prop :=
  ∀ (i : Nat) (s : Session H), i ≠ index → m.sessions[i]? = some s → Stored s.actions

def AllStored (m : SessionManager H) : Prop := ∀ s ∈ m.sessions, Stored s.actions

theorem AllStored.but {m : SessionManager H} (h : m.AllStored) (index : Nat) :
    m.StoredBut index := fun _ s _ hs => h s (List.mem_of_getElem? hs)

theorem StoredBut.eraseAt {m : SessionManager H} {index : Nat} (h : m.StoredBut index) :
    (m.eraseAt index).AllStored := by
  intro s hs
  obtain ⟨i, hi, hget⟩ := List.mem_eraseIdx_iff_getElem?.mp hs
  exact h i s hi hget

theorem StoredBut.setAt {m : SessionManager H} {index : Nat} (h : m.StoredBut index)
    {session : Session H} (hs : Stored session.actions) : (m.setAt index session).AllStored := by
  intro s hm
  obtain ⟨i, hi⟩ := List.mem_iff_getElem?.mp hm
  by_cases hne : i = index
  · have hlt : index < m.sessions.length := by
      have := (List.getElem?_eq_some_iff.mp hi).1
      simpa [SessionManager.setAt, hne] using this
    rw [hne, SessionManager.setAt, List.getElem?_set_self hlt] at hi
    obtain rfl := Option.some.inj hi
    exact hs
  · rw [SessionManager.setAt, List.getElem?_set_ne (Ne.symm hne)] at hi
    exact h i s hne hi

variable [HeaderKeys H]

theorem StoredBut.replaceAt {m : SessionManager H} {index : Nat} (h : m.StoredBut index)
    {session : Session H} (hs : Stored session.actions) :
    (m.replaceAt index session).AllStored := by
  unfold SessionManager.replaceAt
  split
  · exact h.eraseAt
  · exact h.setAt hs

variable [DecidableEq H]

theorem AllStored.processAt {m : SessionManager H} (h : m.AllStored) {index : Nat}
    {session : Session H} (hs : m.sessions[index]? = some session) (now : Nat)
    {answer : Nat → Answer H} (hb : Behaves answer 0 session.actions) :
    (m.processAt index session now answer).2.AllStored := by
  have hbut := h.but index
  have hstored := h session (List.mem_of_getElem? hs)
  unfold SessionManager.processAt
  dsimp only
  split
  · exact hbut.eraseAt
  · next hthrown =>
    split
    · exact hbut.eraseAt
    · next hne =>
      obtain ⟨hkept, hsame⟩ := hstored.scan hb session.header (Bool.eq_false_iff.mpr hthrown)
        (Bool.eq_false_iff.mpr hne)
      split
      · exact hbut.eraseAt
      · next hcount =>
        split
        · exact hbut.replaceAt (hkept hcount)
        · next hno =>
          exact hbut.setAt (hsame (Bool.eq_false_iff.mpr fun hup => hno (.inr hup)))

theorem StoredBut.addAt {m : SessionManager H} {index : Nat} (h : m.StoredBut index)
    {session : Session H} (hs : session.actions = [] ∨ Stored session.actions)
    {news : List SessionAction} (hnews : ∀ a ∈ news, a.Waiting ∧ a.errored = false)
    (waitDuration now : Nat) (answer : Nat → Answer H) :
    (m.addAt index session news waitDuration now answer).2.AllStored := by
  unfold SessionManager.addAt
  dsimp only
  split
  · exact h.eraseAt
  · next hthrown =>
    split
    · exact h.eraseAt
    · next hne =>
      split
      · exact h.eraseAt
      · next hnil =>
        have hadd := Stored.adding hs hnews (Bool.eq_false_iff.mpr hthrown)
          (Bool.eq_false_iff.mpr hne) hnil
        split
        · exact h.replaceAt hadd
        · exact h.setAt hadd

omit [HeaderKeys H] [DecidableEq H] in
theorem number_waiting (m : SessionManager H) (actions : List NewAction) :
    ∀ a ∈ m.number actions, a.Waiting ∧ a.errored = false := by
  intro a ha
  obtain ⟨n, -, rfl⟩ := List.mem_map.mp ha
  exact ⟨⟨rfl, rfl⟩, rfl⟩

theorem AllStored.add {m : SessionManager H} (h : m.AllStored) (header : H)
    (actions : List NewAction) (waitDuration now : Nat) (answer : Nat → Answer H) :
    (m.add header actions waitDuration now answer).2.AllStored := by
  have hnews := m.number_waiting actions
  unfold SessionManager.add
  split
  · exact h
  · dsimp only
    cases hb : SessionManager.blocking { m with nextId := m.nextId + actions.length } header with
    | none =>
      refine StoredBut.addAt (fun i s hi hs => ?_) (.inl rfl) hnews waitDuration now answer
      have hold : i < m.sessions.length := by
        have hlt := (List.getElem?_eq_some_iff.mp hs).1
        simp only [List.length_append, List.length_singleton] at hlt
        omega
      dsimp only at hs
      rw [List.getElem?_append_left hold] at hs
      exact h s (List.mem_of_getElem? hs)
    | some it =>
      dsimp only
      split
      · have hbut : StoredBut { m with nextId := m.nextId + actions.length } it.1 := h.but it.1
        exact hbut.addAt (.inr (h it.2 (List.mem_of_getElem? (blocking_spec hb)))) hnews
          waitDuration now answer
      · exact h

theorem AllStored.process {m : SessionManager H} (h : m.AllStored) (peerid : String) (now : Nat)
    {answer : Nat → Answer H} (hb : Behaves answer 0 (m.contacted peerid)) :
    (m.process peerid now answer).2.AllStored := by
  unfold SessionManager.process
  unfold SessionManager.contacted at hb
  split
  · exact h
  · next hne =>
    rw [if_neg hne] at hb
    cases hf : m.findPeer peerid with
    | none => exact h
    | some it =>
      rw [hf] at hb
      exact h.processAt (first_spec hf) now hb

/-- The actions that `process` offers the packet to behave. -/
def MeetsBehaviour (m : SessionManager H) : SessionOp H → Prop
  | .process peerid _ answer => Behaves answer 0 (m.contacted peerid)
  | _ => True

theorem AllStored.step {m : SessionManager H} (h : m.AllStored) (op : SessionOp H)
    (hb : m.MeetsBehaviour op) : (m.step op).2.AllStored := by
  cases op with
  | add header actions waitDuration now answer => exact h.add header actions waitDuration now answer
  | process peerid now answer => exact h.process peerid now hb
  | remove peerid =>
    simp only [SessionManager.step, SessionManager.remove]
    split
    · exact h
    · exact (h.but _).eraseAt
  | eraseAllPending now => exact fun s hs => h s (List.mem_filter.mp hs).1

/-- **Every stored session keeps its shape, over every run.** -/
theorem run_sessionShape {ops : List (SessionOp H)}
    (hb : Meets SessionManager.step MeetsBehaviour (.init : SessionManager H) ops) :
    ∀ s ∈ (final SessionManager.step (.init : SessionManager H) ops).sessions,
      SessionShape s.actions := by
  have hinit : (SessionManager.init : SessionManager H).AllStored := fun s hs => (nomatch hs)
  have hstep : ∀ (m : SessionManager H) op, m.AllStored → m.MeetsBehaviour op →
      (m.step op).2.AllStored := fun m op h hb => h.step op hb
  have hrun := invariant_final hstep hinit hb
  exact fun s hs => (hrun s hs).sessionShape

end SessionManager

/-- Three actions, of which the first stays in its session when it has completed. -/
def chain : List (SessionOp SessionHeader) :=
  [.add ⟨"p"⟩ [⟨0, true⟩, ⟨1, false⟩, ⟨2, false⟩] 10 0 fun _ => ⟨false, false, false, false, id⟩,
    .process "p" 1 fun index => ⟨index == 0, index == 0, false, false, id⟩]

theorem run_sessionShape_chain : (final SessionManager.step .init chain).sessions.length = 1 ∧
    ∀ s ∈ (final SessionManager.step .init chain).sessions, SessionShape s.actions := by
  refine ⟨by decide, SessionManager.run_sessionShape ⟨trivial, ?_, trivial⟩⟩
  intro _
  refine ⟨fun h => (nomatch h), fun h => (nomatch h), fun h => (nomatch h)⟩

end MeshPP.SessionUtility
