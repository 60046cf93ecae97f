import MeshPP.SessionUtility.Offers

/-! # In which order actions are initiated

In a session the initiated actions are in front, and each of them but the last
is completed (`Ordered`). An action that completes hands over to the one behind
it, so the order is kept as long as nothing completes out of turn: an action
that has not been initiated is left alone by the packets it is offered, and one
that is completed accepts no packet while the one behind it is at work. -/

namespace MeshPP.SessionUtility
open MeshPP.Lib

variable {H : Type}

/-- The actions `initiate` was called on, each with those in front of it. -/
def initiates (events : List SessionEvent) : List (SessionAction × List SessionAction) :=
  events.filterMap fun
    | .initiate a before => some (a, before)
    | .offer _ _ => none

@[simp] theorem initiates_append (es fs : List SessionEvent) :
    initiates (es ++ fs) = initiates es ++ initiates fs := List.filterMap_append

@[simp] theorem initiates_initiate (a : SessionAction) (before : List SessionAction) :
    initiates [.initiate a before] = [(a, before)] := rfl

@[simp] theorem initiates_offer (a : SessionAction) (accepted : Bool) :
    initiates [.offer a accepted] = [] := rfl

/-- Each action is initiated at most once, when all in front of it are completed. -/
structure InSequence (es : List (SessionAction × List SessionAction)) : Prop where
  once : (es.map fun e => e.1.id).Nodup
  ready : ∀ e ∈ es, ∀ a ∈ e.2, a.completed

/-- In its scan `process` meets no action that completes before it was initiated, and
none that accepts the packet again while the one behind it has been initiated. Where an
action errs or throws, the session ends. -/
def InTurn (answer : Nat → Answer H) : Nat → List SessionAction → Prop
  | _, [] => True
  | index, a :: rest =>
    (answer index).throws = false → (a.answered (answer index)).errored = false →
      (a.initiated = false → (answer index).completes = false) ∧
      (a.completed → (answer index).accepts → ∀ b ∈ rest.head?, b.initiated = false) ∧
      (a.stops (answer index) = false → InTurn answer (index + 1) rest)

def SessionManager.MeetsTurn [DecidableEq H] [HeaderKeys H] (m : SessionManager H) :
    SessionOp H → Prop
  | .process peerid _ answer => InTurn answer 0 (m.contacted peerid)
  | _ => True

/-! ## One session -/

structure Ordered (actions : List SessionAction) : Prop where
  pairwise : actions.Pairwise fun a b => b.initiated → a.completed
  initiated : ∀ a ∈ actions, a.completed → a.initiated

theorem Ordered.sublist {l l' : List SessionAction} (h : Ordered l) (hs : l'.Sublist l) :
    Ordered l' :=
  ⟨h.pairwise.sublist hs, fun a ha => h.initiated a (hs.subset ha)⟩

theorem Ordered.all_completed {l : List SessionAction} (h : Ordered l)
    (hlast : l.getLast?.all SessionAction.completed) : ∀ a ∈ l, a.completed := by
  rcases List.eq_nil_or_concat l with rfl | ⟨front, last, rfl⟩
  · intro a ha
    cases ha
  · rw [List.concat_eq_append] at h hlast ⊢
    have hc : last.completed := by simpa using hlast
    intro a ha
    rcases List.mem_append.mp ha with ha | ha
    · exact (List.pairwise_append.mp h.pairwise).2.2 a ha last (by simp)
        (h.initiated last (by simp) hc)
    · rw [List.mem_singleton.mp ha]
      exact hc

/-- Behind an action that has not been initiated, none has. -/
theorem Ordered.not_initiated {b : SessionAction} {l : List SessionAction}
    (h : Ordered (b :: l)) (hb : b.initiated = false) : ∀ c ∈ b :: l, c.initiated = false := by
  intro c hc
  rcases List.mem_cons.mp hc with rfl | hc
  · exact hb
  · rw [Bool.eq_false_iff]
    intro hi
    have := h.initiated b (by simp) ((List.pairwise_cons.mp h.pairwise).1 c hc hi)
    rw [hb] at this
    cases this

/-- What the calls of one operation keep to, over the actions they may be about. -/
structure Log (pool : List SessionAction) (es : List (SessionAction × List SessionAction)) :
    Prop extends InSequence es where
  mem : ∀ e ∈ es, e.1 ∈ pool
  fresh : ∀ e ∈ es, e.1.initiated = false

theorem Log.nil (pool : List SessionAction) : Log pool [] where
  once := List.nodup_nil
  ready _ he := by cases he
  mem _ he := by cases he
  fresh _ he := by cases he

theorem Log.snoc {pool : List SessionAction} {es : List (SessionAction × List SessionAction)}
    (h : Log pool es) {a : SessionAction} {before : List SessionAction} (ha : a ∈ pool)
    (hi : a.initiated = false) (hb : ∀ b ∈ before, b.completed)
    (hn : a.id ∉ es.map fun e => e.1.id) : Log pool (es ++ [(a, before)]) := by
  have hcases : ∀ {P : SessionAction × List SessionAction → Prop}, (∀ e ∈ es, P e) →
      P (a, before) → ∀ e ∈ es ++ [(a, before)], P e := fun hold hnew e he =>
    (List.mem_append.mp he).elim (hold e) fun he => List.mem_singleton.mp he ▸ hnew
  refine ⟨⟨?_, hcases h.ready hb⟩, hcases h.mem ha, hcases h.fresh hi⟩
  rw [List.map_append, List.nodup_append]
  refine ⟨h.once, by simp, fun x hx y hy he => ?_⟩
  rw [List.map_singleton, List.mem_singleton] at hy
  exact hn (hy ▸ he ▸ hx)

/-- What an operation makes of the actions in `pool`: it leaves `actions`. -/
structure Turn (pool : List SessionAction) (es : List (SessionAction × List SessionAction))
    (actions : List SessionAction) : Prop extends Log pool es where
  ids : (actions.map SessionAction.id).Sublist (pool.map SessionAction.id)
  ordered : Ordered actions
  unstarted : ∀ a ∈ actions, a.initiated = false →
    (∃ b ∈ pool, b.id = a.id ∧ b.initiated = false) ∧ a.id ∉ es.map fun e => e.1.id

/-- The session is erased. -/
theorem Log.erased {pool : List SessionAction} {es : List (SessionAction × List SessionAction)}
    (h : Log pool es) : Turn pool es [] where
  toLog := h
  ids := List.nil_sublist _
  ordered := ⟨.nil, fun _ ha => by cases ha⟩
  unstarted _ ha := by cases ha

theorem Turn.sublist {pool actions actions' : List SessionAction}
    {es : List (SessionAction × List SessionAction)} (h : Turn pool es actions)
    (hs : actions'.Sublist actions) : Turn pool es actions' where
  toLog := h.toLog
  ids := (hs.map _).trans h.ids
  ordered := h.ordered.sublist hs
  unstarted a ha := h.unstarted a (hs.subset ha)

/-! ## The scan of `process` -/

/-- The scan stands in front of `rest`. -/
structure Tracks (pool : List SessionAction) (s : Scan H) (rest : List SessionAction) : Prop where
  suffix : rest <:+ pool
  ids : (s.passed ++ rest).map SessionAction.id = pool.map SessionAction.id
  log : Log pool (initiates s.events)
  passed : ∀ e ∈ initiates s.events, e.1.id ∈ s.passed.map SessionAction.id
  kept : s.errored = false → s.thrown = false → Ordered (s.passed ++ rest) ∧
    ∀ a ∈ s.passed ++ rest, a.initiated = false →
      (∃ b ∈ pool, b.id = a.id ∧ b.initiated = false) ∧
        a.id ∉ (initiates s.events).map fun e => e.1.id

/-- When the scan initiates, everything behind it is completed, and nothing in front of
it has been initiated. -/
structure Armed (s : Scan H) (rest : List SessionAction) : Prop where
  completed : s.errored = false → s.initiate → ∀ a ∈ s.passed, a.completed
  waiting : s.errored = false → s.initiate → ∀ a ∈ rest, a.initiated = false

theorem Tracks.leave {pool : List SessionAction} {s : Scan H} {rest : List SessionAction}
    (h : Tracks pool s rest) : Tracks pool (s.leave rest) [] where
  suffix := List.nil_suffix
  ids := by rw [List.append_nil]; exact h.ids
  log := h.log
  passed e he := by
    show _ ∈ (s.passed ++ rest).map _
    rw [List.map_append]
    exact List.mem_append_left _ (h.passed e he)
  kept he ht := by rw [List.append_nil]; exact h.kept he ht

/-- The numbers of the actions in front of the scan are not those of the actions it
has initiated. -/
theorem Tracks.id_notMem {pool : List SessionAction} {s : Scan H} {a : SessionAction}
    {rest : List SessionAction} (h : Tracks pool s (a :: rest))
    (hn : (pool.map SessionAction.id).Nodup) :
    a.id ∉ (initiates s.events).map fun e => e.1.id := by
  rw [← h.ids, List.map_append, List.nodup_append] at hn
  intro hin
  obtain ⟨e, he, hid⟩ := List.mem_map.mp hin
  exact hn.2.2 _ (h.passed e he) a.id (by simp) hid

theorem Scan.offered_fields (s : Scan H) (a : SessionAction) (r : Answer H) :
    (s.offered a r).passed = s.passed ++ [a.answered r] ∧
      (s.offered a r).errored = (a.answered r).errored ∧ (s.offered a r).thrown = s.thrown ∧
      (s.offered a r).initiate = (s.initiate || r.accepts && (a.answered r).completed) ∧
      initiates (s.offered a r).events = initiates s.events := by
  unfold Scan.offered
  cases hacc : r.accepts <;> cases hc : (a.answered r).completed <;> cases hp : a.permanent <;>
    simp [Scan.dispose, hp]

theorem Scan.dispose_eq (s : Scan H) (a : SessionAction) :
    ∃ n, s.dispose a = { s with disposeCount := n } := by
  unfold Scan.dispose
  split
  · exact ⟨_, rfl⟩
  · exact ⟨_, rfl⟩

theorem Ordered.replace {front rest : List SessionAction} {a a' : SessionAction}
    (h : Ordered (front ++ a :: rest)) (hc : a.completed → a'.completed)
    (hi : a'.initiated → a.initiated ∨ ∀ b ∈ front, b.completed)
    (hd : a'.completed → a'.initiated) : Ordered (front ++ a' :: rest) := by
  obtain ⟨hfront, htail, hcross⟩ := List.pairwise_append.mp h.pairwise
  obtain ⟨ha, hrest⟩ := List.pairwise_cons.mp htail
  refine ⟨List.pairwise_append.mpr ⟨hfront, List.pairwise_cons.mpr
    ⟨fun b hb hbi => hc (ha b hb hbi), hrest⟩, ?_⟩, ?_⟩
  · intro b hb c hcm hci
    rcases List.mem_cons.mp hcm with rfl | hcm
    · rcases hi hci with hi | hi
      · exact hcross b hb a (by simp) hi
      · exact hi b hb
    · exact hcross b hb c (by simp [hcm]) hci
  · intro b hb hbc
    rcases List.mem_append.mp hb with hb | hb
    · exact h.initiated b (by simp [hb]) hbc
    · rcases List.mem_cons.mp hb with rfl | hb
      · exact hd hbc
      · exact h.initiated b (by simp [hb]) hbc

/-- In its turn only an action that has been initiated becomes completed. -/
theorem SessionAction.initiated_of_answered {a : SessionAction} {r : Answer H}
    (ha : a.completed → a.initiated) (hr : a.initiated = false → r.completes = false)
    (hc : (a.answered r).completed) : a.initiated := by
  simp only [SessionAction.answered, Bool.or_eq_true] at hc
  rcases hc with hc | hc
  · exact ha hc
  · by_contra hi
    rw [hr (by simpa using hi)] at hc
    cases hc

theorem Tracks.offered {pool : List SessionAction} {s : Scan H} {a : SessionAction}
    {rest : List SessionAction} (h : Tracks pool s (a :: rest)) {r : Answer H}
    (he : s.errored = false)
    (hturn : (a.answered r).errored = false → a.initiated = false → r.completes = false) :
    Tracks pool (s.offered a r) rest := by
  obtain ⟨hp, herr, hth, -, hev⟩ := s.offered_fields a r
  refine ⟨(List.suffix_cons a rest).trans h.suffix, ?_, by rw [hev]; exact h.log, ?_, ?_⟩
  · rw [hp, List.append_assoc, ← h.ids]
    simp [SessionAction.answered]
  · intro e hee
    rw [hev] at hee
    rw [hp, List.map_append]
    exact List.mem_append_left _ (h.passed e hee)
  · intro hne hnt
    rw [herr] at hne
    rw [hth] at hnt
    obtain ⟨hord, hun⟩ := h.kept he hnt
    rw [hp, List.append_assoc, List.singleton_append, hev]
    refine ⟨hord.replace (fun hc => by simp [SessionAction.answered, hc]) .inl
      (SessionAction.initiated_of_answered (hord.initiated a (by simp)) (hturn hne)),
      fun b hb hbi => ?_⟩
    rcases List.mem_append.mp hb with hb | hb
    · exact hun b (by simp [hb]) hbi
    · rcases List.mem_cons.mp hb with rfl | hb
      · exact hun a (by simp) hbi
      · exact hun b (by simp [hb]) hbi

/-- The scan starts to initiate when it is at the last action that was initiated. -/
theorem Tracks.armed_offered {pool : List SessionAction} {s : Scan H} {a : SessionAction}
    {rest : List SessionAction} (h : Tracks pool s (a :: rest)) {r : Answer H}
    (he : s.errored = false) (ht : s.thrown = false) (hinit : s.initiate = false)
    (hturn : (a.answered r).errored = false → (a.initiated = false → r.completes = false) ∧
      (a.completed → r.accepts → ∀ b ∈ rest.head?, b.initiated = false)) :
    Armed (s.offered a r) rest := by
  obtain ⟨hp, herr, -, hin, -⟩ := s.offered_fields a r
  obtain ⟨hord, -⟩ := h.kept he ht
  obtain ⟨-, htail, hcross⟩ := List.pairwise_append.mp hord.pairwise
  have harm : (s.offered a r).errored = false → (s.offered a r).initiate →
      r.accepts ∧ (a.answered r).completed ∧ a.initiated := fun hne hi => by
    rw [herr] at hne
    rw [hin, hinit, Bool.false_or, Bool.and_eq_true] at hi
    exact ⟨hi.1, hi.2, SessionAction.initiated_of_answered (hord.initiated a (by simp))
      (hturn hne).1 hi.2⟩
  refine ⟨fun hne hi b hb => ?_, fun hne hi => ?_⟩
  · obtain ⟨-, hc, hai⟩ := harm hne hi
    rw [hp] at hb
    rcases List.mem_append.mp hb with hb | hb
    · exact hcross b hb a (by simp) hai
    · rw [List.mem_singleton.mp hb]
      exact hc
  · obtain ⟨hacc, -, hai⟩ := harm hne hi
    rw [herr] at hne
    have hrest : Ordered rest := hord.sublist
      ((List.sublist_cons_self a rest).trans (List.sublist_append_right _ _))
    by_cases hac : a.completed
    · cases rest with
      | nil => intro b hb; cases hb
      | cons b rest => exact hrest.not_initiated ((hturn hne).2 hac hacc b (by simp))
    · intro b hb
      rw [Bool.eq_false_iff]
      exact fun hbi => hac ((List.pairwise_cons.mp htail).1 b hb hbi)

/-- The call of `initiate` on the action in front of the scan. -/
theorem Tracks.log_initiate {pool : List SessionAction} {s : Scan H} {a : SessionAction}
    {rest : List SessionAction} (h : Tracks pool s (a :: rest)) (harm : Armed s (a :: rest))
    (hn : (pool.map SessionAction.id).Nodup) (he : s.errored = false) (hinit : s.initiate) :
    Log pool (initiates s.events ++ [(a, s.passed)]) :=
  h.log.snoc (h.suffix.subset (by simp)) (harm.waiting he hinit a (by simp))
    (harm.completed he hinit) (h.id_notMem hn)

theorem Tracks.initiated {pool : List SessionAction} {s : Scan H} {a : SessionAction}
    {rest : List SessionAction} (h : Tracks pool s (a :: rest)) (harm : Armed s (a :: rest))
    {r : Answer H} (hn : (pool.map SessionAction.id).Nodup) (he : s.errored = false)
    (hinit : s.initiate) : Tracks pool (s.initiated a r) rest ∧
      ((a.started r).completed → Armed (s.initiated a r) rest) := by
  have hp : (s.initiated a r).passed = s.passed ++ [a.started r] := rfl
  have hev : initiates (s.initiated a r).events = initiates s.events ++ [(a, s.passed)] :=
    initiates_append _ _
  have hready := harm.completed he hinit
  have hids : ((s.passed ++ [a.started r]) ++ rest).map SessionAction.id =
      pool.map SessionAction.id := by
    rw [List.append_assoc, ← h.ids]
    simp [SessionAction.started, SessionAction.answered]
  refine ⟨⟨(List.suffix_cons a rest).trans h.suffix, by rw [hp]; exact hids, ?_, ?_, ?_⟩,
    fun hc => ⟨fun _ _ b hb => ?_, fun _ _ b hb => ?_⟩⟩
  · rw [hev]
    exact h.log_initiate harm hn he hinit
  · intro e hee
    rw [hev] at hee
    rw [hp, List.map_append]
    rcases List.mem_append.mp hee with hee | hee
    · exact List.mem_append_left _ (h.passed e hee)
    · rw [List.mem_singleton.mp hee]
      exact List.mem_append_right _ (by simp [SessionAction.started, SessionAction.answered])
  · intro _ hnt
    obtain ⟨hord, hun⟩ := h.kept he hnt
    rw [hp, hev]
    refine ⟨?_, fun b hb hbi => ?_⟩
    · rw [List.append_assoc, List.singleton_append]
      exact hord.replace (fun hc => by simp [SessionAction.started, SessionAction.answered, hc])
        (fun _ => .inr hready) fun _ => rfl
    · have hb' : b ∈ s.passed ∨ b ∈ rest := by
        rcases List.mem_append.mp hb with hb | hb
        · rcases List.mem_append.mp hb with hb | hb
          · exact .inl hb
          · rw [List.mem_singleton.mp hb] at hbi
            cases hbi
        · exact .inr hb
      have hbu := hun b (by rcases hb' with hb' | hb' <;> simp [hb']) hbi
      refine ⟨hbu.1, ?_⟩
      rw [List.map_append, List.mem_append, not_or]
      refine ⟨hbu.2, ?_⟩
      -- the numbers of a session's actions differ
      rw [← h.ids, List.map_append, List.map_cons] at hn
      obtain ⟨-, hcons, hcross⟩ := List.nodup_append.mp hn
      rw [List.map_singleton, List.mem_singleton]
      rcases hb' with hb' | hb'
      · exact hcross _ (List.mem_map_of_mem hb') _ (by simp)
      · exact fun he => (List.nodup_cons.mp hcons).1 (he ▸ List.mem_map_of_mem hb')
  · rw [hp] at hb
    rcases List.mem_append.mp hb with hb | hb
    · exact hready b hb
    · rw [List.mem_singleton.mp hb]
      exact hc
  · exact harm.waiting he hinit b (by simp [hb])

theorem Tracks.dispose {pool : List SessionAction} {s : Scan H} {rest : List SessionAction}
    (h : Tracks pool s rest) (a : SessionAction) : Tracks pool (s.dispose a) rest := by
  obtain ⟨n, hn⟩ := s.dispose_eq a
  rw [hn]
  exact ⟨h.suffix, h.ids, h.log, h.passed, h.kept⟩

theorem Armed.dispose {s : Scan H} {rest : List SessionAction} (h : Armed s rest)
    (a : SessionAction) : Armed (s.dispose a) rest := by
  obtain ⟨n, hn⟩ := s.dispose_eq a
  rw [hn]
  exact ⟨h.completed, h.waiting⟩

/-- The run of the scan. -/
theorem Tracks.run (answer : Nat → Answer H) {pool : List SessionAction}
    (hn : (pool.map SessionAction.id).Nodup) {rest : List SessionAction} :
    ∀ {s : Scan H}, Tracks pool s rest → Armed s rest → s.thrown = false →
      (s.errored = false → s.initiate = false → InTurn answer s.passed.length rest) →
      Log pool (initiates (Scan.run answer s rest).events) ∧
        ((Scan.run answer s rest).thrown = false → Tracks pool (Scan.run answer s rest) []) := by
  induction rest with
  | nil => exact fun h _ _ _ => ⟨h.log, fun _ => h⟩
  | cons a rest ih =>
    intro s h harm ht hturn
    rw [Scan.run]
    cases he : s.errored with
    | true => exact ⟨h.log, fun _ => h.leave⟩
    | false =>
      simp only [Bool.false_eq_true, if_false]
      generalize hr : answer s.passed.length = r
      cases hinit : s.initiate with
      | true =>
        have hlog := h.log_initiate harm hn he hinit
        simp only [if_true]
        split
        · refine ⟨?_, fun hth => by cases hth⟩
          show Log pool (initiates (s.events ++ [.initiate a s.passed]))
          rwa [initiates_append]
        · obtain ⟨hnext, harmed⟩ := h.initiated harm (r := r) hn he hinit
          split
          · next hc =>
            obtain ⟨n, hd⟩ := (s.initiated a r).dispose_eq a
            have hin : ((s.initiated a r).dispose a).initiate = true := by rw [hd]; exact hinit
            have hth : ((s.initiated a r).dispose a).thrown = false := by rw [hd]; exact ht
            exact ih (hnext.dispose a) ((harmed hc).dispose a) hth fun _ hi => by
              rw [hin] at hi
              cases hi
          · exact ⟨hnext.log, fun _ => hnext.leave⟩
      | false =>
        simp only [Bool.false_eq_true, if_false]
        have hcond := hturn he hinit
        rw [InTurn, hr] at hcond
        split
        · refine ⟨?_, fun hth => by cases hth⟩
          show Log pool (initiates (s.events ++ [.offer a false]))
          rw [initiates_append, initiates_offer, List.append_nil]
          exact h.log
        · next hnothrow =>
          have hnothrow' : r.throws = false := by simpa using hnothrow
          have hcond' := hcond hnothrow'
          obtain ⟨hp, herr, hth, hin, -⟩ := s.offered_fields a r
          refine ih (h.offered he fun hne => (hcond' hne).1)
            (h.armed_offered he ht hinit fun hne => ⟨(hcond' hne).1, (hcond' hne).2.1⟩)
            (hth.trans ht) fun hne hni => ?_
          rw [herr] at hne
          rw [hin, hinit, Bool.false_or] at hni
          rw [hp, List.length_append, List.length_singleton]
          refine (hcond' hne).2.2 ?_
          rw [SessionAction.stops, hnothrow', hne, hni]
          rfl

theorem scan_turn {answer : Nat → Answer H} {actions : List SessionAction} (header : H)
    (ho : Ordered actions) (hn : (actions.map SessionAction.id).Nodup)
    (hturn : InTurn answer 0 actions) :
    Log actions (initiates (Scan.run answer (.start header) actions).events) ∧
      ((Scan.run answer (.start header) actions).thrown = false →
        (Scan.run answer (.start header) actions).errored = false →
        Turn actions (initiates (Scan.run answer (.start header) actions).events)
          (Scan.run answer (.start header) actions).passed) := by
  have hstart : Tracks actions (.start header) actions := by
    refine ⟨List.suffix_refl _, rfl, .nil _, ?_, fun _ _ => ⟨ho, fun a ha hi => ?_⟩⟩
    · intro e he
      cases he
    · exact ⟨⟨a, ha, rfl, hi⟩, List.not_mem_nil⟩
  obtain ⟨hlog, hrun⟩ := hstart.run answer hn
    ⟨fun _ h => (nomatch h), fun _ h => (nomatch h)⟩ rfl fun _ _ => hturn
  refine ⟨hlog, fun ht he => ?_⟩
  have h := hrun ht
  obtain ⟨hord, hun⟩ := h.kept he ht
  have hids := h.ids
  rw [List.append_nil] at hord hun hids
  exact ⟨hlog, by rw [hids], hord, hun⟩

/-! ## The loop of `add` -/

/-- The loop stands in front of `rest`. -/
structure Gathers (pool : List SessionAction) (s : Adding H) (rest : List SessionAction) :
    Prop where
  suffix : rest <:+ pool
  news : ∀ a ∈ rest, a.initiated = false ∧ a.completed = false
  ids : ((s.actions ++ rest).map SessionAction.id).Sublist (pool.map SessionAction.id)
  log : Log pool (initiates s.events)
  notMem : ∀ e ∈ initiates s.events, e.1.id ∉ rest.map SessionAction.id
  ordered : Ordered s.actions
  unstarted : ∀ a ∈ s.actions, a.initiated = false →
    (∃ b ∈ pool, b.id = a.id ∧ b.initiated = false) ∧
      a.id ∉ (initiates s.events).map fun e => e.1.id
  previous : s.previousCompleted → ∀ a ∈ s.actions, a.completed

theorem Gathers.skip {pool : List SessionAction} {s : Adding H} {a : SessionAction}
    {rest : List SessionAction} (h : Gathers pool s (a :: rest)) : Gathers pool s rest where
  suffix := (List.suffix_cons a rest).trans h.suffix
  news b hb := h.news b (by simp [hb])
  ids := List.Sublist.trans (List.Sublist.map _
    ((List.sublist_cons_self a rest).append_left s.actions)) h.ids
  log := h.log
  notMem e he hin := h.notMem e he (by rw [List.map_cons]; exact List.mem_cons_of_mem _ hin)
  ordered := h.ordered
  unstarted := h.unstarted
  previous := h.previous

theorem Ordered.concat {l : List SessionAction} {a : SessionAction} (h : Ordered l)
    (hl : a.initiated → ∀ b ∈ l, b.completed) (ha : a.completed → a.initiated) :
    Ordered (l ++ [a]) := by
  refine ⟨List.pairwise_append.mpr ⟨h.pairwise, List.pairwise_singleton _ _, ?_⟩, ?_⟩
  · intro b hb c hc hci
    rw [List.mem_singleton.mp hc] at hci
    exact hl hci b hb
  · intro b hb hbc
    rcases List.mem_append.mp hb with hb | hb
    · exact h.initiated b hb hbc
    · rw [List.mem_singleton.mp hb] at hbc ⊢
      exact ha hbc

/-- An action waits behind one that is at work. -/
theorem Gathers.keep {pool : List SessionAction} {s : Adding H} {a : SessionAction}
    {rest : List SessionAction} (h : Gathers pool s (a :: rest))
    (hp : s.previousCompleted = false) :
    Gathers pool (s.keep a) rest := by
  obtain ⟨hi, hc⟩ := h.news a (by simp)
  have hkeep : ∃ perms, s.keep a =
      { s with actions := s.actions ++ [a], existingPermanentActions := perms } := by
    unfold Adding.keep
    rw [hc]
    exact ⟨_, rfl⟩
  obtain ⟨perms, hk⟩ := hkeep
  rw [hk]
  refine ⟨h.skip.suffix, h.skip.news, ?_, h.log, h.skip.notMem, ?_, fun b hb hbi => ?_,
    fun hprev => ?_⟩
  · rw [List.append_assoc]
    exact h.ids
  · exact h.ordered.concat (fun hai => by rw [hi] at hai; cases hai)
      fun hac => by rw [hc] at hac; cases hac
  · rcases List.mem_append.mp hb with hb | hb
    · exact h.unstarted b hb hbi
    · rw [List.mem_singleton.mp hb]
      refine ⟨⟨a, h.suffix.subset (by simp), rfl, hi⟩, fun hin => ?_⟩
      obtain ⟨e, he, hid⟩ := List.mem_map.mp hin
      exact h.notMem e he (by rw [hid]; simp)
  · have hprev' : s.previousCompleted := hprev
    rw [hp] at hprev'
    cases hprev'

theorem Gathers.log_initiate {pool : List SessionAction} {s : Adding H} {a : SessionAction}
    {rest : List SessionAction} (h : Gathers pool s (a :: rest)) (hp : s.previousCompleted) :
    Log pool (initiates (s.events ++ [.initiate a s.actions])) := by
  rw [initiates_append]
  refine h.log.snoc (h.suffix.subset (by simp)) (h.news a (by simp)).1 (h.previous hp)
    fun hin => ?_
  obtain ⟨e, he, hid⟩ := List.mem_map.mp hin
  exact h.notMem e he (by rw [hid]; simp)

theorem Gathers.initiated {pool : List SessionAction} {s : Adding H} {a : SessionAction}
    {rest : List SessionAction} (h : Gathers pool s (a :: rest)) {r : Answer H}
    (hn : (pool.map SessionAction.id).Nodup) (hp : s.previousCompleted)
    (he : (a.started r).errored = false) : Gathers pool (s.initiated a r) rest := by
  have hready := h.previous hp
  have hlog := h.log_initiate hp
  -- the numbers of the new actions differ
  obtain ⟨hnodup, hcross⟩ : a.id ∉ rest.map SessionAction.id ∧
      ∀ b ∈ s.actions, b.id ≠ a.id := by
    have := hn.sublist h.ids
    rw [List.map_append, List.map_cons] at this
    obtain ⟨-, hcons, hcross⟩ := List.nodup_append.mp this
    exact ⟨(List.nodup_cons.mp hcons).1, fun b hb =>
      hcross _ (List.mem_map_of_mem hb) _ (by simp)⟩
  have hnotMem : ∀ e ∈ initiates (s.events ++ [.initiate a s.actions]),
      e.1.id ∉ rest.map SessionAction.id := by
    intro e hee
    rw [initiates_append] at hee
    rcases List.mem_append.mp hee with hee | hee
    · exact h.skip.notMem e hee
    · rw [List.mem_singleton.mp hee]
      exact hnodup
  have hun : ∀ b ∈ s.actions, b.initiated = false →
      (∃ c ∈ pool, c.id = b.id ∧ c.initiated = false) ∧
        b.id ∉ (initiates (s.events ++ [.initiate a s.actions])).map fun e => e.1.id := by
    intro b hb hbi
    obtain ⟨hex, hnot⟩ := h.unstarted b hb hbi
    refine ⟨hex, ?_⟩
    rw [initiates_append, List.map_append, List.mem_append, not_or]
    exact ⟨hnot, by simpa using hcross b hb⟩
  unfold Adding.initiated
  simp only [he, Bool.false_eq_true, if_false]
  unfold Adding.keep
  split
  · refine ⟨h.skip.suffix, h.skip.news, ?_, hlog, hnotMem, ?_, fun b hb hbi => ?_,
      fun hc b hb => ?_⟩
    · have hids : ((s.actions ++ [a.started r]) ++ rest).map SessionAction.id =
          (s.actions ++ a :: rest).map SessionAction.id := by
        simp [SessionAction.started, SessionAction.answered]
      exact hids ▸ h.ids
    · exact h.ordered.concat (fun _ => hready) fun _ => rfl
    · rcases List.mem_append.mp hb with hb | hb
      · exact hun b hb hbi
      · rw [List.mem_singleton.mp hb] at hbi
        cases hbi
    · rcases List.mem_append.mp hb with hb | hb
      · exact hready b hb
      · rw [List.mem_singleton.mp hb]
        exact hc
  · exact ⟨h.skip.suffix, h.skip.news, h.skip.ids, hlog, hnotMem, h.ordered, hun,
      fun _ => hready⟩

theorem Gathers.run (answer : Nat → Answer H) {pool : List SessionAction}
    (hn : (pool.map SessionAction.id).Nodup) {rest : List SessionAction} :
    ∀ {index : Nat} {s : Adding H}, Gathers pool s rest → s.thrown = false → s.errored = false →
      Log pool (initiates (Adding.run answer index s rest).events) ∧
        ((Adding.run answer index s rest).thrown = false →
          (Adding.run answer index s rest).errored = false →
          Gathers pool (Adding.run answer index s rest) []) := by
  induction rest with
  | nil => exact fun h _ _ => ⟨h.log, fun _ _ => h⟩
  | cons a rest ih =>
    intro index s h ht he
    rw [Adding.run]
    generalize answer index = r
    split
    · exact ih h.skip ht he
    · cases hp : s.previousCompleted with
      | false =>
        have hflags : (s.keep a).thrown = s.thrown ∧ (s.keep a).errored = s.errored := by
          unfold Adding.keep
          split <;> exact ⟨rfl, rfl⟩
        exact ih (h.keep hp) (hflags.1.trans ht) (hflags.2.trans he)
      | true =>
        have hlog := h.log_initiate hp
        simp only [if_true]
        split
        · exact ⟨hlog, fun hth => by cases hth⟩
        · split
          · next hae =>
            have hres : (s.initiated a r).events = s.events ++ [.initiate a s.actions] ∧
                (s.initiated a r).errored = true := by
              unfold Adding.initiated
              simp [hae]
            refine ⟨by rw [hres.1]; exact hlog, fun _ hne => ?_⟩
            rw [hres.2] at hne
            cases hne
          · next hae =>
            have hae' : (a.started r).errored = false := by simpa using hae
            have hflags : (s.initiated a r).thrown = s.thrown ∧
                (s.initiated a r).errored = s.errored := by
              unfold Adding.initiated Adding.keep
              simp only [hae', Bool.false_eq_true, if_false]
              split <;> exact ⟨rfl, rfl⟩
            exact ih (h.initiated hn hp hae') (hflags.1.trans ht) (hflags.2.trans he)

theorem adding_turn (answer : Nat → Answer H) {session : Session H} {news : List SessionAction}
    (ho : Ordered session.actions)
    (hn : ((session.actions ++ news).map SessionAction.id).Nodup)
    (hnews : ∀ a ∈ news, a.initiated = false ∧ a.completed = false) :
    Log (session.actions ++ news)
        (initiates (Adding.run answer 0 (.start session) news).events) ∧
      ((Adding.run answer 0 (.start session) news).thrown = false →
        (Adding.run answer 0 (.start session) news).errored = false →
        Turn (session.actions ++ news)
          (initiates (Adding.run answer 0 (.start session) news).events)
          (Adding.run answer 0 (.start session) news).actions) := by
  have hstart : Gathers (session.actions ++ news) (.start session) news := by
    refine ⟨List.suffix_append _ _, hnews, List.Sublist.refl _, .nil _, ?_, ho,
      fun a ha hi => ?_, ho.all_completed⟩
    · intro e he
      cases he
    · exact ⟨⟨a, List.mem_append_left _ ha, rfl, hi⟩, List.not_mem_nil⟩
  obtain ⟨hlog, hrun⟩ := hstart.run answer hn rfl rfl
  refine ⟨hlog, fun ht he => ?_⟩
  have h := hrun ht he
  have hids := h.ids
  rw [List.append_nil] at hids
  exact ⟨hlog, hids, h.ordered, h.unstarted⟩

end MeshPP.SessionUtility
