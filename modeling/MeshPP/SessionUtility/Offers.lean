import MeshPP.SessionUtility.SessionManager

/-! # Which actions `process` offers a packet to

The scan goes over the actions from the front and offers the packet to each,
until a call ends it. An action that takes the packet without completing does
not end it, and an action that has not been initiated is offered the packet all
the same. -/

namespace MeshPP.SessionUtility
open MeshPP.Lib

variable {H : Type}

/-- The actions the packet has been offered to, in order, and what they returned. -/
def offers (events : List SessionEvent) : List (SessionAction × Bool) :=
  events.filterMap fun
    | .offer a accepted => some (a, accepted)
    | .initiate _ _ => none

@[simp] theorem offers_append (es fs : List SessionEvent) :
    offers (es ++ fs) = offers es ++ offers fs := List.filterMap_append

@[simp] theorem offers_initiate (a : SessionAction) (before : List SessionAction) :
    offers [.initiate a before] = [] := rfl

@[simp] theorem offers_offer (a : SessionAction) (accepted : Bool) :
    offers [.offer a accepted] = [(a, accepted)] := rfl

/-- Offers go to initiated actions only, in the order of the list, and to none behind one
that has accepted. -/
structure OffersRight (actions : List SessionAction) (os : List (SessionAction × Bool)) : Prop where
  initiated : ∀ o ∈ os, o.1.initiated
  inOrder : os.map Prod.fst <+: actions
  once : os.Pairwise fun o _ => o.2 = false

/-- The packet is offered to no action behind this one. -/
def SessionAction.stops (a : SessionAction) (r : Answer H) : Bool :=
  r.throws || (a.answered r).errored || (r.accepts && (a.answered r).completed)

/-- What the scan offers, from the action at `index` on. -/
def offersOf (answer : Nat → Answer H) : Nat → List SessionAction → List (SessionAction × Bool)
  | _, [] => []
  | index, a :: rest =>
    let r := answer index
    (a, !r.throws && r.accepts) :: if a.stops r then [] else offersOf answer (index + 1) rest

theorem offersOf_inOrder (answer : Nat → Answer H) (index : Nat) (actions : List SessionAction) :
    (offersOf answer index actions).map Prod.fst <+: actions := by
  induction actions generalizing index with
  | nil => exact List.prefix_refl _
  | cons a rest ih =>
    rw [offersOf, List.map_cons, List.cons_prefix_cons]
    refine ⟨rfl, ?_⟩
    split
    · exact List.nil_prefix
    · exact ih (index + 1)

/-- Each action the scan gets to has been initiated, and one that accepts the packet
also ends the scan, unless it is the last one. -/
def OneConsumer (answer : Nat → Answer H) : Nat → List SessionAction → Prop
  | _, [] => True
  | index, a :: rest =>
    a.initiated ∧ (a.stops (answer index) = false →
      ((answer index).accepts → rest = []) ∧ OneConsumer answer (index + 1) rest)

theorem offersRight_iff (answer : Nat → Answer H) (index : Nat) (actions : List SessionAction) :
    OffersRight actions (offersOf answer index actions) ↔ OneConsumer answer index actions := by
  induction actions generalizing index with
  | nil => exact ⟨fun _ => trivial, fun _ => ⟨by simp [offersOf], List.prefix_refl _, .nil⟩⟩
  | cons a rest ih =>
    have hord := offersOf_inOrder answer index (a :: rest)
    rw [offersOf] at hord ⊢
    cases hs : a.stops (answer index) with
    | true =>
      simp only [hs, if_true, OneConsumer, Bool.true_eq_false, false_implies, and_true] at hord ⊢
      exact ⟨fun h => h.initiated _ (List.mem_singleton_self _),
        fun h => ⟨by simpa using h, hord, by simp⟩⟩
    | false =>
      have hthrow : (answer index).throws = false := by
        unfold SessionAction.stops at hs
        simp only [Bool.or_eq_false_iff] at hs
        exact hs.1.1
      simp only [hs, Bool.false_eq_true, if_false, OneConsumer, true_implies, hthrow,
        Bool.not_false, Bool.true_and] at hord ⊢
      rw [← ih (index + 1)]
      constructor
      · intro h
        obtain ⟨hfirst, hrest⟩ := List.pairwise_cons.mp h.once
        refine ⟨h.initiated _ List.mem_cons_self, fun hacc => ?_,
          fun o ho => h.initiated o (by simp [ho]), offersOf_inOrder answer _ _, hrest⟩
        -- an action behind it would be offered the packet, too
        cases rest with
        | nil => rfl
        | cons b rest =>
          have := hfirst (b, !(answer (index + 1)).throws && (answer (index + 1)).accepts)
            (by simp [offersOf])
          rw [hacc] at this
          cases this
      · intro ⟨hi, hlast, hrest⟩
        refine ⟨?_, hord, List.pairwise_cons.mpr ⟨fun o ho => ?_, hrest.once⟩⟩
        · intro o ho
          rcases List.mem_cons.mp ho with rfl | ho
          · exact hi
          · exact hrest.initiated o ho
        · cases hacc : (answer index).accepts with
          | false => rfl
          | true =>
            rw [hlast hacc] at ho
            cases ho

/-! ## The scan -/

theorem Scan.offers_offered (s : Scan H) (a : SessionAction) (r : Answer H) :
    offers (s.offered a r).events = offers s.events ++ [(a, r.accepts)] ∧
      (s.offered a r).passed.length = s.passed.length + 1 ∧
      ((s.offered a r).errored || (s.offered a r).initiate) =
        ((a.answered r).errored || (s.initiate || r.accepts && (a.answered r).completed)) := by
  unfold Scan.offered
  cases hacc : r.accepts <;> cases hc : (a.answered r).completed <;> cases hp : a.permanent <;>
    simp [Scan.dispose, hp]

theorem Scan.offers_initiated (s : Scan H) (a : SessionAction) (r : Answer H) :
    offers ((s.initiated a r).dispose a).events = offers s.events ∧
      ((s.initiated a r).dispose a).initiate = s.initiate := by
  unfold Scan.initiated Scan.dispose
  split <;> simp

/-- Once it initiates actions the scan offers the packet to none. -/
theorem Scan.offers_run_of_initiate (answer : Nat → Answer H) (rest : List SessionAction)
    (s : Scan H) (h : s.initiate = true) :
    offers (Scan.run answer s rest).events = offers s.events := by
  induction rest generalizing s with
  | nil => rfl
  | cons a rest ih =>
    rw [Scan.run]
    simp only [h, if_true]
    split
    · rfl
    · split
      · simp [Scan.failed, Scan.leave]
      · split
        · obtain ⟨he, hi⟩ := s.offers_initiated a (answer s.passed.length)
          rw [ih _ (hi.trans h), he]
        · simp [Scan.initiated, Scan.leave]

theorem Scan.offers_run (answer : Nat → Answer H) (rest : List SessionAction) (s : Scan H)
    (he : s.errored = false) (hi : s.initiate = false) :
    offers (Scan.run answer s rest).events =
      offers s.events ++ offersOf answer s.passed.length rest := by
  induction rest generalizing s with
  | nil => simp [Scan.run, offersOf]
  | cons a rest ih =>
    rw [Scan.run, offersOf]
    simp only [he, hi, Bool.false_eq_true, if_false]
    split
    · next ht => simp [Scan.failed, Scan.leave, SessionAction.stops, ht]
    · next ht =>
      obtain ⟨hev, hlen, hflags⟩ := s.offers_offered a (answer s.passed.length)
      have ht' : (answer s.passed.length).throws = false := by simpa using ht
      have hstops : a.stops (answer s.passed.length) =
          ((s.offered a (answer s.passed.length)).errored ||
            (s.offered a (answer s.passed.length)).initiate) := by
        rw [hflags, hi, SessionAction.stops, ht', Bool.false_or, Bool.false_or]
      simp only [ht', Bool.not_false, Bool.true_and, hstops]
      generalize s.offered a (answer s.passed.length) = s' at *
      cases he' : s'.errored with
      | true =>
        cases rest with
        | nil => simp [Scan.run, hev]
        | cons b rest => simp [Scan.run, he', hev, Scan.leave]
      | false =>
        cases hi' : s'.initiate with
        | true => rw [Scan.offers_run_of_initiate _ _ _ hi', hev]; simp
        | false => rw [ih s' he' hi', hev, hlen]; simp

/-! ## One call of `process` -/

variable [DecidableEq H] [HeaderKeys H]

/-- The actions of the session a packet from `peerid` is for. -/
def SessionManager.contacted (m : SessionManager H) (peerid : String) : List SessionAction :=
  if peerid = "" then []
  else match m.findPeer peerid with
    | none => []
    | some (_, session) => session.actions

theorem offers_process (m : SessionManager H) (peerid : String) (now : Nat)
    (answer : Nat → Answer H) :
    offers (m.process peerid now answer).1.events = offersOf answer 0 (m.contacted peerid) := by
  unfold SessionManager.process SessionManager.contacted
  split
  · rfl
  · cases m.findPeer peerid with
    | none => rfl
    | some it =>
      have hrun := Scan.offers_run answer it.2.actions (.start it.2.header) rfl rfl
      simp only [SessionManager.processAt]
      split <;> exact hrun

/-- One call offers a packet rightly exactly when each action its scan gets to has been
initiated and the first one that accepts the packet ends the scan or is the last. -/
theorem process_offersRight_iff (m : SessionManager H) (peerid : String) (now : Nat)
    (answer : Nat → Answer H) :
    OffersRight (m.contacted peerid) (offers (m.process peerid now answer).1.events) ↔
      OneConsumer answer 0 (m.contacted peerid) := by
  rw [offers_process]
  exact offersRight_iff answer 0 _

/-- Of two actions the first accepts the packet without completing: it is handed on to
the second, which has not been initiated. -/
theorem not_process_offersRight : ¬ ∀ (ops : List (SessionOp SessionHeader)) (peerid : String)
    (now : Nat) (answer : Nat → Answer SessionHeader),
    OffersRight ((final SessionManager.step .init ops).contacted peerid)
      (offers ((final SessionManager.step .init ops).process peerid now answer).1.events) := by
  intro h
  have := (h [.add ⟨"p"⟩ [⟨0, false⟩, ⟨1, false⟩] 10 0 fun _ => ⟨false, false, false, false, id⟩]
    "p" 1 fun _ => ⟨true, false, false, false, id⟩).initiated (⟨1, 1, false, false, false, false⟩,
      true) (by decide)
  cases this

end MeshPP.SessionUtility
