import Mathlib.Data.List.Basic

/-! # Back-off

A gate is struck and attempts to pass it are made. Each strike that counts closes
it for a number of attempts, its quota; while it is closed, strikes do not count.
`replay` tells of every strike whether it counted and of every attempt whether it
passed, which is the case exactly when the gate is open. -/

namespace MeshPP.Lib

inductive Touch
  | strike
  | attempt
  deriving DecidableEq

/-- The strikes that counted, and the attempts since the last of them. -/
structure Gate where
  strikes : Nat
  attempts : Nat

namespace Gate

/-! `quota j` attempts are refused after the `j`-th strike that counted. -/

variable (quota : Nat → Nat)

def opened (g : Gate) : Bool := decide (quota g.strikes ≤ g.attempts)

def touch (g : Gate) : Touch → Gate
  | .strike => if g.opened quota then ⟨g.strikes + 1, 0⟩ else g
  | .attempt => ⟨g.strikes, g.attempts + 1⟩

def after (g : Gate) (touches : List Touch) : Gate := touches.foldl (touch quota) g

def replay (g : Gate) : List Touch → List (Touch × Bool)
  | [] => []
  | t :: touches => (t, g.opened quota) :: (g.touch quota t).replay touches

end Gate

/-- How many strikes counted. -/
def counted (events : List (Touch × Bool)) : Nat := events.count (.strike, true)

/-- Which attempts passed, in order. -/
def passed (events : List (Touch × Bool)) : List Bool :=
  events.filterMap fun e => if e.1 = .attempt then some e.2 else none

/-- What becomes of `m` attempts when the first `q` are refused. -/
def outcomes (q m : Nat) : List Bool := List.replicate (min q m) false ++ List.replicate (m - q) true

theorem outcomes_open (m : Nat) : outcomes 0 (m + 1) = true :: outcomes 0 m := by
  rw [outcomes, outcomes, Nat.zero_min, Nat.zero_min]
  rfl

theorem outcomes_closed (q m : Nat) : outcomes (q + 1) (m + 1) = false :: outcomes q m := by
  rw [outcomes, outcomes, Nat.succ_min_succ, Nat.succ_sub_succ]
  rfl

/-- The law of a gate, told of the events alone. -/
structure Obeys (quota : Nat → Nat) (events : List (Touch × Bool)) : Prop where
  /-- The quota is refused after a strike that counted, and then all attempts pass. -/
  refused : ∀ pre mid post, events = pre ++ (.strike, true) :: (mid ++ post) →
    (.strike, true) ∉ mid → passed mid = outcomes (quota (counted pre + 1)) (passed mid).length
  /-- A strike that does not count came before the quota was used up. -/
  early : ∀ pre mid post, events = pre ++ (.strike, true) :: (mid ++ (.strike, false) :: post) →
    (.strike, true) ∉ mid → (passed mid).length < quota (counted pre + 1)
  /-- The next strike that counts came when it was used up. -/
  late : ∀ pre mid post, events = pre ++ (.strike, true) :: (mid ++ (.strike, true) :: post) →
    (.strike, true) ∉ mid → quota (counted pre + 1) ≤ (passed mid).length
  /-- Before the first strike all attempts pass. -/
  free : ∀ mid post, events = mid ++ post → (.strike, true) ∉ mid →
    ∀ e ∈ mid, e = (.attempt, true)

namespace Gate

variable {quota : Nat → Nat} {g : Gate}

theorem opened_iff : g.opened quota = true ↔ quota g.strikes ≤ g.attempts := decide_eq_true_iff

theorem replay_append (first later : List Touch) : g.replay quota (first ++ later) =
    g.replay quota first ++ (g.after quota first).replay quota later := by
  induction first generalizing g with
  | nil => rfl
  | cons t first ih => exact congrArg ((t, g.opened quota) :: ·) ih

/-- A part of the events is what a part of the touches gives. -/
theorem replay_eq_append {touches : List Touch} {first rest : List (Touch × Bool)}
    (h : g.replay quota touches = first ++ rest) : ∃ before later,
      touches = before ++ later ∧ g.replay quota before = first ∧
        (g.after quota before).replay quota later = rest := by
  induction first generalizing g touches with
  | nil => exact ⟨[], touches, rfl, rfl, h⟩
  | cons e first ih =>
    cases touches with
    | nil => cases h
    | cons t touches =>
      obtain ⟨he, htail⟩ := List.cons.inj h
      obtain ⟨before, later, rfl, hfirst, hrest⟩ := ih htail
      exact ⟨t :: before, later, rfl, by rw [replay, he, hfirst], hrest⟩

theorem strikes_after (touches : List Touch) :
    (g.after quota touches).strikes = g.strikes + counted (g.replay quota touches) := by
  induction touches generalizing g with
  | nil => rfl
  | cons t touches ih =>
    have hstep : (g.touch quota t).strikes =
        g.strikes + counted [(t, g.opened quota)] := by
      cases t with
      | attempt => rfl
      | strike =>
        rw [touch]
        cases g.opened quota <;> rfl
    have hcons : counted (g.replay quota (t :: touches)) =
        counted [(t, g.opened quota)] + counted ((g.touch quota t).replay quota touches) := by
      rw [replay, ← List.singleton_append, counted, List.count_append]
      rfl
    rw [after, List.foldl_cons, ← after, ih, hstep, hcons, Nat.add_assoc]

/-- Without a strike that counts, the first attempts are refused until the quota is used up,
and all others pass. -/
theorem replay_uncounted {touches : List Touch}
    (h : (Touch.strike, true) ∉ g.replay quota touches) :
    g.after quota touches =
        ⟨g.strikes, g.attempts + (passed (g.replay quota touches)).length⟩ ∧
      passed (g.replay quota touches) =
        outcomes (quota g.strikes - g.attempts) (passed (g.replay quota touches)).length := by
  induction touches generalizing g with
  | nil => exact ⟨rfl, by rw [outcomes, replay, passed]; simp⟩
  | cons t touches ih =>
    rw [replay, List.mem_cons, not_or] at h
    obtain ⟨hhead, htail⟩ := h
    obtain ⟨hafter, hpassed⟩ := ih htail
    rw [after, List.foldl_cons, ← after, hafter, replay]
    cases t with
    | strike =>
      have hclosed : g.opened quota = false := by
        cases ho : g.opened quota with
        | false => rfl
        | true => exact absurd (by rw [ho]) hhead
      have htouch : g.touch quota .strike = g := by
        rw [touch, hclosed]
        rfl
      rw [htouch] at hpassed ⊢
      exact ⟨rfl, hpassed⟩
    | attempt =>
      have hcons : passed ((.attempt, g.opened quota) :: (g.touch quota .attempt).replay quota touches) =
          g.opened quota :: passed ((g.touch quota .attempt).replay quota touches) := rfl
      rw [hcons, List.length_cons]
      refine ⟨?_, ?_⟩
      · rw [touch, Nat.add_right_comm, Nat.add_assoc]
      · generalize (passed ((g.touch quota .attempt).replay quota touches)).length = m at *
        rw [hpassed]
        by_cases ho : g.opened quota = true
        · have hq := opened_iff.mp ho
          rw [ho, Nat.sub_eq_zero_of_le hq, outcomes_open, touch,
            Nat.sub_eq_zero_of_le (Nat.le_succ_of_le hq)]
        · have hq := mt opened_iff.mpr ho
          rw [Bool.not_eq_true] at ho
          rw [ho, show quota g.strikes - g.attempts = quota g.strikes - (g.attempts + 1) + 1 by omega,
            outcomes_closed, touch]

/-- What follows a strike that counts is a replay from a gate that has just been closed. -/
theorem replay_after_strike {touches : List Touch} {pre rest : List (Touch × Bool)}
    (h : g.replay quota touches = pre ++ (.strike, true) :: rest) : ∃ later,
      (⟨g.strikes + counted pre + 1, 0⟩ : Gate).replay quota later = rest := by
  obtain ⟨before, later, _, rfl, hrest⟩ := replay_eq_append h
  cases later with
  | nil => cases hrest
  | cons t later =>
    obtain ⟨he, htail⟩ := List.cons.inj hrest
    obtain ⟨rfl, ho⟩ := Prod.mk.inj he
    refine ⟨later, ?_⟩
    rw [touch, if_pos ho, strikes_after] at htail
    exact htail

/-- Whether a strike counts that comes after the attempts of `mid`. -/
theorem strike_after_uncounted {touches : List Touch} {mid post : List (Touch × Bool)}
    {effective : Bool} (h : g.replay quota touches = mid ++ (.strike, effective) :: post)
    (hmid : (Touch.strike, true) ∉ mid) :
    effective = true ↔ quota g.strikes ≤ g.attempts + (passed mid).length := by
  obtain ⟨before, later, _, rfl, hrest⟩ := replay_eq_append h
  cases later with
  | nil => cases hrest
  | cons t later =>
    obtain ⟨_, ho⟩ := Prod.mk.inj (List.cons.inj hrest).1
    rw [← ho, opened_iff, (replay_uncounted hmid).1]

theorem replay_free (hquota : quota 0 = 0) {touches : List Touch} (hg : g.strikes = 0)
    (h : (Touch.strike, true) ∉ g.replay quota touches) :
    ∀ e ∈ g.replay quota touches, e = (.attempt, true) := by
  induction touches generalizing g with
  | nil => exact fun e he => nomatch he
  | cons t touches ih =>
    have ho : g.opened quota = true := by
      rw [opened_iff, hg, hquota]
      exact Nat.zero_le _
    rw [replay, ho, List.mem_cons, not_or] at h
    cases t with
    | strike => exact absurd rfl h.1
    | attempt =>
      intro e he
      rw [replay, ho] at he
      obtain rfl | he := List.mem_cons.mp he
      · rfl
      · exact ih (g := g.touch quota .attempt) hg h.2 e he

theorem obeys_replay (hquota : quota 0 = 0) (touches : List Touch) :
    Obeys quota ((⟨0, 0⟩ : Gate).replay quota touches) where
  refused pre mid post h hmid := by
    obtain ⟨later, hlater⟩ := replay_after_strike h
    obtain ⟨before, _, _, rfl, _⟩ := replay_eq_append hlater
    rw [Nat.zero_add] at *
    exact (replay_uncounted hmid).2
  early pre mid post h hmid := by
    obtain ⟨later, hlater⟩ := replay_after_strike h
    have hiff := strike_after_uncounted hlater hmid
    rw [Nat.zero_add, Nat.zero_add] at hiff
    exact Nat.not_le.mp fun hle => Bool.noConfusion (hiff.mpr hle)
  late pre mid post h hmid := by
    obtain ⟨later, hlater⟩ := replay_after_strike h
    have hiff := strike_after_uncounted hlater hmid
    rw [Nat.zero_add, Nat.zero_add] at hiff
    exact hiff.mp rfl
  free mid post h hmid e he := by
    obtain ⟨before, _, _, rfl, _⟩ := replay_eq_append h
    exact replay_free hquota rfl hmid e he

end Gate

end MeshPP.Lib
