import MeshPP.Lib.Backoff
import MeshPP.Lib.Machine
import MeshPP.P2PSocket.P2PState

/-! # The nodes that were dropped

For a node that was dropped `droped_nodes` holds a limit and a count. A mention
of it as a candidate is skipped while the count is below the limit, and a drop
multiplies the limit by ten once the count has reached it. For each node this is
a gate, struck by its drops and attempted by its mentions. -/

namespace MeshPP.P2PSocket
open MeshPP.Lib MeshPP.Kbucket

/-! ## Limits -/

/-- How many mentions are skipped after the `j`-th effective drop. -/
def dropLimit : Nat → Nat
  | 0 => 0
  | j + 1 => 10 ^ min j 12

theorem dropLimit_pos (j : Nat) : 0 < dropLimit (j + 1) := Nat.pow_pos (by decide)

/-- The limit grows by the factor ten up to the cap. -/
theorem dropLimit_next (j : Nat) :
    (if dropLimit (j + 1) < 1000000000000 then dropLimit (j + 1) * 10 else dropLimit (j + 1)) =
      dropLimit (j + 2) := by
  have hcap : (1000000000000 : Nat) = 10 ^ 12 := by decide
  rw [dropLimit, dropLimit, hcap]
  by_cases hj : j < 12
  · rw [if_pos (Nat.pow_lt_pow_right (by decide) (by omega)), Nat.min_eq_left hj.le,
      Nat.min_eq_left hj, Nat.pow_succ]
  · rw [Nat.min_eq_right (Nat.not_lt.mp hj), if_neg (Nat.lt_irrefl _), Nat.min_eq_right (by omega)]

/-- The entry of a node. -/
def gateEntry (g : Gate) : Option (Nat × Nat) :=
  match g.strikes with
  | 0 => none
  | j + 1 => some (dropLimit (j + 1), min g.attempts (dropLimit (j + 1)))

theorem gateEntry_succ (j attempts : Nat) : gateEntry ⟨j + 1, attempts⟩ =
    some (dropLimit (j + 1), min attempts (dropLimit (j + 1))) := rfl

namespace P2PState

/-- Every count is within its limit, and the limits are powers of ten up to the cap. -/
def Bounded (s : P2PState) : Prop :=
  ∀ nodeid limit count, s.dropedNodes.lookup nodeid = some (limit, count) →
    count ≤ limit ∧ ∃ k ≤ 12, limit = 10 ^ k

variable {s : P2PState} {nodeid : String} {g : Gate}

/-! ## Drops -/

/-- A drop that creates the entry or escalates it. -/
def Escalates (s : P2PState) (nodeid : String) : Prop :=
  (s.processNodeDrop nodeid).dropedNodes.lookup nodeid ≠ s.dropedNodes.lookup nodeid

instance (s : P2PState) (nodeid : String) : Decidable (s.Escalates nodeid) :=
  inferInstanceAs (Decidable (_ ≠ _))

theorem processNodeDrop_ne {dropped : String} (h : dropped ≠ nodeid) :
    (s.processNodeDrop dropped).dropedNodes.lookup nodeid = s.dropedNodes.lookup nodeid := by
  unfold processNodeDrop
  split
  · rfl
  · split
    · exact AList.lookup_insert_ne h.symm
    · split
      · exact AList.lookup_insert_ne h.symm
      · rfl

theorem Bounded.insert (h : s.Bounded) {t : P2PState} {limit count : Nat} (hcount : count ≤ limit)
    (hlimit : ∃ k ≤ 12, limit = 10 ^ k)
    (ht : t.dropedNodes = s.dropedNodes.insert nodeid (limit, count)) : t.Bounded := by
  intro n limit' count' hentry
  rw [ht, UMap.lookup_insert] at hentry
  split at hentry
  · obtain ⟨rfl, rfl⟩ := Prod.mk.inj (Option.some.inj hentry)
    exact ⟨hcount, hlimit⟩
  · exact h n limit' count' hentry

theorem Bounded.processNodeDrop (h : s.Bounded) (nodeid : String) :
    (s.processNodeDrop nodeid).Bounded := by
  unfold P2PState.processNodeDrop
  split
  · exact h
  · split
    · exact h.insert (Nat.zero_le 1) ⟨0, by decide, rfl⟩ rfl
    · next limit count hentry =>
      obtain ⟨_, k, hk, rfl⟩ := h nodeid limit count hentry
      split
      · refine h.insert (Nat.zero_le _) ?_ rfl
        split
        · next hlt =>
          have hcap : (1000000000000 : Nat) = 10 ^ 12 := by decide
          rw [hcap] at hlt
          exact ⟨k + 1, (Nat.pow_lt_pow_iff_right (by decide)).mp hlt, (Nat.pow_succ ..).symm⟩
        · exact ⟨k, hk, rfl⟩
      · exact h

theorem Bounded.processNodeJoin (h : s.Bounded) (nodeid : String) :
    (s.processNodeJoin nodeid).Bounded := by
  unfold P2PState.processNodeJoin
  split
  · exact h
  · intro n limit count hentry
    rw [UMap.lookup_erase] at hentry
    split at hentry
    · cases hentry
    · exact h n limit count hentry

/-- A drop that leaves the entry as it is leaves everything as it is. -/
theorem Bounded.processNodeDrop_eq (h : s.Bounded) (hsame : ¬s.Escalates nodeid) :
    s.processNodeDrop nodeid = s := by
  rw [Escalates, not_not] at hsame
  unfold P2PState.processNodeDrop at hsame ⊢
  split
  · rfl
  · next hn =>
    rw [if_neg hn] at hsame
    split
    · next hnone =>
      rw [hnone] at hsame
      cases (AList.lookup_insert s.dropedNodes).symm.trans hsame
    · next limit count hentry =>
      refine if_neg fun hle => ?_
      rw [hentry] at hsame
      dsimp only at hsame
      rw [if_pos hle, AList.lookup_insert] at hsame
      obtain ⟨_, k, _, rfl⟩ := h nodeid limit count hentry
      have hpos : 0 < 10 ^ k := Nat.pow_pos (by decide)
      have hcount := (Prod.mk.inj (Option.some.inj hsame)).2
      omega

theorem drop_gate (hn : nodeid ≠ "") (h : s.dropedNodes.lookup nodeid = gateEntry g) :
    decide (s.Escalates nodeid) = g.opened dropLimit ∧
      (s.processNodeDrop nodeid).dropedNodes.lookup nodeid =
        gateEntry (g.touch dropLimit .strike) := by
  obtain ⟨strikes, attempts⟩ := g
  cases strikes with
  | zero =>
    have hopen : (⟨0, attempts⟩ : Gate).opened dropLimit = true :=
      Gate.opened_iff.mpr (Nat.zero_le attempts)
    have hnone : s.dropedNodes.lookup nodeid = none := h
    have hafter : (s.processNodeDrop nodeid).dropedNodes.lookup nodeid = some (1, 0) := by
      rw [processNodeDrop, if_neg hn, hnone]
      exact AList.lookup_insert _
    rw [hopen, Gate.touch, hopen]
    refine ⟨decide_eq_true ?_, hafter⟩
    rw [Escalates, hafter, hnone]
    exact Option.some_ne_none _
  | succ j =>
    have hentry := h.trans (gateEntry_succ j attempts)
    by_cases ho : dropLimit (j + 1) ≤ attempts
    · have hopen : (⟨j + 1, attempts⟩ : Gate).opened dropLimit = true := Gate.opened_iff.mpr ho
      have hafter : (s.processNodeDrop nodeid).dropedNodes.lookup nodeid =
          some (dropLimit (j + 2), 0) := by
        rw [processNodeDrop, if_neg hn, hentry]
        dsimp only
        rw [if_pos (Nat.le_min.mpr ⟨ho, Nat.le_refl _⟩), dropLimit_next]
        exact AList.lookup_insert _
      rw [hopen, Gate.touch, hopen]
      refine ⟨decide_eq_true ?_, Eq.trans ?_ (gateEntry_succ (j + 1) 0).symm⟩
      · rw [Escalates, hafter, hentry, Nat.min_eq_right ho]
        intro heq
        have hcount := (Prod.mk.inj (Option.some.inj heq)).2
        exact absurd hcount.symm (Nat.pos_iff_ne_zero.mp (dropLimit_pos j))
      · rw [hafter, Nat.zero_min]
    · have hclosed : (⟨j + 1, attempts⟩ : Gate).opened dropLimit = false := decide_eq_false ho
      have hsame : s.processNodeDrop nodeid = s := by
        rw [processNodeDrop, if_neg hn, hentry]
        exact if_neg fun hle => ho (Nat.le_min.mp hle).1
      rw [hclosed, Gate.touch, hclosed]
      refine ⟨decide_eq_false fun hescalates => hescalates (by rw [hsame]), ?_⟩
      rw [hsame]
      exact h

variable [Sha256]

/-! ## Mentions -/

/-- Neither the node itself nor one of its contacts. -/
def Stranger (s : P2PState) (nodeid : String) : Prop :=
  nodeid ≠ s.selfId ∧ s.kbucket.find ⟨nodeid, ""⟩ = none

/-- The mentions of a node in a list of candidates, and whether they are offered. -/
def mentions (nodeid : String) : P2PState → List String → List (Touch × Bool)
  | _, [] => []
  | s, candidate :: rest =>
    let r := s.introduceCandidate candidate
    if candidate = nodeid then (.attempt, r.1) :: mentions nodeid r.2 rest
    else mentions nodeid r.2 rest

theorem introduceCandidate_ne {candidate : String} (h : candidate ≠ nodeid) :
    (s.introduceCandidate candidate).2.dropedNodes.lookup nodeid =
      s.dropedNodes.lookup nodeid := by
  unfold introduceCandidate
  split
  · rfl
  split
  · rfl
  split
  · rfl
  split
  · exact AList.lookup_insert_ne h.symm
  · rfl

theorem filterIntroduceCandidates_ne {nodeids : List String} (h : nodeid ∉ nodeids) :
    (s.filterIntroduceCandidates nodeids).2.dropedNodes.lookup nodeid =
      s.dropedNodes.lookup nodeid := by
  induction nodeids generalizing s with
  | nil => rfl
  | cons candidate rest ih =>
    rw [List.mem_cons, not_or] at h
    exact (ih h.2).trans (introduceCandidate_ne (Ne.symm h.1))

theorem Bounded.introduceCandidate (h : s.Bounded) (candidate : String) :
    (s.introduceCandidate candidate).2.Bounded := by
  unfold P2PState.introduceCandidate
  split
  · exact h
  split
  · exact h
  split
  · exact h
  · next limit count hentry =>
    split
    · next hlt => exact h.insert hlt (h candidate limit count hentry).2 rfl
    · exact h

theorem Bounded.filterIntroduceCandidates (h : s.Bounded) (nodeids : List String) :
    (s.filterIntroduceCandidates nodeids).2.Bounded := by
  induction nodeids generalizing s with
  | nil => exact h
  | cons candidate rest ih => exact ih (h.introduceCandidate candidate)

theorem Stranger.introduceCandidate (h : s.Stranger nodeid) (candidate : String) :
    (s.introduceCandidate candidate).2.Stranger nodeid := by
  unfold P2PState.introduceCandidate
  split
  · exact h
  split
  · exact h
  split
  · exact h
  split <;> exact h

theorem introduce_gate (hs : s.Stranger nodeid) (h : s.dropedNodes.lookup nodeid = gateEntry g) :
    (s.introduceCandidate nodeid).1 = g.opened dropLimit ∧
      (s.introduceCandidate nodeid).2.dropedNodes.lookup nodeid =
        gateEntry (g.touch dropLimit .attempt) := by
  have hfind : ¬(s.kbucket.find ⟨nodeid, ""⟩).isSome = true := by
    rw [hs.2]
    exact Bool.false_ne_true
  rw [P2PState.introduceCandidate, if_neg hs.1, if_neg hfind]
  obtain ⟨strikes, attempts⟩ := g
  cases strikes with
  | zero =>
    rw [show s.dropedNodes.lookup nodeid = none from h]
    exact ⟨(Gate.opened_iff.mpr (Nat.zero_le attempts)).symm, h⟩
  | succ j =>
    have hentry := h.trans (gateEntry_succ j attempts)
    rw [hentry]
    dsimp only
    by_cases ho : dropLimit (j + 1) ≤ attempts
    · rw [Nat.min_eq_right ho, if_neg (Nat.lt_irrefl _)]
      refine ⟨(Gate.opened_iff.mpr ho).symm, Eq.trans ?_ (gateEntry_succ j (attempts + 1)).symm⟩
      rw [hentry, Nat.min_eq_right ho, Nat.min_eq_right (by omega)]
    · rw [Nat.min_eq_left (by omega), if_pos (by omega)]
      refine ⟨(decide_eq_false ho).symm, Eq.trans ?_ (gateEntry_succ j (attempts + 1)).symm⟩
      rw [Nat.min_eq_left (by omega)]
      exact AList.lookup_insert _

/-- A list of candidates is an attempt for every mention. -/
theorem mentions_gate (hs : s.Stranger nodeid) (h : s.dropedNodes.lookup nodeid = gateEntry g)
    (nodeids : List String) :
    mentions nodeid s nodeids =
        g.replay dropLimit (List.replicate (nodeids.count nodeid) .attempt) ∧
      (s.filterIntroduceCandidates nodeids).2.dropedNodes.lookup nodeid =
        gateEntry (g.after dropLimit (List.replicate (nodeids.count nodeid) .attempt)) := by
  induction nodeids generalizing s g with
  | nil => exact ⟨rfl, h⟩
  | cons candidate rest ih =>
    rw [mentions, filterIntroduceCandidates]
    by_cases hc : candidate = nodeid
    · obtain ⟨hoffered, hentry⟩ := introduce_gate hs h
      obtain ⟨hmentions, hlast⟩ := ih (hs.introduceCandidate nodeid) hentry
      rw [hc, if_pos rfl, List.count_cons_self, List.replicate_succ]
      exact ⟨congrArg₂ _ (Prod.ext rfl hoffered) hmentions, hlast⟩
    · rw [if_neg hc, List.count_cons_of_ne hc]
      exact ih (hs.introduceCandidate candidate) ((introduceCandidate_ne hc).trans h)

/-- The mentions that are offered are those that are returned. -/
theorem count_offered (s : P2PState) (nodeids : List String) :
    (s.filterIntroduceCandidates nodeids).1.count nodeid =
      (mentions nodeid s nodeids).count (.attempt, true) := by
  induction nodeids generalizing s with
  | nil => rfl
  | cons candidate rest ih =>
    rw [mentions, filterIntroduceCandidates]
    generalize s.introduceCandidate candidate = r
    obtain ⟨offered, t⟩ := r
    dsimp only
    by_cases hc : candidate = nodeid
    · rw [if_pos hc]
      cases offered with
      | true => rw [if_pos rfl, hc, List.count_cons_self, List.count_cons_self, ih]
      | false => rw [if_neg Bool.false_ne_true, List.count_cons_of_ne (by decide), ih]
    · rw [if_neg hc, ← ih]
      cases offered with
      | true => rw [if_pos rfl, List.count_cons_of_ne hc]
      | false => rw [if_neg Bool.false_ne_true]

end P2PState

/-! ## Runs -/

/-- A call; `other` is one that leaves `droped_nodes` and nothing else as it is. -/
inductive DropOp
  | drop (nodeid : String)
  | join (nodeid : String)
  | introduce (nodeids : List String)
  | other (t : P2PState)

/-- What a call does to a node, in order. -/
def DropOp.touches (nodeid : String) : DropOp → List Touch
  | .drop dropped => if dropped = nodeid then [.strike] else []
  | .introduce nodeids => List.replicate (nodeids.count nodeid) .attempt
  | .join _ | .other _ => []

namespace P2PState

variable [Sha256] {s : P2PState} {nodeid : String} {g : Gate}

/-- What is returned and the state after the call. -/
def dropStep (s : P2PState) : DropOp → List String × P2PState
  | .drop nodeid => ([], s.processNodeDrop nodeid)
  | .join nodeid => ([], s.processNodeJoin nodeid)
  | .introduce nodeids => s.filterIntroduceCandidates nodeids
  | .other t => ([], { t with dropedNodes := s.dropedNodes })

/-- The drops of a node, and whether they are effective, and its mentions. -/
def events (nodeid : String) (s : P2PState) : DropOp → List (Touch × Bool)
  | .drop dropped => if dropped = nodeid then [(.strike, decide (s.Escalates nodeid))] else []
  | .introduce nodeids => mentions nodeid s nodeids
  | .join _ | .other _ => []

def history (nodeid : String) : P2PState → List DropOp → List (Touch × Bool)
  | _, [] => []
  | s, op :: ops => events nodeid s op ++ history nodeid (s.dropStep op).2 ops

/-- The node is no contact when the call is made, and the call is not its join. -/
def Apart (nodeid : String) (s : P2PState) (op : DropOp) : Prop :=
  s.Stranger nodeid ∧ op ≠ .join nodeid

theorem Bounded.dropStep (h : s.Bounded) (op : DropOp) : (s.dropStep op).2.Bounded := by
  cases op with
  | drop nodeid => exact h.processNodeDrop nodeid
  | join nodeid => exact h.processNodeJoin nodeid
  | introduce nodeids => exact h.filterIntroduceCandidates nodeids
  | other t => exact h

/-- A call that leaves a node alone leaves its entry alone. -/
theorem dropStep_untouched {op : DropOp} (htouches : op.touches nodeid = [])
    (hjoin : op ≠ .join nodeid) :
    (s.dropStep op).2.dropedNodes.lookup nodeid = s.dropedNodes.lookup nodeid := by
  cases op with
  | drop dropped =>
    refine processNodeDrop_ne fun he => ?_
    rw [DropOp.touches, if_pos he] at htouches
    cases htouches
  | join joined =>
    rw [P2PState.dropStep, processNodeJoin]
    split
    · rfl
    · exact AList.lookup_erase_ne fun he => hjoin (by rw [he])
  | introduce nodeids =>
    rw [DropOp.touches, List.replicate_eq_nil_iff] at htouches
    exact filterIntroduceCandidates_ne (List.count_eq_zero.mp htouches)
  | other t => rfl

/-- One call on a node whose entry is that of a gate. -/
theorem dropStep_gate (hn : nodeid ≠ "") {op : DropOp} (ha : Apart nodeid s op)
    (h : s.dropedNodes.lookup nodeid = gateEntry g) :
    events nodeid s op = g.replay dropLimit (op.touches nodeid) ∧
      (s.dropStep op).2.dropedNodes.lookup nodeid =
        gateEntry (g.after dropLimit (op.touches nodeid)) := by
  cases op with
  | drop dropped =>
    by_cases hd : dropped = nodeid
    · obtain ⟨heffective, hentry⟩ := drop_gate hn h
      rw [events, DropOp.touches, if_pos hd, if_pos hd, heffective, hd]
      exact ⟨rfl, hentry⟩
    · rw [events, DropOp.touches, if_neg hd, if_neg hd]
      exact ⟨rfl, (processNodeDrop_ne hd).trans h⟩
  | join joined => exact ⟨rfl, (dropStep_untouched rfl ha.2).trans h⟩
  | introduce nodeids => exact mentions_gate ha.1 h nodeids
  | other t => exact ⟨rfl, h⟩

/-- A run is a replay of what it does to the node, whatever it does to others. -/
theorem history_eq (hn : nodeid ≠ "") {ops : List DropOp} (ha : Meets dropStep (Apart nodeid) s ops)
    (h : s.dropedNodes.lookup nodeid = gateEntry g) :
    history nodeid s ops = g.replay dropLimit (ops.flatMap (DropOp.touches nodeid)) := by
  induction ops generalizing s g with
  | nil => rfl
  | cons op ops ih =>
    obtain ⟨hevents, hentry⟩ := dropStep_gate hn ha.1 h
    rw [history, List.flatMap_cons, Gate.replay_append, hevents, ih ha.2 hentry]

theorem back_off (hn : nodeid ≠ "") :
    (∀ selfId ops, (final dropStep (init selfId) ops).Bounded) ∧
    (∀ s op, DropOp.touches nodeid op = [] → op ≠ .join nodeid →
      (dropStep s op).2.dropedNodes.lookup nodeid = s.dropedNodes.lookup nodeid) ∧
    (∀ s : P2PState, s.Bounded → ¬s.Escalates nodeid → s.processNodeDrop nodeid = s) ∧
    (∀ s nodeids, (filterIntroduceCandidates s nodeids).1.count nodeid =
      (mentions nodeid s nodeids).count (.attempt, true)) ∧
    ∀ s ops, s.dropedNodes.lookup nodeid = none → Meets dropStep (Apart nodeid) s ops →
      Obeys dropLimit (history nodeid s ops) ∧
        history nodeid s ops =
          (⟨0, 0⟩ : Gate).replay dropLimit (ops.flatMap (DropOp.touches nodeid)) := by
  refine ⟨fun selfId ops => ?_, fun s op => dropStep_untouched, fun s h => h.processNodeDrop_eq,
    count_offered, fun s ops hnone ha => ?_⟩
  · refine invariant_final (C := fun _ _ => True) (fun s op h _ => h.dropStep op) ?_
      (meets_of_forall (fun _ _ => trivial) _ _)
    intro n limit count hentry
    cases hentry
  · have heq := history_eq (g := ⟨0, 0⟩) hn ha hnone
    exact ⟨heq ▸ Gate.obeys_replay rfl _, heq⟩

end P2PState

/-- A hash function; a node without contacts asks for no digest. -/
abbrev sha256Zero : Sha256 := ⟨fun _ => 0, fun _ => Nat.pow_pos (by decide)⟩

/-- One mention is skipped after the first drop of `a`. -/
theorem back_off_sample :
    @P2PState.history sha256Zero "a" (.init "b") [.drop "a", .introduce ["a", "c", "a"], .drop "a"] =
      [(.strike, true), (.attempt, false), (.attempt, true), (.strike, true)] := by
  refine ((@P2PState.back_off sha256Zero "a" (by decide)).2.2.2.2 (.init "b") _ rfl ?_).2.trans ?_
  · exact ⟨⟨⟨by decide, rfl⟩, nofun⟩, ⟨⟨by decide, rfl⟩, nofun⟩, ⟨⟨by decide, rfl⟩, nofun⟩, trivial⟩
  · decide

end MeshPP.P2PSocket
