import MeshPP.Kbucket.KBucket
import MeshPP.Lib.Machine

/-! # What a bucket is after any run

The contacts stand in strictly increasing distance from the origin, which is not
one of them, and no slot holds more than `K`. Since the distances are exclusive
ors, the order on them, `find` and the slots all see the same contacts. -/

namespace MeshPP.Kbucket
open MeshPP.Lib

/-! ## Slots -/

theorem halvings_eq (fuel distance : Nat) (h : distance < 2 ^ fuel) :
    halvings fuel distance = if distance = 0 then 0 else Nat.log 2 distance + 1 := by
  induction fuel generalizing distance with
  | zero =>
    obtain rfl : distance = 0 := by omega
    rfl
  | succ fuel ih =>
    rw [halvings]
    by_cases hz : distance = 0
    · subst hz
      rfl
    · rw [Nat.pow_succ] at h
      rw [if_pos (by omega), if_neg hz, ih (distance / 2) (by omega)]
      by_cases hone : distance / 2 = 0
      · obtain rfl : distance = 1 := by omega
        rfl
      · rw [if_neg hone, Nat.log_div_base, Nat.sub_add_cancel]
        exact Nat.log_pos (by omega) (by omega)

/-- The index is the position of the highest bit, as far as `size_t` holds it. -/
theorem indexFromDistance_mod {distance : Nat} (hz : distance ≠ 0) :
    indexFromDistance distance = Nat.log 2 distance % 2 ^ 64 := by
  rw [indexFromDistance, halvings_eq distance distance Nat.lt_two_pow_self, if_neg hz]
  omega

theorem indexFromDistance_eq {distance : Nat} (hz : distance ≠ 0) (h : distance < 2 ^ 256) :
    indexFromDistance distance = Nat.log 2 distance := by
  have hlog : Nat.log 2 distance < 256 := Nat.log_lt_of_lt_pow hz h
  rw [indexFromDistance_mod hz]
  omega

/-! ## Insertion in order -/

/-- An insertion in front of the first element that is not smaller keeps a strict order. -/
theorem pairwise_insert_lt {α : Type} {f : α → Nat} {a : α} {l : List α}
    (hs : l.Pairwise fun x y => f x < f y) (ha : ∀ x ∈ l, f x ≠ f a) :
    (l.takeWhile (fun x => decide (f x < f a)) ++
      a :: l.dropWhile fun x => decide (f x < f a)).Pairwise fun x y => f x < f y := by
  induction l with
  | nil => exact List.pairwise_singleton _ _
  | cons x l ih =>
    obtain ⟨hx, hl⟩ := List.pairwise_cons.mp hs
    by_cases hlt : f x < f a
    · rw [List.takeWhile_cons_of_pos (by simpa using hlt),
        List.dropWhile_cons_of_pos (by simpa using hlt), List.cons_append, List.pairwise_cons]
      refine ⟨fun y hy => ?_, ih hl fun y hy => ha y (List.mem_cons_of_mem _ hy)⟩
      rw [List.mem_append, List.mem_cons] at hy
      rcases hy with hy | rfl | hy
      · exact hx y (List.takeWhile_sublist _ |>.subset hy)
      · exact hlt
      · exact hx y (List.dropWhile_sublist _ |>.subset hy)
    · have hfirst : f a < f x := by
        have := ha x (by simp)
        omega
      rw [List.takeWhile_cons_of_neg (by simpa using hlt),
        List.dropWhile_cons_of_neg (by simpa using hlt), List.nil_append, List.pairwise_cons]
      refine ⟨fun y hy => ?_, hs⟩
      rcases List.mem_cons.mp hy with rfl | hy
      · exact hfirst
      · exact Nat.lt_trans hfirst (hx y hy)

/-! ## The operations -/

inductive BucketOp (C : Type)
  | insert (contact : C)
  | erase (contact : C)
  | eraseAt (pos : Nat)
  | eraseRange (first last : Nat)
  | clear

inductive BucketOut
  | inserted (inserted : Bool)
  | thrown (what : String)
  | done
  deriving DecidableEq, Repr

namespace KBucket

def step {C : Type} [Contact C] {K : Nat} (b : KBucket C K) : BucketOp C → BucketOut × KBucket C K
  | .insert contact =>
    match b.insert contact with
    | .ok r => (.inserted r.1, r.2)
    | .error what => (.thrown what, b)
  | .erase contact => (.done, b.erase contact)
  | .eraseAt pos => (.done, b.eraseAt pos)
  | .eraseRange first last => (.done, b.eraseRange first last)
  | .clear => (.done, b.clear)

variable [Sha256] {K : Nat}

/-- The contacts are in order, none of them is the origin, and no slot is overfull. -/
structure Sound (b : KBucket Konnection K) : Prop where
  ascending : b.contacts.Pairwise fun c d => contactDistance b.origin c < contactDistance b.origin d
  apart : ∀ c ∈ b.contacts, contactDistance b.origin c ≠ 0
  room : ∀ index, b.contacts.countP (fun c => contactIndex b.origin c = index) ≤ K

theorem sound_init (origin : Konnection) : (init origin : KBucket Konnection K).Sound :=
  ⟨.nil, fun _ h => (nomatch h), fun _ => Nat.zero_le _⟩

theorem Sound.sublist {b b' : KBucket Konnection K} (h : b.Sound) (ho : b'.origin = b.origin)
    (hc : b'.contacts.Sublist b.contacts) : b'.Sound := by
  refine ⟨?_, ?_, fun index => ?_⟩
  · rw [ho]
    exact h.ascending.sublist hc
  · rw [ho]
    exact fun c hm => h.apart c (hc.subset hm)
  · rw [ho]
    exact hc.countP_le.trans (h.room index)

/-- The exclusive or of the places of two contacts. -/
def xorDistance (a b : Konnection) : Nat := stringDistance a.nodeId ^^^ stringDistance b.nodeId

theorem contactDistance_eq (a b : Konnection) : contactDistance a b = xorDistance a b :=
  distance_eq_xor _ _

/-- The distance from one origin tells contacts apart as their places do. -/
theorem xorDistance_inj {origin c d : Konnection} :
    xorDistance origin c = xorDistance origin d ↔
      stringDistance c.nodeId = stringDistance d.nodeId := by
  rw [xorDistance, xorDistance]
  exact Nat.xor_right_inj

theorem stringDistance_lt (str : String) : stringDistance str < 2 ^ 256 := by
  unfold stringDistance
  split
  · exact Nat.two_pow_pos 256
  · exact Sha256.digest_lt str

theorem contactIndex_eq {a b : Konnection} (h : xorDistance a b ≠ 0) :
    contactIndex a b = Nat.log 2 (xorDistance a b) := by
  rw [contactIndex, contactDistance_eq]
  exact indexFromDistance_eq h (Nat.xor_lt_two_pow (stringDistance_lt _) (stringDistance_lt _))

theorem Sound.distinct {b : KBucket Konnection K} (h : b.Sound) : b.Distinct := by
  refine h.ascending.imp fun {c d} hlt he => ?_
  rw [contactDistance_eq, contactDistance_eq, xorDistance_inj.mpr he] at hlt
  exact Nat.lt_irrefl _ hlt

/-! ## `insert` -/

/-- There is no contact in the place of `contact` and there is room in its slot. -/
def Admits (b : KBucket Konnection K) (contact : Konnection) : Prop :=
  (∀ c ∈ b.contacts, stringDistance c.nodeId ≠ stringDistance contact.nodeId) ∧
    b.contacts.countP (fun c => contactIndex b.origin c = contactIndex b.origin contact) < K

theorem any_distance {b : KBucket Konnection K} {contact : Konnection} :
    b.contacts.any (fun c => contactDistance b.origin c = contactDistance b.origin contact) ↔
      ∃ c ∈ b.contacts, stringDistance c.nodeId = stringDistance contact.nodeId := by
  simp only [List.any_eq_true, decide_eq_true_eq, contactDistance_eq, xorDistance_inj]

theorem insert_of_admits {b : KBucket Konnection K} (h : b.Sound) {contact : Konnection}
    (hz : contactDistance b.origin contact ≠ 0) (ha : b.Admits contact) :
    ∃ b', b.insert contact = .ok (true, b') ∧ b'.origin = b.origin ∧
      b'.contacts.Perm (contact :: b.contacts) ∧ b'.Sound := by
  obtain ⟨hnew, hroom⟩ := ha
  have hany : ¬ b.contacts.any fun c =>
      contactDistance b.origin c = contactDistance b.origin contact := by
    rw [any_distance]
    exact fun ⟨c, hc, he⟩ => hnew c hc he
  have hrun : b.insert contact = .ok (b.insertOrdered contact) := by
    unfold insert
    simp only
    rw [if_neg hz]
    exact if_neg (Nat.not_le.mpr hroom)
  have hordered : b.insertOrdered contact = (true, { b with
      contacts := b.contacts.takeWhile (fun c => decide (contactDistance b.origin c <
          contactDistance b.origin contact)) ++ contact :: b.contacts.dropWhile fun c =>
        decide (contactDistance b.origin c < contactDistance b.origin contact) }) := by
    unfold insertOrdered
    exact if_neg hany
  rw [hordered] at hrun
  have hb := insert_ok hrun
  rw [if_pos rfl] at hb
  refine ⟨_, hrun, hb.1, hb.2, ?_, fun c hc => ?_, fun index => ?_⟩
  · refine pairwise_insert_lt h.ascending fun c hc => ?_
    rw [contactDistance_eq, contactDistance_eq, ne_eq, xorDistance_inj]
    exact hnew c hc
  · rcases List.mem_cons.mp (hb.2.mem_iff.mp hc) with rfl | hc
    · exact hz
    · exact h.apart c hc
  · rw [hb.2.countP_eq, List.countP_cons]
    split
    · next hi =>
      rw [decide_eq_true_eq] at hi
      subst hi
      exact hroom
    · exact h.room index

theorem insert_of_not_admits {b : KBucket Konnection K} {contact : Konnection}
    (hz : contactDistance b.origin contact ≠ 0) (ha : ¬ b.Admits contact) :
    b.insert contact = .ok (false, b) := by
  unfold insert
  simp only
  rw [if_neg hz]
  split
  · rfl
  · next hroom =>
    have hany : b.contacts.any fun c =>
        contactDistance b.origin c = contactDistance b.origin contact := by
      rw [any_distance]
      by_contra hnone
      exact ha ⟨fun c hc he => hnone ⟨c, hc, he⟩, Nat.not_le.mp hroom⟩
    unfold insertOrdered
    rw [if_pos hany]
    rfl

theorem insert_self {b : KBucket Konnection K} {contact : Konnection}
    (hz : contactDistance b.origin contact = 0) : b.insert contact =
      .error "Trying to insert contact with 0 distance from the origin, i.e. self" := by
  unfold insert
  simp only
  rw [if_pos hz]
  rfl

/-! ## Runs -/

theorem step_insert_ok {b b' : KBucket Konnection K} {contact : Konnection} {inserted : Bool}
    (h : b.insert contact = .ok (inserted, b')) :
    b.step (.insert contact) = (.inserted inserted, b') := by
  simp only [KBucket.step, h]

theorem step_insert_error {b : KBucket Konnection K} {contact : Konnection} {what : String}
    (h : b.insert contact = .error what) : b.step (.insert contact) = (.thrown what, b) := by
  simp only [KBucket.step, h]

theorem Sound.step {b : KBucket Konnection K} (h : b.Sound) (op : BucketOp Konnection) :
    (b.step op).2.Sound ∧ (b.step op).2.origin = b.origin := by
  cases op with
  | insert contact =>
    by_cases hz : contactDistance b.origin contact = 0
    · rw [step_insert_error (insert_self hz)]
      exact ⟨h, rfl⟩
    · by_cases ha : b.Admits contact
      · obtain ⟨b', hrun, ho, -, hs⟩ := insert_of_admits h hz ha
        rw [step_insert_ok hrun]
        exact ⟨hs, ho⟩
      · rw [step_insert_ok (insert_of_not_admits hz ha)]
        exact ⟨h, rfl⟩
  | erase contact => exact ⟨h.sublist rfl List.eraseP_sublist, rfl⟩
  | eraseAt pos => exact ⟨h.sublist rfl (List.eraseIdx_sublist _ _), rfl⟩
  | eraseRange first last =>
    refine ⟨h.sublist rfl ?_, rfl⟩
    have hdrop := List.drop_sublist_drop_left b.contacts (Nat.le_max_left first last)
    have := (List.Sublist.refl (b.contacts.take first)).append hdrop
    rwa [List.take_append_drop] at this
  | clear => exact ⟨h.sublist rfl (List.nil_sublist _), rfl⟩

/-- What a bucket is to its callers, in terms of the places of the contacts. -/
structure Represents (b : KBucket Konnection K) : Prop where
  slots : ∀ slot, b.contacts.countP (fun c => Nat.log 2 (xorDistance b.origin c) = slot) ≤ K
  apart : ∀ c ∈ b.contacts, contactDistance b.origin c ≠ 0 ∧ xorDistance b.origin c ≠ 0
  places : b.contacts.Pairwise fun c d => stringDistance c.nodeId ≠ stringDistance d.nodeId
  nodeids : b.getNodeids = b.contacts.map Konnection.nodeId ∧
    b.contacts.Pairwise fun c d => xorDistance b.origin c < xorDistance b.origin d
  inserts : ∀ contact, contactDistance b.origin contact ≠ 0 →
    (∀ c ∈ b.contacts, stringDistance c.nodeId ≠ stringDistance contact.nodeId) →
    b.contacts.countP (fun c => Nat.log 2 (xorDistance b.origin c) =
      Nat.log 2 (xorDistance b.origin contact)) < K →
    ∃ b', b.insert contact = .ok (true, b') ∧ b'.origin = b.origin ∧
      b'.contacts.Perm (contact :: b.contacts)
  refuses : ∀ contact, contactDistance b.origin contact ≠ 0 →
    ((∃ c ∈ b.contacts, stringDistance c.nodeId = stringDistance contact.nodeId) ∨
      K ≤ b.contacts.countP fun c => Nat.log 2 (xorDistance b.origin c) =
        Nat.log 2 (xorDistance b.origin contact)) →
    b.insert contact = .ok (false, b)
  finds : ∀ contact, (b.find contact).isSome ↔
    ∃ c ∈ b.contacts, stringDistance c.nodeId = stringDistance contact.nodeId

theorem Sound.count_slot {b : KBucket Konnection K} (h : b.Sound) (slot : Nat) :
    b.contacts.countP (fun c => Nat.log 2 (xorDistance b.origin c) = slot) =
      b.contacts.countP fun c => contactIndex b.origin c = slot := by
  refine List.countP_congr fun c hc => ?_
  have hz := h.apart c hc
  rw [contactDistance_eq] at hz
  rw [contactIndex_eq hz]

theorem Sound.represents {b : KBucket Konnection K} (h : b.Sound) : b.Represents := by
  have hcount : ∀ contact, contactDistance b.origin contact ≠ 0 →
      b.contacts.countP (fun c => Nat.log 2 (xorDistance b.origin c) =
        Nat.log 2 (xorDistance b.origin contact)) =
      b.contacts.countP fun c => contactIndex b.origin c = contactIndex b.origin contact := by
    intro contact hz
    rw [contactDistance_eq] at hz
    rw [h.count_slot, contactIndex_eq hz]
  refine ⟨fun slot => ?_, fun c hc => ?_, ?_, ⟨rfl, ?_⟩, fun contact hz hnew hroom => ?_,
    fun contact hz hfull => ?_, fun contact => ?_⟩
  · rw [h.count_slot]
    exact h.room slot
  · have hz := h.apart c hc
    exact ⟨hz, contactDistance_eq b.origin c ▸ hz⟩
  · refine h.ascending.imp fun {c d} hlt he => ?_
    rw [contactDistance_eq, contactDistance_eq, xorDistance_inj.mpr he] at hlt
    exact Nat.lt_irrefl _ hlt
  · refine h.ascending.imp fun {c d} hlt => ?_
    rwa [contactDistance_eq, contactDistance_eq] at hlt
  · rw [hcount contact hz] at hroom
    obtain ⟨b', hrun, ho, hperm, -⟩ := insert_of_admits h hz ⟨hnew, hroom⟩
    exact ⟨b', hrun, ho, hperm⟩
  · rw [hcount contact hz] at hfull
    refine insert_of_not_admits hz fun ⟨hnew, hroom⟩ => ?_
    rcases hfull with ⟨c, hc, he⟩ | hle
    · exact hnew c hc he
    · exact Nat.not_le.mpr hroom hle
  · rw [Option.isSome_iff_ne_none, ne_eq, find_eq_none]
    simp only [not_forall, not_not, exists_prop]

/-- The bucket behind every run. -/
theorem run_represents (origin : Konnection) (ops : List (BucketOp Konnection)) :
    (final KBucket.step (init origin : KBucket Konnection K) ops).origin = origin ∧
      (final KBucket.step (init origin : KBucket Konnection K) ops).Represents := by
  have hstep : ∀ (b : KBucket Konnection K) op, b.Sound ∧ b.origin = origin → True →
      (b.step op).2.Sound ∧ (b.step op).2.origin = origin :=
    fun b op h _ => ⟨(h.1.step op).1, (h.1.step op).2.trans h.2⟩
  have hrun := invariant_final hstep ⟨sound_init origin, rfl⟩
    (meets_of_forall (C := fun _ _ => True) (fun _ _ => trivial) (init origin) ops)
  exact ⟨hrun.2, hrun.1.represents⟩

end KBucket

end MeshPP.Kbucket
