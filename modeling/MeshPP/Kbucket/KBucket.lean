import MeshPP.Kbucket.Konnection

/-! # `KBucket`

Contacts in the order of their distance from the origin, at most `K` of them in
each slot, where the slot of a contact is the position of the highest bit of its
distance. -/

namespace MeshPP.Kbucket

/-! ## `contact_actions` -/

/-- What a bucket asks of its contacts. -/
class Contact (C : Type) where
  distanceFrom : C → C → Nat
  toString : C → String

instance [Sha256] : Contact Konnection := ⟨Konnection.distanceFrom, Konnection.nodeId⟩

variable {C : Type} [Contact C] {K : Nat}

/-- How often `distance` can be halved before it is zero; `fuel` halvings are enough. -/
def halvings : Nat → Nat → Nat
  | 0, _ => 0
  | fuel + 1, distance => if 0 < distance then halvings fuel (distance / 2) + 1 else 0

/-- A counter of `size_t` that starts at the number of halvings is decremented. -/
def indexFromDistance (distance : Nat) : Nat :=
  (halvings distance distance + (2 ^ 64 - 1)) % 2 ^ 64

def contactDistance (a b : C) : Nat := Contact.distanceFrom a b

def contactIndex (a b : C) : Nat := indexFromDistance (contactDistance a b)

/-! ## The container -/

structure KBucket (C : Type) (K : Nat := 20) where
  origin : C
  /-- by distance -/
  contacts : List C

namespace KBucket

def init (origin : C) : KBucket C K := ⟨origin, []⟩

def find (b : KBucket C K) (contact : C) : Option C :=
  b.contacts.find? fun c => contactDistance contact c = 0

/-- `insert` of the unique index: in front of the first contact that is not nearer,
unless one is at the same distance. -/
def insertOrdered (b : KBucket C K) (contact : C) : Bool × KBucket C K :=
  let distance := contactDistance b.origin contact
  if b.contacts.any fun c => contactDistance b.origin c = distance then (false, b)
  else
    let nearer := fun c => decide (contactDistance b.origin c < distance)
    (true, { b with
      contacts := b.contacts.takeWhile nearer ++ contact :: b.contacts.dropWhile nearer })

/-- `insert`; the iterator it returns besides is left out. -/
def insert (b : KBucket C K) (contact : C) : Except String (Bool × KBucket C K) :=
  let distance := contactDistance b.origin contact
  if distance = 0 then
    throw "Trying to insert contact with 0 distance from the origin, i.e. self"
  else
    let index := indexFromDistance distance
    if K ≤ b.contacts.countP fun c => contactIndex b.origin c = index then return (false, b)
    else return b.insertOrdered contact

def erase (b : KBucket C K) (contact : C) : KBucket C K :=
  { b with contacts := b.contacts.eraseP fun c => contactDistance contact c = 0 }

/-- `erase` of an iterator, and of the range between two. -/
def eraseAt (b : KBucket C K) (pos : Nat) : KBucket C K :=
  { b with contacts := b.contacts.eraseIdx pos }

def eraseRange (b : KBucket C K) (first last : Nat) : KBucket C K :=
  { b with contacts := b.contacts.take first ++ b.contacts.drop (max first last) }

def clear (b : KBucket C K) : KBucket C K := { b with contacts := [] }

def getNodeids (b : KBucket C K) : List String := b.contacts.map Contact.toString

theorem insert_ok {b b' : KBucket C K} {contact : C} {inserted : Bool}
    (h : b.insert contact = .ok (inserted, b')) :
    if inserted then b'.origin = b.origin ∧ b'.contacts.Perm (contact :: b.contacts)
    else b' = b := by
  unfold insert at h
  simp only at h
  split at h
  · cases h
  · split at h
    · obtain ⟨rfl, rfl⟩ := Prod.mk.inj (Except.ok.inj h)
      rfl
    · have hres := Except.ok.inj h
      unfold insertOrdered at hres
      simp only at hres
      split at hres
      · obtain ⟨rfl, rfl⟩ := Prod.mk.inj hres
        rfl
      · obtain ⟨rfl, rfl⟩ := Prod.mk.inj hres
        refine ⟨rfl, List.perm_middle.trans (List.Perm.of_eq ?_)⟩
        rw [List.takeWhile_append_dropWhile]

end KBucket

/-! ## Buckets of connections -/

variable [Sha256]

theorem contactDistance_eq_zero {a b : Konnection} :
    contactDistance a b = 0 ↔ stringDistance a.nodeId = stringDistance b.nodeId :=
  distance_eq_zero

/-- No two contacts are in one place. -/
def KBucket.Distinct (b : KBucket Konnection K) : Prop :=
  b.contacts.Pairwise fun c d => stringDistance c.nodeId ≠ stringDistance d.nodeId

theorem KBucket.find_eq_none {b : KBucket Konnection K} {contact : Konnection} :
    b.find contact = none ↔
      ∀ c ∈ b.contacts, stringDistance c.nodeId ≠ stringDistance contact.nodeId := by
  simp only [find, List.find?_eq_none, decide_eq_true_eq, contactDistance_eq_zero]
  exact forall₂_congr fun c _ => not_congr eq_comm

theorem KBucket.find_some {b : KBucket Konnection K} {contact c : Konnection}
    (h : b.find contact = some c) :
    c ∈ b.contacts ∧ stringDistance c.nodeId = stringDistance contact.nodeId := by
  refine ⟨List.mem_of_find?_eq_some h, ?_⟩
  have := List.find?_some h
  rw [decide_eq_true_eq, contactDistance_eq_zero] at this
  exact this.symm

theorem KBucket.mem_erase {b : KBucket Konnection K} (hd : b.Distinct) {contact c : Konnection} :
    c ∈ (b.erase contact).contacts ↔
      c ∈ b.contacts ∧ stringDistance c.nodeId ≠ stringDistance contact.nodeId := by
  simp only [erase, contactDistance_eq_zero]
  unfold KBucket.Distinct at hd
  generalize b.contacts = l at *
  induction l with
  | nil => simp
  | cons x l ih =>
    obtain ⟨hx, hl⟩ := List.pairwise_cons.mp hd
    by_cases hp : stringDistance contact.nodeId = stringDistance x.nodeId
    · rw [List.eraseP_cons_of_pos (by simpa using hp)]
      constructor
      · exact fun hc => ⟨List.mem_cons_of_mem _ hc, fun he => hx c hc (hp.symm.trans he.symm)⟩
      · intro ⟨hc, hne⟩
        rcases List.mem_cons.mp hc with rfl | hc
        · exact absurd hp.symm hne
        · exact hc
    · rw [List.eraseP_cons_of_neg (by simpa using hp), List.mem_cons, ih hl, List.mem_cons]
      constructor
      · rintro (rfl | ⟨hc, hne⟩)
        · exact ⟨.inl rfl, Ne.symm hp⟩
        · exact ⟨.inr hc, hne⟩
      · rintro ⟨rfl | hc, hne⟩
        · exact .inl rfl
        · exact .inr ⟨hc, hne⟩

theorem KBucket.Distinct.erase {b : KBucket Konnection K} (hd : b.Distinct) (contact : Konnection) :
    (b.erase contact).Distinct := hd.sublist List.eraseP_sublist

theorem KBucket.Distinct.insert {b b' : KBucket Konnection K} (hd : b.Distinct)
    {contact : Konnection} {inserted : Bool} (hnone : b.find contact = none)
    (h : b.insert contact = .ok (inserted, b')) : b'.Distinct := by
  have hb := KBucket.insert_ok h
  cases inserted with
  | false =>
    obtain rfl : b' = b := hb
    exact hd
  | true =>
    refine (hb.2.pairwise_iff fun h => Ne.symm h).mpr (List.pairwise_cons.mpr ⟨fun c hc => ?_, hd⟩)
    exact (KBucket.find_eq_none.mp hnone c hc).symm

end MeshPP.Kbucket
