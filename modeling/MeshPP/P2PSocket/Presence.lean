import MeshPP.P2PSocket.Contacts

/-! # Which nodes are present

A node is present while it has a contact and the application is still to be told
when one of its connections is removed. For the application it has joined while
it is present, or while the drop it is to be told is waiting in
`notify_removed_peers`. What one step changes of that is derived here. -/

set_option linter.unusedSectionVars false

namespace MeshPP.P2PSocket
open MeshPP.Lib MeshPP.Kbucket

variable [Sha256] [EmptyDestination] [Library]

namespace P2PState

def HasContact (t : P2PState) (nodeid : String) : Prop :=
  ∃ c ∈ t.kbucket.contacts, c.nodeId = nodeid

structure Present (t : P2PState) (nodeid : String) : Prop where
  contact : t.HasContact nodeid
  noticed : ∀ q, t.nodeOf q = nodeid → t.noticeOf q

/-- The leave of `p` has been told, and the contact of its node is still there. -/
structure Left (t : P2PState) (p : PeerId) : Prop where
  named : t.nodeOf p ≠ ""
  told : t.noticeOf p = false
  contact : t.HasContact (t.nodeOf p)

variable {t t' : P2PState} {p : PeerId} {addr : IpAddress} {nodeid : String}

theorem hasContact_of_eq (h : t'.kbucket = t.kbucket) (nodeid : String) :
    t'.HasContact nodeid ↔ t.HasContact nodeid := by
  unfold HasContact
  rw [h]

theorem Same.present_iff (h : Same t t') (hi : t.Indexed) :
    t'.Present nodeid ↔ t.Present nodeid := by
  have hn : ∀ q, t'.nodeOf q = t.nodeOf q := h.nodeOf hi
  have hw : ∀ q, t'.noticeOf q = t.noticeOf q := h.noticeOf hi
  constructor
  · intro ⟨hc, hq⟩
    refine ⟨(hasContact_of_eq h.kbucket _).mp hc, fun q => ?_⟩
    rw [← hn, ← hw]
    exact hq q
  · intro ⟨hc, hq⟩
    refine ⟨(hasContact_of_eq h.kbucket _).mpr hc, fun q => ?_⟩
    rw [hn, hw]
    exact hq q

/-- With the leave of a connection told, its node is no longer present. -/
theorem Closes.present_iff (h : Closes t t' p) :
    t'.Present nodeid ↔ t.Present nodeid ∧ t.nodeOf p ≠ nodeid := by
  constructor
  · intro ⟨hc, hq⟩
    have hother : t.nodeOf p ≠ nodeid := by
      intro hp
      have hnotice := hq p ((h.nodeOf p).trans hp)
      rw [h.noticeOf, if_pos rfl] at hnotice
      cases hnotice
    refine ⟨⟨(hasContact_of_eq h.kbucket _).mp hc, fun q hn => ?_⟩, hother⟩
    have hqp : q ≠ p := by
      intro he
      exact hother (he ▸ hn)
    have hnotice := hq q ((h.nodeOf q).trans hn)
    rwa [h.noticeOf, if_neg hqp] at hnotice
  · intro ⟨⟨hc, hq⟩, hother⟩
    refine ⟨(hasContact_of_eq h.kbucket _).mpr hc, fun q hn => ?_⟩
    rw [h.nodeOf] at hn
    have hqp : q ≠ p := by
      intro he
      exact hother (he ▸ hn)
    rw [h.noticeOf, if_neg hqp]
    exact hq q hn

/-- A connection that takes the place of one that has not left changes no node's presence. -/
theorem Activates.present_iff (h : Activates t t' addr p) (hs : t.slot p = none)
    (hl : ∀ q, (t.holder addr).bind StateItem.peer = some q → ¬ t.Left q) (hne : nodeid ≠ "") :
    t'.Present nodeid ↔ t.Present nodeid := by
  constructor
  · intro ⟨hc, hq⟩
    have hc' : t.HasContact nodeid := (hasContact_of_eq h.kbucket _).mp hc
    refine ⟨hc', fun q hn => ?_⟩
    have hqp : q ≠ p := by
      intro he
      rw [he, nodeOf_of_slot_none hs] at hn
      exact hne hn.symm
    by_cases hheld : (t.holder addr).bind StateItem.peer = some q
    · by_contra hnot
      exact hl q hheld ⟨hn ▸ hne, Bool.eq_false_iff.mpr hnot, hn ▸ hc'⟩
    · rw [← h.noticeOf q hqp hheld]
      refine hq q ?_
      rw [h.nodeOf, if_neg (not_or.mpr ⟨hqp, hheld⟩)]
      exact hn
  · intro ⟨hc, hq⟩
    refine ⟨(hasContact_of_eq h.kbucket _).mpr hc, fun q hn => ?_⟩
    rw [h.nodeOf] at hn
    split at hn
    · exact absurd hn.symm hne
    · next hno =>
      obtain ⟨hqp, hheld⟩ := not_or.mp hno
      rw [h.noticeOf q hqp hheld]
      exact hq q hn

/-- A registration under `name` leaves the other nodes as they are. -/
theorem Adopts.present_iff {name : String} (h : Adopts t t' p name)
    (hl : t.HasContact nodeid → t.nodeOf p = nodeid → t.noticeOf p) :
    t'.Present nodeid ↔ t.Present nodeid := by
  have hc : t'.HasContact nodeid ↔ t.HasContact nodeid := hasContact_of_eq h.kbucket _
  constructor
  · intro ⟨hc', hq⟩
    refine ⟨hc.mp hc', fun q hn => ?_⟩
    by_cases hqp : q = p
    · subst hqp
      exact hl (hc.mp hc') hn
    · have hno : ¬ (q = p ∧ (t.slot p).isSome) := fun hboth => hqp hboth.1
      have hnotice := hq q (by rw [h.nodeOf, if_neg hno]; exact hn)
      rwa [h.noticeOf, if_neg hno] at hnotice
  · intro ⟨hc', hq⟩
    refine ⟨hc.mpr hc', fun q hn => ?_⟩
    rw [h.nodeOf] at hn
    rw [h.noticeOf]
    split at hn
    · next hboth => rw [if_pos hboth]
    · next hno =>
      rw [if_neg hno]
      exact hq q hn

/-- A node that gets a contact is present, unless one of its other connections has left. -/
theorem Adopts.present {name : String} (h : Adopts t t' p name) (hc : t.HasContact name)
    (hne : name ≠ "") (ho : ∀ q, q ≠ p → t.nodeOf q = name → t.noticeOf q) :
    t'.Present name := by
  refine ⟨(hasContact_of_eq h.kbucket _).mpr hc, fun q hn => ?_⟩
  rw [h.nodeOf] at hn
  rw [h.noticeOf]
  split at hn
  · next hboth => rw [if_pos hboth]
  · next hno =>
    rw [if_neg hno]
    by_cases hqp : q = p
    · subst hqp
      exact absurd ⟨rfl, slot_of_nodeOf (hn ▸ hne)⟩ hno
    · exact ho q hqp hn

/-- The contacts of the bucket after `add_contact`. -/
theorem Added.hasContact_iff {b : KBucket Konnection} {c : Konnection} {status : ContactStatus}
    (h : Added t.kbucket c status b) :
    { t with kbucket := b }.HasContact nodeid ↔
      t.HasContact nodeid ∨ status = .newContact ∧ c.nodeId = nodeid := by
  unfold HasContact
  cases h with
  | existing hf => simp
  | full hf hins => simp
  | new hf hins =>
    have hmem : ∀ d, d ∈ b.contacts ↔ d = c ∨ d ∈ t.kbucket.contacts := fun d => by
      rw [(KBucket.insert_ok hins).2.mem_iff, List.mem_cons]
    simp only [hmem, or_and_right, exists_or, exists_eq_left, true_and]
    exact or_comm

/-- A contact is new only to a bucket that has none for the node. -/
theorem Added.not_hasContact {b : KBucket Konnection} {c : Konnection}
    (h : Added t.kbucket c .newContact b) : ¬ t.HasContact c.nodeId := by
  intro ⟨d, hd, hn⟩
  cases h with
  | new hf hins => exact KBucket.find_eq_none.mp hf d hd (by rw [hn])

/-- The nodes that `remove_pending` takes from the bucket are those of the peers that are due. -/
theorem Clears.hasContact_iff {keys : List (String × Bool)} (h : Clears t t' keys)
    (hf : t.PeerFound) (hu : t.Unnamed) (hd : t.kbucket.Distinct)
    (hplace : ∀ q, t.dueOf q → t.nodeOf q ≠ "" → ∀ c ∈ t.kbucket.contacts,
      stringDistance c.nodeId = stringDistance (t.nodeOf q) → c.nodeId = t.nodeOf q)
    (hne : nodeid ≠ "") :
    t'.HasContact nodeid ↔ t.HasContact nodeid ∧ ∀ q, t.dueOf q → t.nodeOf q ≠ nodeid := by
  have hmem : ∀ c, c ∈ t'.kbucket.contacts ↔ c ∈ t.kbucket.contacts ∧
      ∀ key ∈ keys, stringDistance c.nodeId ≠ stringDistance key.1 := fun c => by
    rw [h.kbucket, mem_eraseContacts hd]
  constructor
  · intro ⟨c, hc, hn⟩
    obtain ⟨hold, hkeys⟩ := (hmem c).mp hc
    refine ⟨⟨c, hold, hn⟩, fun q hdue hq => ?_⟩
    exact hkeys _ (h.keyOf q hdue (hq ▸ hne)) (by rw [hn, hq])
  · intro ⟨⟨c, hold, hn⟩, hnone⟩
    refine ⟨c, (hmem c).mpr ⟨hold, fun key hkey heq => ?_⟩, hn⟩
    obtain ⟨hkne, q, hdue, hq, -⟩ := h.ofKey hf hu key hkey
    rw [← hq] at hkne heq
    exact hnone q hdue ((hplace q hdue hkne c hold heq).symm.trans hn)

theorem Clears.present_iff {keys : List (String × Bool)} (h : Clears t t' keys)
    (hc : t'.HasContact nodeid ↔ t.HasContact nodeid ∧ ∀ q, t.dueOf q → t.nodeOf q ≠ nodeid)
    (hne : nodeid ≠ "") :
    t'.Present nodeid ↔ t.Present nodeid ∧ ∀ q, t.dueOf q → t.nodeOf q ≠ nodeid := by
  constructor
  · intro ⟨hc', hq⟩
    obtain ⟨hold, hnone⟩ := hc.mp hc'
    refine ⟨⟨hold, fun q hn => ?_⟩, hnone⟩
    have hdue : ¬ t.dueOf q := fun hdue => hnone q hdue hn
    have hnotice := hq q (by rw [h.nodeOf, if_neg hdue]; exact hn)
    rwa [h.noticeOf, if_neg hdue] at hnotice
  · intro ⟨⟨hold, hq⟩, hnone⟩
    refine ⟨hc.mpr ⟨hold, hnone⟩, fun q hn => ?_⟩
    rw [h.nodeOf] at hn
    split at hn
    · exact absurd hn.symm hne
    · next hdue =>
      rw [h.noticeOf, if_neg hdue]
      exact hq q hn

end P2PState

/-! ## Joined nodes -/

/-- The application has been told that the node joined, and not yet that it left. -/
def Joined (s : Internals) (nodeid : String) : Prop :=
  nodeid ≠ "" ∧ (nodeid ∈ s.notifyRemovedPeers ∨ s.state.Present nodeid)

/-- What holds between two packets while every drop that is to be told is told once. -/
structure Settled (s : Internals) : Prop where
  indexed : s.state.Indexed
  found : s.state.PeerFound
  unnamed : s.state.Unnamed
  distinct : s.state.kbucket.Distinct
  notified : ∀ nodeid ∈ s.notifyRemovedPeers, nodeid ≠ "" ∧ ¬ s.state.HasContact nodeid

section
variable {s s' : Internals} {p : PeerId} {addr : IpAddress}

theorem joined_iff_of_present (hn : s'.notifyRemovedPeers = s.notifyRemovedPeers)
    (hp : ∀ nodeid, nodeid ≠ "" → (s'.state.Present nodeid ↔ s.state.Present nodeid))
    (nodeid : String) : Joined s' nodeid ↔ Joined s nodeid := by
  unfold Joined
  rw [hn]
  exact and_congr_right fun hne => or_congr_right (hp nodeid hne)

theorem Settled.of_kbucket (h : Settled s) (hi : s'.state.Indexed) (hf : s'.state.PeerFound)
    (hu : s'.state.Unnamed) (hk : s'.state.kbucket = s.state.kbucket)
    (hn : s'.notifyRemovedPeers = s.notifyRemovedPeers) : Settled s' := by
  refine ⟨hi, hf, hu, hk ▸ h.distinct, fun nodeid hm => ?_⟩
  rw [hn] at hm
  rw [P2PState.hasContact_of_eq hk]
  exact h.notified nodeid hm

theorem Settled.calm (h : Settled s) (hc : Calm s s') :
    Settled s' ∧ ∀ nodeid, Joined s' nodeid ↔ Joined s nodeid := by
  have hsame := hc.state h.indexed
  exact ⟨h.of_kbucket hsame.indexed (hsame.found h.found) (hsame.unnamed h.unnamed)
      hsame.kbucket hc.notify,
    joined_iff_of_present hc.notify fun _ _ => hsame.present_iff h.indexed⟩

theorem Settled.closes (h : Settled s) (hc : Turn (P2PState.Closes · · p) s s') :
    Settled s' := by
  have hclose := hc.state h.indexed
  exact h.of_kbucket hclose.indexed (hclose.found h.found) (hclose.unnamed h.unnamed)
    hclose.kbucket hc.notify

/-- The leave of `p` is told: its node, if it has one, is joined no more. -/
theorem Settled.joined_closes (h : Settled s) (hc : Turn (P2PState.Closes · · p) s s')
    (hp : s.state.nodeOf p ≠ "" → s.state.HasContact (s.state.nodeOf p)) (nodeid : String) :
    Joined s' nodeid ↔ Joined s nodeid ∧ nodeid ≠ s.state.nodeOf p := by
  have hclose := hc.state h.indexed
  unfold Joined
  rw [hc.notify, hclose.present_iff]
  constructor
  · intro ⟨hne, hor⟩
    rcases hor with hm | ⟨hpres, hother⟩
    · refine ⟨⟨hne, .inl hm⟩, fun he => ?_⟩
      exact (h.notified nodeid hm).2 (he ▸ hp (he ▸ hne))
    · exact ⟨⟨hne, .inr hpres⟩, Ne.symm hother⟩
  · intro ⟨⟨hne, hor⟩, hother⟩
    exact ⟨hne, hor.imp id fun hpres => ⟨hpres, Ne.symm hother⟩⟩

theorem Settled.activates (h : Settled s) (hs : s.state.slot p = none)
    (hl : ∀ q, (s.state.holder addr).bind StateItem.peer = some q → ¬ s.state.Left q)
    (hc : Turn (P2PState.Activates · · addr p) s s') :
    Settled s' ∧ ∀ nodeid, Joined s' nodeid ↔ Joined s nodeid := by
  have hact := hc.state h.indexed
  exact ⟨h.of_kbucket hact.indexed (hact.found hs h.found) (hact.unnamed h.unnamed)
      hact.kbucket hc.notify,
    joined_iff_of_present hc.notify fun _ hne => hact.present_iff hs hl hne⟩

/-- The drop that waits for a node is told. -/
theorem Settled.forgets (h : Settled s) {removed : String} (hm : removed ∈ s.notifyRemovedPeers) :
    Settled { s with notifyRemovedPeers := s.notifyRemovedPeers.erase removed } ∧
      ∀ nodeid, Joined { s with notifyRemovedPeers := s.notifyRemovedPeers.erase removed } nodeid ↔
        Joined s nodeid ∧ nodeid ≠ removed := by
  have hmem : ∀ nodeid, nodeid ∈ s.notifyRemovedPeers.erase removed ↔
      nodeid ≠ removed ∧ nodeid ∈ s.notifyRemovedPeers := fun nodeid => AList.mem_erase
  refine ⟨⟨h.indexed, h.found, h.unnamed, h.distinct, fun nodeid hn => ?_⟩, fun nodeid => ?_⟩
  · exact h.notified nodeid ((hmem nodeid).mp hn).2
  · unfold Joined
    dsimp only
    rw [hmem]
    constructor
    · intro ⟨hne, hor⟩
      rcases hor with ⟨hother, hn⟩ | hpres
      · exact ⟨⟨hne, .inl hn⟩, hother⟩
      · exact ⟨⟨hne, .inr hpres⟩, fun he => (h.notified removed hm).2 (he ▸ hpres.contact)⟩
    · intro ⟨⟨hne, hor⟩, hother⟩
      exact ⟨hne, hor.imp (fun hn => ⟨hother, hn⟩) id⟩

/-! ## `remove_pending` -/

/-- What is removed and to be told is of a node that has joined, and no other contact is in
the place of its node. -/
structure Releases (s : Internals) : Prop where
  joined : ∀ q, s.state.dueOf q → s.state.nodeOf q ≠ "" → s.state.noticeOf q →
    Joined s (s.state.nodeOf q)
  place : ∀ q, s.state.dueOf q → s.state.nodeOf q ≠ "" → ∀ c ∈ s.state.kbucket.contacts,
    stringDistance c.nodeId = stringDistance (s.state.nodeOf q) → c.nodeId = s.state.nodeOf q

theorem Settled.clears (h : Settled s) (hr : Releases s) (hc : Clearing s s') :
    Settled s' ∧ ∀ nodeid, Joined s' nodeid ↔ Joined s nodeid := by
  obtain ⟨keys, hclears, hnotify⟩ := hc.state
  have hcontact : ∀ nodeid, nodeid ≠ "" → (s'.state.HasContact nodeid ↔
      s.state.HasContact nodeid ∧ ∀ q, s.state.dueOf q → s.state.nodeOf q ≠ nodeid) :=
    fun nodeid hne => hclears.hasContact_iff h.found h.unnamed h.distinct hr.place hne
  refine ⟨⟨hclears.indexed, hclears.found h.found, hclears.unnamed h.unnamed, ?_, ?_⟩, ?_⟩
  · rw [hclears.kbucket]
    exact P2PState.distinct_eraseContacts h.distinct keys
  · intro nodeid hm
    rcases (hnotify nodeid).mp hm with hold | hkey
    · obtain ⟨hne, hnot⟩ := h.notified nodeid hold
      exact ⟨hne, fun hc' => hnot ((hcontact nodeid hne).mp hc').1⟩
    · obtain ⟨hne, q, hdue, hq, -⟩ := hclears.ofKey h.found h.unnamed _ hkey
      exact ⟨hne, fun hc' => ((hcontact nodeid hne).mp hc').2 q hdue hq⟩
  · intro nodeid
    refine and_congr_right fun hne => ?_
    rw [hnotify, hclears.present_iff (hcontact nodeid hne) hne]
    constructor
    · intro hor
      rcases hor with (hold | hkey) | hpres
      · exact .inl hold
      · obtain ⟨hqne, q, hdue, hq, hnotice⟩ := hclears.ofKey h.found h.unnamed _ hkey
        dsimp only at hq hnotice
        exact hq ▸ (hr.joined q hdue (hq ▸ hne) hnotice).2
      · exact .inr hpres.1
    · intro hor
      rcases hor with hold | hpres
      · exact .inl (.inl hold)
      · by_cases hsome : ∃ q, s.state.dueOf q ∧ s.state.nodeOf q = nodeid
        · obtain ⟨q, hdue, hq⟩ := hsome
          have hkey := hclears.keyOf q hdue (hq ▸ hne)
          rw [hpres.noticed q hq, hq] at hkey
          exact .inl (.inr hkey)
        · exact .inr ⟨hpres, fun q hdue hq => hsome ⟨q, hdue, hq⟩⟩

/-! ## Registration -/

/-- What a registration of `p` under a node asks for: `p` has not left, and neither has another
connection of a node that gets a contact. -/
structure Registrable (p : PeerId) (nodeid : String) (status : ContactStatus) (s : Internals) :
    Prop where
  stays : ¬ s.state.Left p
  others : status = .newContact → ∀ q, q ≠ p → s.state.nodeOf q = nodeid → s.state.noticeOf q

theorem Settled.added {c : Konnection} {status : ContactStatus} {b : KBucket Konnection}
    (h : Settled s) (hb : P2PState.Added s.state.kbucket c status b)
    (hquiet : ∀ nodeid, nodeid ∉ s.notifyRemovedPeers) :
    Settled { s with state := { s.state with kbucket := b } } :=
  ⟨h.indexed, h.found, h.unnamed, Added.distinct hb h.distinct,
    fun nodeid hm => absurd hm (hquiet nodeid)⟩

theorem Settled.registers {nodeid : String} {status : ContactStatus} {b : KBucket Konnection}
    (h : Settled s) (hb : P2PState.Added s.state.kbucket ⟨nodeid, p⟩ status b)
    (hquiet : ∀ other, other ∉ s.notifyRemovedPeers) (hr : Registrable p nodeid status s)
    (hc : Turn (fun t t' => P2PState.Adopts { t with kbucket := b } t' p nodeid) s s') :
    Settled s' ∧ ∀ other, Joined s' other ↔
      Joined s other ∨ status = .newContact ∧ nodeid ≠ "" ∧ other = nodeid := by
  have hadopt := hc.state h.indexed
  have hbase := h.added hb hquiet
  have hcontact : ∀ other, { s.state with kbucket := b }.HasContact other ↔
      s.state.HasContact other ∨ status = .newContact ∧ nodeid = other := fun other =>
    P2PState.Added.hasContact_iff hb
  refine ⟨hbase.of_kbucket hadopt.indexed (hadopt.found h.found) (hadopt.unnamed h.unnamed)
    hadopt.kbucket hc.notify, fun other => ?_⟩
  unfold Joined
  rw [hc.notify]
  by_cases hnew : status = .newContact ∧ nodeid = other
  · obtain ⟨hstatus, rfl⟩ := hnew
    constructor
    · intro ⟨hne, _⟩
      exact .inr ⟨hstatus, hne, rfl⟩
    · intro hor
      have hne : nodeid ≠ "" := hor.elim And.left fun hnew => hnew.2.1
      exact ⟨hne, .inr (hadopt.present ((hcontact nodeid).mpr (.inr ⟨hstatus, rfl⟩)) hne
        (hr.others hstatus))⟩
  · have hsame : { s.state with kbucket := b }.HasContact other ↔ s.state.HasContact other :=
      (hcontact other).trans (or_iff_left hnew)
    rw [or_iff_left fun hboth : status = .newContact ∧ nodeid ≠ "" ∧ other = nodeid =>
      hnew ⟨hboth.1, hboth.2.2.symm⟩]
    refine and_congr_right fun hne => or_congr_right ((hadopt.present_iff fun hc' hp => ?_).trans
      ⟨fun hp => ⟨hsame.mp hp.contact, hp.noticed⟩, fun hp => ⟨hsame.mpr hp.contact, hp.noticed⟩⟩)
    by_contra hnot
    have hp : s.state.nodeOf p = other := hp
    exact hr.stays ⟨hp ▸ hne, Bool.eq_false_iff.mpr hnot, hp ▸ hsame.mp hc'⟩

/-- A `Ping` is registered, and the `Pong` cannot be sent. -/
theorem Settled.unanswered {nodeid : String} {status : ContactStatus} {b : KBucket Konnection}
    (h : Settled s) (hb : P2PState.Added s.state.kbucket ⟨nodeid, p⟩ status b)
    (hquiet : ∀ other, other ∉ s.notifyRemovedPeers) (hr : status = .newContact → nodeid = "")
    (hc : Turn (fun t t' => P2PState.Same { t with kbucket := b } t') s s') :
    Settled s' ∧ ∀ other, Joined s' other ↔ Joined s other := by
  have hsame := hc.state h.indexed
  have hbase := h.added hb hquiet
  refine ⟨hbase.of_kbucket hsame.indexed (hsame.found h.found) (hsame.unnamed h.unnamed)
    hsame.kbucket hc.notify, joined_iff_of_present hc.notify fun other hne => ?_⟩
  have hcontact : { s.state with kbucket := b }.HasContact other ↔ s.state.HasContact other :=
    (P2PState.Added.hasContact_iff hb).trans (or_iff_left fun hnew => hne (hnew.2 ▸ hr hnew.1))
  exact (hsame.present_iff h.indexed).trans ⟨fun hp => ⟨hcontact.mp hp.contact, hp.noticed⟩,
    fun hp => ⟨hcontact.mpr hp.contact, hp.noticed⟩⟩

end

end MeshPP.P2PSocket
