import MeshPP.Kbucket.Representation
import MeshPP.P2PSocket.Speech

/-! # The registration of a `Ping`

A `Ping` that is accepted is registered whatever node it names, except this one:
the bucket throws when it is asked to hold its own origin. A `Pong` and the
filter of candidates leave the own id out, a `Ping` does not. -/

set_option linter.unusedSectionVars false

namespace MeshPP.P2PSocket
open MeshPP.Lib MeshPP.Kbucket

/-! ## The bucket of a node -/

section
variable [Sha256] [EmptyDestination] [Library] {selfId : String}

/-- The bucket is in order, and its origin is this node. -/
structure Owned (selfId : String) (s : Internals) : Prop where
  indexed : s.state.Indexed
  sound : s.state.kbucket.Sound
  origin : s.state.kbucket.origin.nodeId = selfId
  name : s.state.selfId = selfId

theorem Owned.of_eq {s s' : Internals} (h : Owned selfId s) (hi : s'.state.Indexed)
    (hk : s'.state.kbucket = s.state.kbucket) (hs : s'.state.selfId = s.state.selfId) :
    Owned selfId s' :=
  ⟨hi, hk ▸ h.sound, hk ▸ h.origin, hs.trans h.name⟩

theorem Owned.added {s s' : Internals} {c : Konnection} {status : ContactStatus}
    {b : KBucket Konnection} (h : Owned selfId s)
    (hb : P2PState.Added s.state.kbucket c status b) (hi : s'.state.Indexed)
    (hk : s'.state.kbucket = b) (hs : s'.state.selfId = s.state.selfId) : Owned selfId s' := by
  have hsound : b.Sound ∧ b.origin = s.state.kbucket.origin := by
    cases hb with
    | existing hf => exact ⟨h.sound, rfl⟩
    | full hf hins => exact ⟨h.sound, rfl⟩
    | new hf hins =>
      have hstep := h.sound.step (.insert c)
      rw [KBucket.step_insert_ok hins] at hstep
      exact hstep
  exact ⟨hi, hk ▸ hsound.1, by rw [hk, hsound.2]; exact h.origin, hs.trans h.name⟩

theorem sound_eraseContacts {t : P2PState} (h : t.kbucket.Sound) (keys : List (String × Bool)) :
    (t.eraseContacts keys).kbucket.Sound ∧
      (t.eraseContacts keys).kbucket.origin = t.kbucket.origin := by
  unfold P2PState.eraseContacts
  dsimp only
  generalize t.kbucket = b at h ⊢
  induction keys generalizing b with
  | nil => exact ⟨h, rfl⟩
  | cons key keys ih =>
    have hstep := h.step (.erase ⟨key.1, ""⟩)
    exact ⟨(ih _ hstep.1).1, (ih _ hstep.1).2.trans hstep.2⟩

theorem bears_owned : Bears (Owned selfId) .none where
  indexed _ h := h.indexed
  calm s s' h hc :=
    have hsame := hc.state h.indexed
    h.of_eq hsame.indexed hsame.kbucket hsame.selfId
  activates s s' addr p h _ ha :=
    have hact := ha.state h.indexed
    h.of_eq hact.indexed hact.kbucket hact.selfId
  clears s s' h hc := by
    obtain ⟨keys, hclears, -⟩ := hc.state
    obtain ⟨hsound, horigin⟩ := sound_eraseContacts h.sound keys
    refine ⟨hclears.indexed, ?_, ?_, hclears.selfId.trans h.name⟩
    · rw [hclears.kbucket]
      exact hsound
    · rw [hclears.kbucket, horigin]
      exact h.origin
  forgets s nodeid h _ := ⟨h.indexed, h.sound, h.origin, h.name⟩
  drops s s' peer p h _ _ hc :=
    have hclose := hc.state h.indexed
    h.of_eq hclose.indexed hclose.kbucket hclose.selfId
  effect s s' p r x result h _ he := by
    have h₀ : Owned selfId (s.delivered p x.1) := ⟨h.indexed, h.sound, h.origin, h.name⟩
    generalize hpacket : x.1 = packet at he h₀
    cases he with
    | calm hm hc =>
      have hsame := hc.state h.indexed
      exact h₀.of_eq hsame.indexed hsame.kbucket hsame.selfId
    | thrown hc =>
      have hsame := hc.state h.indexed
      exact h₀.of_eq hsame.indexed hsame.kbucket hsame.selfId
    | ignored hc =>
      have hsame := hc.state h.indexed
      exact h₀.of_eq hsame.indexed hsame.kbucket hsame.selfId
    | joined hport ha hr =>
      have hact := ha.state h.indexed
      exact h₀.of_eq hact.indexed hact.kbucket hact.selfId
    | errored hc =>
      have hclose := hc.state h.indexed
      exact h₀.of_eq hclose.indexed hclose.kbucket hclose.selfId
    | dropped hc =>
      have hclose := hc.state h.indexed
      exact h₀.of_eq hclose.indexed hclose.kbucket hclose.selfId
    | registered hacc hb hstatus hsend ht =>
      have hadopt := ht.state h.indexed
      exact h₀.added hb hadopt.indexed hadopt.kbucket hadopt.selfId
    | unanswered hacc hb hsend ht =>
      have hsame := ht.state h.indexed
      exact h₀.added hb hsame.indexed hsame.kbucket hsame.selfId

theorem owned_create {discoveryServer : Bool} {bindToAddress : IpAddress}
    {connectToAddresses : List IpAddress} {s : Internals}
    (h : create discoveryServer bindToAddress connectToAddresses selfId = .ok s) :
    Owned selfId s := by
  obtain ⟨hsame, -, -⟩ := create_same h
  refine ⟨hsame.indexed, ?_, ?_, hsame.selfId⟩
  · rw [hsame.kbucket]
    exact KBucket.sound_init _
  · rw [hsame.kbucket]
    rfl

/-- A state in front of a packet: some operations were done, and then some packets of the
batch that `p` is delivering. -/
def InFrontOf (s₀ : Internals) (ops : List P2POp) (peer : PeerId) (p : PeerId)
    (packets : List (Packet × PacketCalls)) (r : Received) (s : Internals) : Prop :=
  packets.foldlM (receivePacket p) ⟨peer, .none, []⟩ (final Internals.step s₀ ops) = .ok r s

theorem Bears.inFrontOf {I : Internals → Prop} (hb : Bears I .none) {s₀ s : Internals}
    {ops : List P2POp} {peer p : PeerId} {packets : List (Packet × PacketCalls)} {r : Received}
    (hi : I s₀) (h : InFrontOf s₀ ops peer p packets r s) : I s := by
  have hfinal := hb.final hi (meets_of_forall stepMeets_none s₀ ops)
  have hfold := leaves_foldlM_meets (C := fun _ _ _ => True) (f := receivePacket p) (fun _ s => I s)
    (fun x r t _ ht => hb.packet ht trivial) packets ⟨peer, .none, []⟩ _
    (foldMeets_of_forall (fun _ _ _ => trivial) packets _ _) hfinal
  exact hfold.of_ok h

/-! ## The registration -/

/-- The `Pong` that answers a `Ping` which is registered. -/
def registeredPong (selfId : String) (msg : Ping) (time : Int) : Packet :=
  .pong ⟨selfId, time,
    if msg.signature ≠ "" then Library.sign (stampedMessage selfId time) else ""⟩

/-- `receive` registers the `Ping` with this status: the bucket becomes the one that `add_contact`
makes of it, the `Pong` is sent, and the status decides what is returned and whether the item of
the peer gets the node. The node is not one of its own contacts, and `receive` goes on to the
packets behind the `Ping`. -/
structure RegistersAs (p : PeerId) (r : Received) (msg : Ping) (calls : PacketCalls)
    (s : Internals) (status : ContactStatus) (r' : Received) (s' : Internals) : Prop where
  run : receivePacket p r (.ping msg, calls) s = .ok r' s'
  added : P2PState.Added s.state.kbucket ⟨msg.nodeid, p⟩ status s'.state.kbucket
  answers : s'.trace = s.trace ++ [.delivered p (.ping msg),
    .sent p (registeredPong s.state.selfId msg calls.time)]
  returns : r' = if msg.nodeid ≠ "" ∧ status = .newContact then
    (r.connected (.ping msg) calls).push msg.nodeid .streamJoin else r.connected (.ping msg) calls
  named : status ≠ .noContact → (s.state.slot p).isSome → s'.state.nodeOf p = msg.nodeid
  apart : ∀ c ∈ s'.state.kbucket.contacts, stringDistance c.nodeId ≠ stringDistance s'.state.selfId
  resumes : ∀ rest, ((.ping msg, calls) :: rest).foldlM (receivePacket p) r s =
    rest.foldlM (receivePacket p) r' s'

/-- The registration ends with one of the three statuses. -/
def Registers (p : PeerId) (r : Received) (msg : Ping) (calls : PacketCalls) (s : Internals) :
    Prop :=
  ∃ status r' s', RegistersAs p r msg calls s status r' s'

/-- The exception of `KBucket::insert`. -/
def zeroDistance : P2PError :=
  .logicError "Trying to insert contact with 0 distance from the origin, i.e. self"

section
variable {s : Internals} {c : Konnection} {p : PeerId} {msg : Ping} {calls : PacketCalls}
  {r : Received}

theorem Owned.find_self (h : Owned selfId s) (hc : stringDistance c.nodeId = stringDistance selfId) :
    s.state.kbucket.find c = none := by
  refine KBucket.find_eq_none.mpr fun d hd he => h.sound.apart d hd ?_
  rw [contactDistance_eq_zero, h.origin, he, hc]

theorem Owned.find_apart (h : Owned selfId s) (hc : c ∈ s.state.kbucket.contacts) :
    stringDistance c.nodeId ≠ stringDistance s.state.selfId := by
  intro he
  refine h.sound.apart c hc ?_
  rw [contactDistance_eq_zero, h.origin, he, h.name]

theorem Owned.insert_self (h : Owned selfId s)
    (hc : stringDistance c.nodeId = stringDistance selfId) : s.state.kbucket.insert c =
      .error "Trying to insert contact with 0 distance from the origin, i.e. self" := by
  refine KBucket.insert_self ?_
  rw [contactDistance_eq_zero, h.origin, hc]

/-- A contact can be added if it is not this node. -/
theorem Owned.exists_added (h : Owned selfId s)
    (hc : stringDistance c.nodeId ≠ stringDistance selfId) :
    ∃ status b, P2PState.Added s.state.kbucket c status b := by
  have hz : contactDistance s.state.kbucket.origin c ≠ 0 := by
    rw [ne_eq, contactDistance_eq_zero, h.origin, eq_comm]
    exact hc
  cases hf : s.state.kbucket.find c with
  | some d => exact ⟨_, _, .existing hf⟩
  | none =>
    by_cases ha : s.state.kbucket.Admits c
    · obtain ⟨b, hok, -⟩ := KBucket.insert_of_admits h.sound hz ha
      exact ⟨_, _, .new hf hok⟩
    · exact ⟨_, _, .full hf (KBucket.insert_of_not_admits hz ha)⟩

theorem Owned.addContact_self (h : Owned selfId s)
    (hc : stringDistance msg.nodeid = stringDistance selfId) :
    addContact p msg.nodeid s = .error zeroDistance s := by
  have hins := h.insert_self (c := ⟨msg.nodeid, p⟩) hc
  unfold addContact
  rw [get_bind_run]
  rcases s.state.addContact_cases p msg.nodeid with ⟨status, b, hb, -⟩ | ⟨-, what, hwhat, hrun⟩
  · cases hb with
    | existing hf => cases (h.find_self (c := ⟨msg.nodeid, p⟩) hc).symm.trans hf
    | new hf hok => cases hins.symm.trans hok
    | full hf hok => cases hins.symm.trans hok
  · rw [hrun]
    obtain rfl := Except.error.inj (hins.symm.trans hwhat)
    rfl

theorem addContact_run {status : ContactStatus} {b : KBucket Konnection}
    (hb : P2PState.Added s.state.kbucket ⟨msg.nodeid, p⟩ status b) :
    addContact p msg.nodeid s = .ok status { s with state := { s.state with kbucket := b } } := by
  unfold addContact
  rw [get_bind_run, hb.addContact_eq]
  rfl

/-- What the registration leaves, with the status that `add_contact` gives. -/
theorem registerPing_returns (hi : s.state.Indexed) {status : ContactStatus}
    {b : KBucket Konnection} (hb : P2PState.Added s.state.kbucket ⟨msg.nodeid, p⟩ status b)
    (hsend : calls.send 0 = true) :
    ∃ s', registerPing p msg calls r s = .ok (if msg.nodeid ≠ "" ∧ status = .newContact then
        r.push msg.nodeid .streamJoin else r) s' ∧
      s'.state.kbucket = b ∧
      s'.trace = s.trace ++ [.sent p (registeredPong s.state.selfId msg calls.time)] ∧
      (status ≠ .noContact →
        P2PState.Adopts { s.state with kbucket := b } s'.state p msg.nodeid) := by
  let s₁ : Internals :=
    { s with
      state := { s.state with kbucket := b }
      trace := s.trace ++ [.sent p (registeredPong s.state.selfId msg calls.time)] }
  have hi₁ : s₁.state.Indexed := ((P2PState.Same.refl hi).setKbucket b).indexed
  have hstart : registerPing p msg calls r s = (if status ≠ .noContact then do
      updateState fun t => t.removeLater p 10 true true
      tryState fun t => t.setActiveNodeid p msg.nodeid
      return if msg.nodeid ≠ "" ∧ status = .newContact then r.push msg.nodeid .streamJoin else r
    else do
      updateState fun t => t.processNodeDrop msg.nodeid
      return r : SocketM Received) s₁ := by
    unfold registerPing
    rw [bind_run_ok (addContact_run hb), get_bind_run, hsend]
    rfl
  rw [hstart]
  by_cases hno : status = .noContact
  · subst hno
    have hdrop := same_processNodeDrop hi₁ msg.nodeid
    rw [if_neg fun hne => hne rfl, if_neg fun hnew => nomatch hnew.2]
    exact ⟨{ s₁ with state := s₁.state.processNodeDrop msg.nodeid }, rfl, hdrop.kbucket, rfl,
      fun hne => absurd rfl hne⟩
  · have hlater := hi₁.removeLater p 10 true true
    obtain ⟨t', hset, hnamed⟩ := hlater.indexed.setActiveNodeid p msg.nodeid
    rw [if_pos hno]
    refine ⟨{ s₁ with state := t' }, ?_, hnamed.kbucket.trans hlater.kbucket, rfl, fun _ => ?_⟩
    · exact bind_run_ok (tryState_run hset)
    · exact (P2PState.Same.refl hi₁).adopts hi₁ hlater hnamed

/-- The checks of a `Ping` send nothing. -/
theorem trace_checkPing {b : Bool} {s' : Internals} (h : checkPing p msg calls r s = .ok b s') :
    s'.trace = s.trace := by
  have hmute : Ends (utters fun _ _ => False) (checkPing p msg calls r) s fun _ _ => True :=
    utters_checkPing msg
  obtain ⟨⟨-, new, htrace, hnone⟩, -⟩ := hmute.of_ok h
  have hnil : new = [] := List.eq_nil_iff_forall_not_mem.mpr hnone
  rw [htrace, hnil]
  exact List.append_nil _

/-- In a state in front of a packet, an accepted `Ping` is registered unless it names this node,
and `KBucket::insert` throws if it does. -/
theorem Owned.registers (h : Owned selfId s)
    (ha : Accepted (s.delivered p (.ping msg)) p msg calls (r.connected (.ping msg) calls))
    (hsend : calls.send 0 = true) :
    (stringDistance msg.nodeid ≠ stringDistance selfId → Registers p r msg calls s) ∧
      (stringDistance msg.nodeid = stringDistance selfId →
        ∃ s', receivePacket p r (.ping msg, calls) s = .error zeroDistance s') := by
  obtain ⟨s₁, hcheck⟩ := ha
  have hsame := ((calm_checkPing p msg calls _).of_ok hcheck).1.state h.indexed
  have h₁ : Owned selfId s₁ := h.of_eq hsame.indexed hsame.kbucket hsame.selfId
  have hrun : receivePacket p r (.ping msg, calls) s =
      registerPing p msg calls (r.connected (.ping msg) calls) s₁ := by
    rw [receivePacket_run h.indexed]
    exact bind_run_ok hcheck
  constructor
  · intro hne
    obtain ⟨status, b, hb⟩ := h₁.exists_added (c := ⟨msg.nodeid, p⟩) hne
    obtain ⟨s', hreg, hk, htrace, hadopt⟩ := registerPing_returns h₁.indexed hb hsend
      (r := r.connected (.ping msg) calls)
    refine ⟨status, _, s', hrun.trans hreg, ?_, ?_, rfl, fun hno hslot => ?_, fun c hc => ?_,
      fun rest => ?_⟩
    · have hb' : P2PState.Added s.state.kbucket ⟨msg.nodeid, p⟩ status b := hsame.kbucket ▸ hb
      exact hk ▸ hb'
    · have hname : s₁.state.selfId = s.state.selfId := hsame.selfId
      rw [htrace, trace_checkPing hcheck, hname]
      exact List.append_assoc _ _ _
    · have hslot₁ : (s₁.state.slot p).isSome := by
        rw [hsame.slot]
        exact hslot
      exact ((hadopt hno).nodeOf p).trans (if_pos ⟨rfl, hslot₁⟩)
    · have hs' : Owned selfId s' := (bears_owned.packet h trivial).of_ok (hrun.trans hreg)
      exact hs'.find_apart hc
    · rw [List.foldlM_cons]
      exact bind_run_ok (hrun.trans hreg)
  · intro heq
    refine ⟨s₁, hrun.trans ?_⟩
    unfold registerPing
    exact bind_run_error (h₁.addContact_self heq)

theorem Registers.run (h : Registers p r msg calls s) :
    ∃ r' s', receivePacket p r (.ping msg, calls) s = .ok r' s' := by
  obtain ⟨_, r', s', hreg⟩ := h
  exact ⟨r', s', hreg.run⟩

theorem Owned.registers_iff (h : Owned selfId s)
    (ha : Accepted (s.delivered p (.ping msg)) p msg calls (r.connected (.ping msg) calls))
    (hsend : calls.send 0 = true) :
    (Registers p r msg calls s ↔ stringDistance msg.nodeid ≠ stringDistance selfId) ∧
      ((∃ s', receivePacket p r (.ping msg, calls) s = .error zeroDistance s') ↔
        stringDistance msg.nodeid = stringDistance selfId) := by
  obtain ⟨hother, hself⟩ := h.registers ha hsend
  refine ⟨⟨fun hreg heq => ?_, hother⟩, ⟨fun ⟨s', herror⟩ => ?_, hself⟩⟩
  · obtain ⟨r', s₁, hok⟩ := hreg.run
    obtain ⟨s', herror⟩ := hself heq
    cases hok.symm.trans herror
  · by_contra hne
    obtain ⟨r', s₁, hok⟩ := (hother hne).run
    cases hok.symm.trans herror

end

/-- **An accepted `Ping` is registered exactly if it does not name this node. If it does,
`receive` throws what `KBucket::insert` throws for a distance of zero.** -/
theorem accepted_ping_registers {discoveryServer : Bool} {bindToAddress : IpAddress}
    {connectToAddresses : List IpAddress} {s₀ s : Internals}
    (hcreate : create discoveryServer bindToAddress connectToAddresses selfId = .ok s₀)
    {ops : List P2POp} {peer p : PeerId} {packets : List (Packet × PacketCalls)} {r : Received}
    (hs : InFrontOf s₀ ops peer p packets r s) {msg : Ping} {calls : PacketCalls}
    (ha : Accepted (s.delivered p (.ping msg)) p msg calls (r.connected (.ping msg) calls))
    (hsend : calls.send 0 = true) :
    (Registers p r msg calls s ↔ stringDistance msg.nodeid ≠ stringDistance selfId) ∧
      ((∃ s', receivePacket p r (.ping msg, calls) s = .error zeroDistance s') ↔
        stringDistance msg.nodeid = stringDistance selfId) :=
  (bears_owned.inFrontOf (owned_create hcreate) hs).registers_iff ha hsend

end

/-! ## A node and its peers -/

namespace Sample

/-- Three public keys, of which the first is the node's own. -/
def own : String := "PBQ7reDm5xbd2HPyvZiiJmknJ8YLG2eusATc7gKYM8z931krCUEoQ"

def second : String := "PBQ5bwficE7Vyv1mSAmt4toX47HB5GsUqKLbDjVNNndYMvvVGtvsK"

def third : String := "PBQ8biTxK5Rg8yBUXMvV4wrRQphL9RnhKWtbAHQP9LBk7nfuGCBaZ"

/-- The time at which everything happens. -/
def time : Int := 1542189600

def gmTime : String := "2018-11-14 10:00:00"

/-- The signature of each key under its stamped message. -/
def signature (nodeid : String) : String :=
  if nodeid = own then
    "iKx1CJMkNkD9Cjih62LW6ayC4fNm8hTL2R7hmXxdkmz8p7psZePxG9MNvVLWhvcktBZFky2CL3dLkqbf8M1nJo6SCGikDyreKG"
  else if nodeid = second then
    "AN1rKrYsDM8CwEayVucF1s2esjSBYbJAhFHJrt1yrcYC8wZoHFr85AVqsjn6gNAnDGw25RUP1gWrPyKv7U6cfhNqoN4MFuNKU"
  else if nodeid = third then
    "381yXZBUcD9udbpZqV92qBLpzb7xqz2aKTSNpEZubu9URr26T8SLsxrb81y6quhKnhFYtAWRnKq49s5Wr4jkY7WWv4Ju5Vc5"
  else ""

abbrev sha256 : Sha256 where
  digest str :=
    if str = own then 0x604e2fe1860309a85d70c15afee5345d7f31e6b459873dca3260c3b4bc22d332
    else if str = second then 0x5188523d6db381feb56685f2e11209b15c6b78fc0336ddc2202aa12a1f2a7a56
    else if str = third then 0xb338aa7942d22f3c42db6d6df5dfb233fa814254194fec9135bdf4013f305d76
    else 0
  digest_lt str := by
    split
    · decide
    · split
      · decide
      · split <;> decide

abbrev emptyDestination : EmptyDestination := ⟨fun d => d.address = "" ∧ d.port = 0⟩

abbrev library : Library where
  validPublicKey str := str = own ∨ str = second ∨ str = third
  verifySignature nodeid message signed :=
    signed ≠ "" ∧ message = nodeid ++ gmTime ∧ signed = signature nodeid
  sign _ := signature own
  gmTime _ := gmTime

/-- The address a peer is connected from. -/
def connection (address : String) : IpAddress :=
  ⟨⟨"203.0.113.1", 3450⟩, ⟨address, 3450⟩, .ipv4⟩

/-- All calls for a packet succeed, and the clock stands still. -/
def calls (address : String) : PacketCalls where
  info := some (connection address)
  infoConnection := some (connection address)
  infoIntroduce := some (connection address)
  send _ := true
  now := time * 10 ^ 9
  time := time

def bind : IpAddress := ⟨⟨"203.0.113.1", 3450⟩, .none, .ipv4⟩

/-- A signed `Ping` of a node, sent to where this node is. -/
def ping (nodeid : String) : Ping :=
  ⟨nodeid, time, signature nodeid, ⟨⟨"203.0.113.2", 3450⟩, ⟨"203.0.113.1", 3450⟩, .ipv4⟩⟩

end Sample

theorem Sample.place_second :
    @stringDistance Sample.sha256 second ≠ @stringDistance Sample.sha256 own := by decide +kernel

section
variable [Sha256] [EmptyDestination] [Library]

/-- `p` connects to a new node and its first `Ping` is accepted. -/
def Sample.accepts (nodeid : String) : Bool :=
  match create false bind [] own with
  | .ok s₀ => passes ([(.streamJoin, calls "203.0.113.2")].foldlM (receivePacket "p")
      ⟨"", .none, []⟩) s₀ fun r s =>
    passes (checkPing "p" (ping nodeid) (calls "203.0.113.2")
        (r.connected (.ping (ping nodeid)) (calls "203.0.113.2")))
      (s.delivered "p" (.ping (ping nodeid))) fun accepted _ => accepted
  | .error _ => false

theorem Sample.exists_of_accepts {nodeid : String} (h : accepts nodeid = true) :
    ∃ s₀ r s, create false bind [] own = .ok s₀ ∧
      InFrontOf s₀ [] "" "p" [(.streamJoin, calls "203.0.113.2")] r s ∧
      Accepted (s.delivered "p" (.ping (ping nodeid))) "p" (ping nodeid) (calls "203.0.113.2")
        (r.connected (.ping (ping nodeid)) (calls "203.0.113.2")) := by
  unfold accepts at h
  split at h
  · next s₀ hs₀ =>
    obtain ⟨r, s, hs, hcheck⟩ := exists_of_passes h
    obtain ⟨accepted, s₁, hrun, rfl⟩ := exists_of_passes hcheck
    exact ⟨s₀, r, s, hs₀, hs, s₁, hrun⟩
  · cases h

end

theorem Sample.accepts_own :
    @accepts sha256 emptyDestination library own = true := by decide +kernel

theorem Sample.accepts_second :
    @accepts sha256 emptyDestination library second = true := by decide +kernel

theorem accepted_ping_fails_own :
    ¬ ∀ [Sha256] [EmptyDestination] [Library] (discoveryServer : Bool) (bindToAddress : IpAddress)
      (connectToAddresses : List IpAddress) (selfId : String) (s₀ : Internals),
      create discoveryServer bindToAddress connectToAddresses selfId = .ok s₀ →
      ∀ (ops : List P2POp) (peer p : PeerId) (packets : List (Packet × PacketCalls)) (r : Received)
        (s : Internals), InFrontOf s₀ ops peer p packets r s → ∀ (msg : Ping) (calls : PacketCalls),
        Accepted (s.delivered p (.ping msg)) p msg calls (r.connected (.ping msg) calls) →
        calls.send 0 = true → Registers p r msg calls s := by
  intro h
  let _ := Sample.sha256
  let _ := Sample.emptyDestination
  let _ := Sample.library
  obtain ⟨s₀, r, s, hs₀, hs, ha⟩ := Sample.exists_of_accepts Sample.accepts_own
  have hreg := h false Sample.bind [] Sample.own s₀ hs₀ [] "" "p" _ r s hs _ _ ha rfl
  exact ((bears_owned.inFrontOf (owned_create hs₀) hs).registers_iff ha rfl).1.mp hreg rfl

/-- The `Ping` of another node is registered. -/
theorem accepted_ping_registers_second :
    letI := Sample.sha256
    letI := Sample.emptyDestination
    letI := Sample.library
    ∃ s r, Registers "p" r (Sample.ping Sample.second) (Sample.calls "203.0.113.2") s := by
  let _ := Sample.sha256
  let _ := Sample.emptyDestination
  let _ := Sample.library
  obtain ⟨s₀, r, s, hs₀, hs, ha⟩ := Sample.exists_of_accepts Sample.accepts_second
  exact ⟨s, r, (accepted_ping_registers hs₀ hs ha rfl).1.mpr Sample.place_second⟩

end MeshPP.P2PSocket
