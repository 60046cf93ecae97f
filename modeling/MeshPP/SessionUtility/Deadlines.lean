import MeshPP.SessionUtility.HeaderUpdate

/-! # When a session is erased

A session is contacted when `add` initiates an action on it, and when one of its
actions takes a packet. `erase_all_pending` erases the sessions for which this
is as long ago as they wait. Sessions are told apart by a key that the actions
leave as it is. -/

namespace MeshPP.SessionUtility
open MeshPP.Lib

variable {H : Type}

/-! ## Contacts -/

/-- A unique key that every header has. -/
structure SessionKey (H : Type) [HeaderKeys H] where
  index : Nat
  get : H → String
  unique : ∀ h, (HeaderKeys.uniqueKeys h)[index]? = some (get h)

def SessionKey.peerid : SessionKey SessionHeader := ⟨0, fun h => h.peerid, fun _ => rfl⟩

def SessionKey.nodeid {Address : Type} [DecidableEq Address] :
    SessionKey (NodeidSessionHeader Address) := ⟨1, fun h => h.nodeid, fun _ => rfl⟩

/-- A session is contacted, by `add` with a duration that it is to wait. -/
structure Contact where
  name : String
  time : Nat
  waitDuration : Option Nat

/-- When the session was contacted last, where the last contact comes first. -/
def lastContact (log : List Contact) (name : String) : Option Nat :=
  log.findSome? fun c => if c.name = name then some c.time else none

/-- How long `add` has last asked the session to wait. -/
def lastAsked (log : List Contact) (name : String) : Option Nat :=
  log.findSome? fun c => if c.name = name then c.waitDuration else none

section
variable [HeaderKeys H] [DecidableEq H] (key : SessionKey H)

/-- The contact that an operation makes, if it makes one. -/
def SessionManager.contact (m : SessionManager H) (op : SessionOp H) : Option Contact :=
  match op with
  | .add header _ waitDuration now _ => (m.addTarget header waitDuration).bind fun target =>
    if (m.step op).1.events = [] then none
    else some ⟨key.get target.2.2.header, now, some waitDuration⟩
  | .process peerid now _ => (m.findPeer peerid).bind fun found =>
    if (m.step op).1.result = .flag true then some ⟨key.get found.2.header, now, none⟩ else none
  | _ => none

/-- The contacts of a run, the last one first. -/
def contacts : SessionManager H → List (SessionOp H) → List Contact
  | _, [] => []
  | m, op :: ops => contacts (m.step op).2 ops ++ (m.contact key op).toList

omit [DecidableEq H] in
/-- No action changes the key of a header. -/
def SessionOp.KeepsKey : SessionOp H → Prop
  | .add _ _ _ _ answer => ∀ i h, key.get ((answer i).header h) = key.get h
  | .process _ _ answer => ∀ i h, key.get ((answer i).header h) = key.get h
  | _ => True

/-- The session is due when it has waited long enough since its last contact, which is no longer
than it was last asked to. -/
structure Dated (log : List Contact) (s : Session H) : Prop where
  due : ∃ time, lastContact log (key.get s.header) = some time ∧
    s.waitForContact = time + s.waitDuration
  asked : ∃ duration, lastAsked log (key.get s.header) = some duration ∧
    s.waitDuration ≤ duration

variable {key} {log : List Contact} {s s' : Session H} {m : SessionManager H}

/-! ## What a contact says -/

omit [DecidableEq H]

theorem Dated.of_eq (h : Dated key log s) (hk : key.get s'.header = key.get s.header)
    (hw : s'.waitForContact = s.waitForContact) (hd : s'.waitDuration = s.waitDuration) :
    Dated key log s' := by
  obtain ⟨hdue, hasked⟩ := h
  refine ⟨?_, ?_⟩
  · rwa [hk, hw, hd]
  · rwa [hk, hd]

/-- The contact is one of another session. -/
theorem Dated.other {c : Contact} (h : Dated key log s) (hne : c.name ≠ key.get s.header) :
    Dated key (c :: log) s := by
  obtain ⟨hdue, hasked⟩ := h
  unfold lastContact at hdue
  unfold lastAsked at hasked
  refine ⟨?_, ?_⟩
  · unfold lastContact
    rwa [List.findSome?_cons, if_neg hne]
  · unfold lastAsked
    rwa [List.findSome?_cons, if_neg hne]

/-- Sessions that an operation is not about. -/
theorem Dated.others {c : Option Contact} (h : Dated key log s)
    (hc : ∀ contact ∈ c, contact.name ≠ key.get s.header) : Dated key (c.toList ++ log) s := by
  cases c with
  | none => exact h
  | some contact => exact h.other (hc contact rfl)

/-- A packet has been taken. -/
theorem Dated.processed {now : Nat} (h : Dated key log s)
    (hk : key.get s'.header = key.get s.header) (hw : s'.waitForContact = now + s.waitDuration)
    (hd : s'.waitDuration = s.waitDuration) :
    Dated key (⟨key.get s.header, now, none⟩ :: log) s' := by
  obtain ⟨-, hasked⟩ := h
  unfold lastAsked at hasked
  refine ⟨⟨now, ?_, hw.trans (by rw [hd])⟩, ?_⟩
  · unfold lastContact
    rw [List.findSome?_cons, if_pos hk.symm]
  · unfold lastAsked
    rwa [List.findSome?_cons, if_pos hk.symm, hk, hd]

/-- An action has been initiated. -/
theorem Dated.added {name : String} {now waitDuration : Nat} (hk : key.get s'.header = name)
    (hw : s'.waitForContact = now + s'.waitDuration) (hd : s'.waitDuration ≤ waitDuration) :
    Dated key (⟨name, now, some waitDuration⟩ :: log) s' := by
  refine ⟨⟨now, ?_, hw⟩, ⟨waitDuration, ?_, hd⟩⟩
  · unfold lastContact
    rw [List.findSome?_cons, if_pos hk.symm]
  · unfold lastAsked
    rw [List.findSome?_cons, if_pos hk.symm]

/-! ## Headers and their keys -/

theorem Apart.key_ne {h h' : H} (ha : Apart h h') : key.get h' ≠ key.get h := by
  intro he
  exact ha key.index (key.get h) (key.unique h) (he ▸ key.unique h')

theorem scannedHeader_key {answer : Nat → Answer H}
    (hk : ∀ i h, key.get ((answer i).header h) = key.get h) (actions : List SessionAction) :
    ∀ (initiate : Bool) (index : Nat) (header : H),
      key.get (scannedHeader answer initiate index actions header) = key.get header := by
  induction actions with
  | nil => exact fun _ _ _ => rfl
  | cons a rest ih =>
    intro initiate index header
    cases initiate with
    | true =>
      rw [scannedHeader]
      split
      · rw [ih, hk]
      · exact hk _ _
    | false =>
      rw [scannedHeader]
      split
      · exact hk _ _
      · rw [ih, hk]

theorem addedHeader_key {answer : Nat → Answer H}
    (hk : ∀ i h, key.get ((answer i).header h) = key.get h) (actions : List SessionAction) :
    ∀ (index : Nat) (existing : List Nat) (previous : Bool) (header : H),
      key.get (addedHeader answer index existing previous actions header) = key.get header := by
  induction actions with
  | nil => exact fun _ _ _ _ => rfl
  | cons a rest ih =>
    intro index existing previous header
    rw [addedHeader]
    split
    · exact ih _ _ _ _
    · split
      · split
        · exact hk _ _
        · rw [ih, hk]
      · exact ih _ _ _ _

/-! ## What `add` initiates -/

namespace Adding

/-- The loop has called an action exactly if it has contacted the session, and has only then
changed the header. -/
structure Tells (header : H) (s : Adding H) : Prop where
  events : s.updateLastContacted = true ↔ s.events ≠ []
  header : s.updateLastContacted = false → s.header = header

omit [HeaderKeys H] in
theorem tells_start (session : Session H) : Tells session.header (.start session) :=
  ⟨by simp [Adding.start], fun _ => rfl⟩

omit [HeaderKeys H] in
theorem Tells.keep {header : H} {s : Adding H} (h : Tells header s) (a : SessionAction) :
    Tells header (s.keep a) := by
  unfold Adding.keep
  split
  · exact ⟨h.events, h.header⟩
  · exact h

omit [HeaderKeys H] in
theorem tells_initiated (header : H) (s : Adding H) (a : SessionAction) (r : Answer H) :
    Tells header (s.initiated a r) := by
  unfold Adding.initiated
  dsimp only
  split
  · exact ⟨by simp, by simp⟩
  · exact Tells.keep ⟨by simp, by simp⟩ _

omit [HeaderKeys H] in
theorem Tells.run {header : H} (answer : Nat → Answer H) (rest : List SessionAction) :
    ∀ (index : Nat) (s : Adding H), Tells header s →
      (Adding.run answer index s rest).thrown = false →
      Tells header (Adding.run answer index s rest) := by
  induction rest with
  | nil => exact fun _ _ h _ => h
  | cons a rest ih =>
    intro index s h
    rw [Adding.run]
    split
    · exact ih _ _ h
    · split
      · split
        · intro hthrown
          cases hthrown
        · split
          · exact fun _ => tells_initiated header s a (answer index)
          · exact ih _ _ (tells_initiated header s a (answer index))
      · exact ih _ _ (h.keep a)

omit [HeaderKeys H] in
theorem keep_updated (s : Adding H) (a : SessionAction) :
    (s.keep a).updateLastContacted = s.updateLastContacted := by
  unfold Adding.keep
  split <;> rfl

omit [HeaderKeys H] in
theorem initiated_updated (s : Adding H) (a : SessionAction) (r : Answer H) :
    (s.initiated a r).updateLastContacted = true := by
  unfold Adding.initiated
  dsimp only
  split
  · rfl
  · rw [keep_updated]

omit [HeaderKeys H] in
theorem run_updated (answer : Nat → Answer H) (rest : List SessionAction) :
    ∀ (index : Nat) (s : Adding H), s.updateLastContacted = true →
      (Adding.run answer index s rest).updateLastContacted = true := by
  induction rest with
  | nil => exact fun _ _ h => h
  | cons a rest ih =>
    intro index s h
    rw [Adding.run]
    split
    · exact ih _ _ h
    · split
      · split
        · exact h
        · split
          · exact s.initiated_updated a (answer index)
          · exact ih _ _ (s.initiated_updated a (answer index))
      · exact ih _ _ ((s.keep_updated a).trans h)

omit [HeaderKeys H] in
/-- The first action of a new session is initiated. -/
theorem run_new {answer : Nat → Answer H} {session : Session H} (hnil : session.actions = [])
    {news : List SessionAction} (hne : news ≠ [])
    (hthrown : (Adding.run answer 0 (.start session) news).thrown = false) :
    (Adding.run answer 0 (.start session) news).updateLastContacted = true := by
  cases news with
  | nil => exact absurd rfl hne
  | cons a rest =>
    have hexisting : (Adding.start session).existingPermanentActions = [] := by
      unfold Adding.start
      rw [hnil]
      rfl
    have hprevious : (Adding.start session).previousCompleted = true := by
      unfold Adding.start
      rw [hnil]
      rfl
    rw [Adding.run, hexisting, hprevious] at hthrown ⊢
    simp only [List.not_mem_nil, if_false, if_true] at hthrown ⊢
    split
    · next hthrows =>
      rw [if_pos hthrows] at hthrown
      cases hthrown
    · split
      · exact initiated_updated _ a (answer 0)
      · exact run_updated answer rest _ _ (initiated_updated _ a (answer 0))

end Adding

/-! ## What an operation leaves -/

namespace SessionManager

omit [HeaderKeys H] in
theorem mem_setAt {index : Nat} {session : Session H} (hlt : index < m.sessions.length)
    (h : s ∈ (m.setAt index session).sessions) :
    s = session ∨ s ∈ m.sessions.eraseIdx index := by
  unfold SessionManager.setAt at h
  dsimp only at h
  rw [List.set_eq_take_append_cons_drop, if_pos hlt] at h
  rw [List.eraseIdx_eq_take_drop_succ, List.mem_append]
  rcases List.mem_append.mp h with h | h
  · exact .inr (.inl h)
  · exact (List.mem_cons.mp h).imp id .inr

theorem mem_replaceAt {index : Nat} {session : Session H} (hlt : index < m.sessions.length)
    (h : s ∈ (m.replaceAt index session).sessions) :
    s = session ∨ s ∈ m.sessions.eraseIdx index := by
  unfold SessionManager.replaceAt at h
  split at h
  · exact .inr h
  · exact mem_setAt hlt h

variable [DecidableEq H] {index : Nat} {session : Session H} {now : Nat} {answer : Nat → Answer H}

/-- `process` leaves the session with another deadline exactly if a packet has been taken. -/
theorem mem_processAt (hlt : index < m.sessions.length)
    (h : s ∈ (m.processAt index session now answer).2.sessions) :
    s ∈ m.sessions.eraseIdx index ∨
      (Scan.run answer (.start session.header) session.actions).thrown = false ∧
        s.header = (Scan.run answer (.start session.header) session.actions).header ∧
        s.waitDuration = session.waitDuration ∧ s.waitForContact =
          if (Scan.run answer (.start session.header) session.actions).updateLastContacted then
            now + session.waitDuration
          else session.waitForContact := by
  unfold SessionManager.processAt at h
  dsimp only at h
  generalize Scan.run answer (.start session.header) session.actions = r at h ⊢
  split at h
  · exact .inl h
  · next hthrown =>
    dsimp only at h
    split at h
    · exact .inl h
    · split at h
      · exact .inl h
      · split at h
        · refine (mem_replaceAt hlt h).symm.imp id fun he => ?_
          subst he
          exact ⟨Bool.eq_false_iff.mpr hthrown, rfl, rfl, rfl⟩
        · next hsame =>
          obtain ⟨hheader, hcalm⟩ := not_or.mp hsame
          refine (mem_setAt hlt h).symm.imp id fun he => ?_
          subst he
          refine ⟨Bool.eq_false_iff.mpr hthrown, (not_not.mp hheader).symm, rfl, ?_⟩
          rw [if_neg hcalm]

/-- `add` leaves the session with another deadline exactly if it has initiated an action. -/
theorem mem_addAt {news : List SessionAction} {waitDuration : Nat}
    (hlt : index < m.sessions.length)
    (h : s ∈ (m.addAt index session news waitDuration now answer).2.sessions) :
    s ∈ m.sessions.eraseIdx index ∨
      (Adding.run answer 0 (.start session) news).thrown = false ∧
        s.header = (Adding.run answer 0 (.start session) news).header ∧
        if (Adding.run answer 0 (.start session) news).updateLastContacted then
          s.waitForContact = now + s.waitDuration ∧ s.waitDuration ≤ waitDuration
        else s.waitForContact = session.waitForContact ∧
          s.waitDuration = session.waitDuration := by
  have htells := Adding.Tells.run answer news 0 _ (Adding.tells_start session)
  unfold SessionManager.addAt at h
  dsimp only at h
  generalize Adding.run answer 0 (.start session) news = r at h htells ⊢
  split at h
  · exact .inl h
  · next hthrown =>
    have hreturned := Bool.eq_false_iff.mpr hthrown
    dsimp only at h
    split at h
    · exact .inl h
    · split at h
      · exact .inl h
      · split at h
        · next hupdate =>
          -- the header is changed only where an action is initiated
          have hcontacted : r.updateLastContacted = true := by
            refine hupdate.elim (fun hne => ?_) id
            by_contra hcalm
            exact hne ((htells hreturned).header (Bool.eq_false_iff.mpr hcalm))
          refine (mem_replaceAt hlt h).symm.imp id fun he => ?_
          subst he
          rw [if_pos hcontacted, if_pos hcontacted]
          exact ⟨hreturned, rfl, rfl, Nat.min_le_right _ _⟩
        · next hsame =>
          obtain ⟨hheader, hcalm⟩ := not_or.mp hsame
          refine (mem_setAt hlt h).symm.imp id fun he => ?_
          subst he
          rw [if_neg hcalm]
          exact ⟨hreturned, (not_not.mp hheader).symm, rfl, rfl⟩

/-! ## Steps -/

omit [DecidableEq H] in
/-- The sessions that `add` goes on with are the old ones and a new one without actions. -/
theorem target_old {header : H} {waitDuration : Nat} {sessions : List (Session H)}
    (ht : m.addTarget header waitDuration = some (sessions, index, session)) :
    ∀ t ∈ sessions, t ∈ m.sessions ∨ t = session ∧ session.actions = [] := by
  unfold addTarget at ht
  split at ht
  · cases ht
    intro t hmem
    exact (List.mem_append.mp hmem).imp id fun he => ⟨List.mem_singleton.mp he, rfl⟩
  · split at ht
    · cases ht
      exact fun t hmem => .inl hmem
    · cases ht

theorem addAt_events {news : List SessionAction} {waitDuration : Nat} :
    (m.addAt index session news waitDuration now answer).1.events =
      (Adding.run answer 0 (.start session) news).events := by
  unfold SessionManager.addAt
  dsimp only
  split <;> rfl

theorem processAt_result
    (h : (Scan.run answer (.start session.header) session.actions).thrown = false) :
    (m.processAt index session now answer).1.result =
      .flag (Scan.run answer (.start session.header) session.actions).updateLastContacted := by
  unfold SessionManager.processAt
  dsimp only
  rw [h]
  rfl

theorem dated_process {peerid : String} (hu : m.Unique)
    (hk : ∀ i h, key.get ((answer i).header h) = key.get h)
    (h : ∀ s ∈ m.sessions, Dated key log s) :
    ∀ s ∈ (m.step (.process peerid now answer)).2.sessions,
      Dated key ((m.contact key (.process peerid now answer)).toList ++ log) s := by
  unfold SessionManager.contact
  dsimp only
  cases hf : m.findPeer peerid with
  | none =>
    have hstep : (m.step (.process peerid now answer)).2 = m := by
      unfold SessionManager.step SessionManager.process
      dsimp only
      rw [hf]
      split <;> rfl
    rw [hstep]
    exact h
  | some found =>
    obtain ⟨index, session⟩ := found
    by_cases hempty : peerid = ""
    · have hstep : m.step (.process peerid now answer) = (⟨.flag false, []⟩, m) := by
        unfold SessionManager.step SessionManager.process
        dsimp only
        rw [if_pos hempty]
      rw [hstep, Option.bind_some]
      dsimp only
      rw [if_neg (by decide)]
      exact h
    · have hstep : m.step (.process peerid now answer) = m.processAt index session now answer := by
        unfold SessionManager.step SessionManager.process
        dsimp only
        rw [if_neg hempty, hf]
      rw [hstep, Option.bind_some]
      have hs : m.sessions[index]? = some session := first_spec hf
      have hlt := (List.getElem?_eq_some_iff.mp hs).1
      intro t ht
      rcases mem_processAt hlt ht with hother | ⟨hthrown, hheader, hduration, hwait⟩
      · refine Dated.others (h t ((List.eraseIdx_sublist _ _).subset hother)) fun c hc => ?_
        split at hc
        · obtain rfl := Option.some.inj hc
          exact (hu.free hs t hother).key_ne
        · cases hc
      · have hkey : key.get t.header = key.get session.header := by
          rw [hheader, Scan.run_header answer _ _ rfl hthrown, scannedHeader_key hk]
          rfl
        have hsession := h session (List.mem_of_getElem? hs)
        rw [processAt_result hthrown]
        cases hupdate :
            (Scan.run answer (.start session.header) session.actions).updateLastContacted with
        | true =>
          rw [hupdate, if_pos rfl] at hwait
          rw [if_pos rfl]
          exact hsession.processed hkey hwait hduration
        | false =>
          rw [hupdate, if_neg Bool.false_ne_true] at hwait
          rw [if_neg (by decide)]
          exact hsession.of_eq hkey hwait hduration

theorem dated_add {header : H} {actions : List NewAction} {waitDuration : Nat} (hu : m.Unique)
    (hk : ∀ i h, key.get ((answer i).header h) = key.get h)
    (h : ∀ s ∈ m.sessions, Dated key log s) :
    ∀ s ∈ (m.step (.add header actions waitDuration now answer)).2.sessions,
      Dated key
        ((m.contact key (.add header actions waitDuration now answer)).toList ++ log) s := by
  unfold SessionManager.contact
  dsimp only
  by_cases hnil : actions = []
  · have hstep : m.step (.add header actions waitDuration now answer) =
        (⟨.logicError "session_manager::add - actions cannot be empty", []⟩, m) := by
      unfold SessionManager.step SessionManager.add
      dsimp only
      rw [if_pos hnil]
    rw [hstep]
    cases m.addTarget header waitDuration with
    | none => exact h
    | some target =>
      rw [Option.bind_some, if_pos rfl]
      exact h
  · have hstep : m.step (.add header actions waitDuration now answer) =
        m.add header actions waitDuration now answer := rfl
    rw [hstep, add_eq hnil]
    cases ht : m.addTarget header waitDuration with
    | none => exact h
    | some target =>
      obtain ⟨sessions, index, session⟩ := target
      obtain ⟨hs, hu'⟩ := hu.target ht
      have hlt := (List.getElem?_eq_some_iff.mp hs).1
      have hold := target_old ht
      rw [Option.bind_some]
      dsimp only
      rw [addAt_events]
      intro t hmem
      rcases mem_addAt (m := ⟨sessions, m.nextId + actions.length⟩) hlt hmem with
        hother | ⟨hthrown, hheader, hdeadline⟩
      · have hne : key.get session.header ≠ key.get t.header := (hu'.free hs t hother).key_ne
        have hin : t ∈ m.sessions := by
          refine (hold t ((List.eraseIdx_sublist _ _).subset hother)).resolve_right ?_
          rintro ⟨rfl, -⟩
          exact hne rfl
        refine Dated.others (h t hin) fun c hc => ?_
        split at hc
        · cases hc
        · obtain rfl := Option.some.inj hc
          exact hne
      · have hkey : key.get t.header = key.get session.header := by
          rw [hheader, Adding.run_header answer _ 0 _ hthrown, addedHeader_key hk]
          rfl
        have htells := Adding.Tells.run answer _ 0 _ (Adding.tells_start session) hthrown
        cases hupdate :
            (Adding.run answer 0 (.start session) (m.number actions)).updateLastContacted with
        | true =>
          rw [hupdate, if_pos rfl] at hdeadline
          rw [if_neg (htells.events.mp hupdate)]
          exact Dated.added hkey hdeadline.1 hdeadline.2
        | false =>
          rw [hupdate, if_neg Bool.false_ne_true] at hdeadline
          have hcalm : (Adding.run answer 0 (.start session) (m.number actions)).events = [] := by
            by_contra hne
            exact Bool.false_ne_true (hupdate.symm.trans (htells.events.mpr hne))
          rw [if_pos hcalm]
          -- a new session is always contacted
          have hsession : session ∈ m.sessions := by
            refine (hold session (List.mem_of_getElem? hs)).resolve_right ?_
            rintro ⟨-, hnew⟩
            have hnumber : m.number actions ≠ [] := by
              simpa [SessionManager.number] using hnil
            exact Bool.false_ne_true
              (hupdate.symm.trans (Adding.run_new hnew hnumber hthrown))
          exact (h session hsession).of_eq hkey hdeadline.1 hdeadline.2

theorem dated_step {op : SessionOp H} (hu : m.Unique) (hk : op.KeepsKey key)
    (h : ∀ s ∈ m.sessions, Dated key log s) :
    ∀ s ∈ (m.step op).2.sessions, Dated key ((m.contact key op).toList ++ log) s := by
  cases op with
  | add header actions waitDuration now answer => exact dated_add hu hk h
  | process peerid now answer => exact dated_process hu hk h
  | remove peerid =>
    intro t ht
    refine h t ?_
    have hstep : (m.step (.remove peerid)).2 = m.remove peerid := rfl
    rw [hstep] at ht
    unfold SessionManager.remove at ht
    split at ht
    · exact ht
    · exact (List.eraseIdx_sublist _ _).subset ht
  | eraseAllPending now => exact fun t ht => h t (List.mem_filter.mp ht).1

end SessionManager

/-! ## Runs -/

variable [DecidableEq H]

/-- The deadlines that an earlier log gives go on with the contacts of the run. -/
theorem dated_final {ops : List (SessionOp H)} (hu : m.Unique)
    (hk : ∀ op ∈ ops, op.KeepsKey key) (h : ∀ s ∈ m.sessions, Dated key log s) :
    ∀ s ∈ (final SessionManager.step m ops).sessions,
      Dated key (contacts key m ops ++ log) s := by
  induction ops generalizing m log with
  | nil => exact h
  | cons op ops ih =>
    have hop := SessionManager.dated_step hu (hk op List.mem_cons_self) h
    have hrest := ih (hu.step op) (fun o ho => hk o (List.mem_cons_of_mem _ ho)) hop
    rw [contacts, List.append_assoc]
    exact hrest

/-- What the run has left waits no longer than it was last asked to, and `erase_all_pending` erases
of it what was last contacted as long ago. -/
structure ErasesDue (key : SessionKey H) (ops : List (SessionOp H)) : Prop where
  asked : ∀ s ∈ (final SessionManager.step .init ops).sessions, ∃ duration,
    lastAsked (contacts key .init ops) (key.get s.header) = some duration ∧
      s.waitDuration ≤ duration
  erases : ∀ now s,
    s ∈ (final SessionManager.step .init (ops ++ [.eraseAllPending now])).sessions ↔
      s ∈ (final SessionManager.step .init ops).sessions ∧ ∃ time,
        lastContact (contacts key .init ops) (key.get s.header) = some time ∧
          now < time + s.waitDuration

/-- **In every run, the sessions that are erased are those that nobody was in contact with for as
long as they wait.** -/
theorem run_erases_due {ops : List (SessionOp H)} (hk : ∀ op ∈ ops, op.KeepsKey key) :
    ErasesDue key ops := by
  have hdated : ∀ s ∈ (final SessionManager.step .init ops).sessions,
      Dated key (contacts key .init ops) s := by
    have hnone : ∀ s ∈ (SessionManager.init : SessionManager H).sessions, Dated key [] s :=
      fun _ hs => nomatch hs
    have hall := dated_final SessionManager.unique_init hk hnone
    rwa [List.append_nil] at hall
  refine ⟨fun s hs => (hdated s hs).asked, fun now s => ?_⟩
  have hstep : (final SessionManager.step .init (ops ++ [.eraseAllPending now])).sessions =
      (final SessionManager.step .init ops).sessions.filter fun s => now < s.waitForContact := by
    rw [final_append]
    rfl
  rw [hstep, List.mem_filter]
  refine and_congr_right fun hs => ?_
  obtain ⟨time, hlast, hwait⟩ := (hdated s hs).due
  rw [decide_eq_true_iff, hwait]
  constructor
  · exact fun hlt => ⟨time, hlast, hlt⟩
  · rintro ⟨time', hlast', hlt⟩
    rw [hlast, Option.some.injEq] at hlast'
    rwa [hlast']

end

namespace Silent

/-- The action goes on, takes each packet, and notes the peer. -/
def taking (peerid : String) (_ : Nat) : Answer (NodeidSessionHeader Nat) :=
  ⟨true, false, false, false, fun header => { header with peerid }⟩

/-- Two sessions, of which only the first is contacted again. -/
def ops : List (SessionOp (NodeidSessionHeader Nat)) :=
  [.add ⟨1, "", "n1"⟩ [⟨0, false⟩] 10 0 (taking "p"),
    .add ⟨2, "", "n2"⟩ [⟨0, false⟩] 10 2 (taking "q"), .process "p" 7 (taking "p")]

end Silent

theorem run_erases_due_silent : ErasesDue SessionKey.nodeid Silent.ops ∧
    (final SessionManager.step .init (Silent.ops ++ [.eraseAllPending 12])).sessions.map
      (fun s => s.header.nodeid) = ["n1"] := by
  refine ⟨run_erases_due fun op hop => ?_, by decide⟩
  simp only [Silent.ops, List.mem_cons, List.not_mem_nil, or_false] at hop
  rcases hop with rfl | rfl | rfl <;> exact fun _ _ => rfl

end MeshPP.SessionUtility
