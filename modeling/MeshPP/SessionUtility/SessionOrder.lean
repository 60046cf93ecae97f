import Mathlib.Data.List.Flatten
import MeshPP.SessionUtility.Sequence

/-! # Runs of `session_manager` initiate actions in sequence

The actions of all sessions have different numbers, and those of one session are
ordered. An operation makes its calls on actions of one session, which it leaves
ordered, so a run that meets its turns initiates no action twice, and none whose
predecessors are not completed. -/

namespace MeshPP.SessionUtility
open MeshPP.Lib

variable {H : Type}

namespace SessionManager

def actions (m : SessionManager H) : List SessionAction := m.sessions.flatMap Session.actions

/-- `initiate` may still be called on the action with this number. -/
def Unstarted (m : SessionManager H) (id : Nat) : Prop :=
  m.nextId ≤ id ∨ ∃ a ∈ m.actions, a.id = id ∧ a.initiated = false

structure Inv (m : SessionManager H) : Prop where
  ids : (m.actions.map SessionAction.id).Nodup
  bound : ∀ a ∈ m.actions, a.id < m.nextId
  ordered : ∀ s ∈ m.sessions, Ordered s.actions

/-- The calls `es` lead from `m` to `m'`. -/
structure Advances (m : SessionManager H) (es : List (SessionAction × List SessionAction))
    (m' : SessionManager H) : Prop extends InSequence es where
  unstarted : ∀ e ∈ es, m.Unstarted e.1.id
  inv : m'.Inv
  started : ∀ id, m'.Unstarted id → m.Unstarted id ∧ id ∉ es.map fun e => e.1.id

/-- An operation that drops sessions and makes no call. -/
theorem Inv.dropped {m m' : SessionManager H} (h : m.Inv) (hn : m.nextId ≤ m'.nextId)
    (hs : m'.sessions.Sublist m.sessions) : Advances m [] m' := by
  have hacts : m'.actions.Sublist m.actions := hs.flatMap _
  refine ⟨⟨List.nodup_nil, fun e he => (nomatch he)⟩, fun e he => (nomatch he), ⟨?_, ?_, ?_⟩, ?_⟩
  · exact h.ids.sublist (hacts.map _)
  · exact fun a ha => Nat.lt_of_lt_of_le (h.bound a (hacts.subset ha)) hn
  · exact fun s hsm => h.ordered s (hs.subset hsm)
  · rintro id (hid | ⟨a, ha, hid⟩)
    · exact ⟨.inl (Nat.le_trans hn hid), List.not_mem_nil⟩
    · exact ⟨.inr ⟨a, hacts.subset ha, hid⟩, List.not_mem_nil⟩

section
variable {m : SessionManager H} {front back : List (Session H)} {old news : List SessionAction}

/-- The numbers of the stored actions and of new ones all differ. -/
theorem Inv.ids_nodup (h : m.Inv)
    (hm : m.actions = front.flatMap Session.actions ++ (old ++ back.flatMap Session.actions))
    (hnews : news.map SessionAction.id = List.range' m.nextId news.length) :
    ((front.flatMap Session.actions ++ ((old ++ news) ++
      back.flatMap Session.actions)).map SessionAction.id).Nodup := by
  have hperm : (front.flatMap Session.actions ++ ((old ++ news) ++
      back.flatMap Session.actions)).Perm (m.actions ++ news) := by
    rw [hm, List.append_assoc, List.append_assoc, List.append_assoc]
    exact ((List.perm_append_comm).append_left old).append_left _
  rw [(hperm.map _).nodup_iff, List.map_append, List.nodup_append]
  refine ⟨h.ids, by rw [hnews]; exact List.nodup_range', fun x hx y hy => ?_⟩
  obtain ⟨a, ha, rfl⟩ := List.mem_map.mp hx
  rw [hnews, List.mem_range'_1] at hy
  have := h.bound a ha
  omega

theorem Inv.ids_lt (h : m.Inv)
    (hm : m.actions = front.flatMap Session.actions ++ (old ++ back.flatMap Session.actions))
    (hnews : news.map SessionAction.id = List.range' m.nextId news.length) :
    ∀ x ∈ (old ++ news).map SessionAction.id, x < m.nextId + news.length := by
  intro x hx
  rw [List.map_append] at hx
  rcases List.mem_append.mp hx with hx | hx
  · obtain ⟨a, ha, rfl⟩ := List.mem_map.mp hx
    have := h.bound a (by rw [hm]; simp [ha])
    omega
  · rw [hnews, List.mem_range'_1] at hx
    omega

theorem unstarted_of_mem
    (hm : m.actions = front.flatMap Session.actions ++ (old ++ back.flatMap Session.actions))
    (hnews : news.map SessionAction.id = List.range' m.nextId news.length) :
    ∀ b ∈ old ++ news, b.initiated = false → m.Unstarted b.id := by
  intro b hb hbi
  rcases List.mem_append.mp hb with hb | hb
  · exact .inr ⟨b, by rw [hm]; simp [hb], rfl, hbi⟩
  · have hid := List.mem_map_of_mem (f := SessionAction.id) hb
    rw [hnews, List.mem_range'_1] at hid
    exact .inl hid.1

end

/-- An operation on the session between `front` and `back`, with actions `news` that have
the next numbers. -/
theorem Inv.turn {m m' : SessionManager H} (h : m.Inv) {front back : List (Session H)}
    {old news new : List SessionAction} {es : List (SessionAction × List SessionAction)}
    (hm : m.actions = front.flatMap Session.actions ++ (old ++ back.flatMap Session.actions))
    (hm' : m'.actions = front.flatMap Session.actions ++ (new ++ back.flatMap Session.actions))
    (hnews : news.map SessionAction.id = List.range' m.nextId news.length)
    (hnext : m'.nextId = m.nextId + news.length)
    (hord : ∀ s ∈ m'.sessions, Ordered s.actions) (hturn : Turn (old ++ news) es new) :
    Advances m es m' := by
  have hpool := h.ids_nodup hm hnews
  have hbound : ∀ x ∈ (old ++ news).map SessionAction.id, x < m'.nextId := by
    rw [hnext]
    exact h.ids_lt hm hnews
  have hes : ∀ x ∈ es.map fun e => e.1.id, x ∈ (old ++ news).map SessionAction.id := by
    intro x hx
    obtain ⟨e, he, rfl⟩ := List.mem_map.mp hx
    exact List.mem_map_of_mem (hturn.mem e he)
  have hstart := unstarted_of_mem hm hnews
  refine ⟨hturn.toInSequence, fun e he => hstart _ (hturn.mem e he) (hturn.fresh e he),
    ⟨?_, fun a ha => ?_, hord⟩, ?_⟩
  · refine hpool.sublist ?_
    rw [hm']
    simp only [List.map_append]
    have hids := hturn.ids
    rw [List.map_append] at hids
    exact (hids.append_right _).append_left _
  · rw [hm', List.mem_append, List.mem_append] at ha
    rcases ha with ha | ha | ha
    · have := h.bound a (by rw [hm]; simp [ha])
      omega
    · exact hbound _ (hturn.ids.subset (List.mem_map_of_mem ha))
    · have := h.bound a (by rw [hm]; simp [ha])
      omega
  · -- numbers of other sessions are not those of the calls
    rw [List.map_append, List.map_append, List.nodup_append, List.nodup_append] at hpool
    obtain ⟨-, ⟨-, -, hback⟩, hfront⟩ := hpool
    rintro id (hid | ⟨a, ha, rfl, hai⟩)
    · refine ⟨.inl (by omega), fun hin => ?_⟩
      have := hbound _ (hes _ hin)
      omega
    · rw [hm', List.mem_append, List.mem_append] at ha
      rcases ha with ha | ha | ha
      · exact ⟨.inr ⟨a, by rw [hm]; simp [ha], rfl, hai⟩, fun hin => hfront _
          (List.mem_map_of_mem ha) _ (List.mem_append_left _ (hes _ hin)) rfl⟩
      · obtain ⟨⟨b, hb, hid, hbi⟩, hnot⟩ := hturn.unstarted a ha hai
        exact ⟨hid ▸ hstart b hb hbi, hnot⟩
      · exact ⟨.inr ⟨a, by rw [hm]; simp [ha], rfl, hai⟩, fun hin => hback _ (hes _ hin) _
          (List.mem_map_of_mem ha) rfl⟩

/-! ## One session of the manager -/

/-- `m₁` is `m` once `news` have been numbered, perhaps with an empty session more. -/
structure Prepared (m m₁ : SessionManager H) (news : List SessionAction) : Prop where
  actions : m₁.actions = m.actions
  nextId : m₁.nextId = m.nextId + news.length
  ids : news.map SessionAction.id = List.range' m.nextId news.length
  ordered : ∀ s ∈ m₁.sessions, Ordered s.actions

theorem Inv.prepared {m : SessionManager H} (h : m.Inv) : Prepared m m [] :=
  ⟨rfl, rfl, rfl, h.ordered⟩

theorem number_ids (m : SessionManager H) (actions : List NewAction) :
    (m.number actions).map SessionAction.id = List.range' m.nextId (m.number actions).length := by
  have hlen : (m.number actions).length = actions.length := by simp [number]
  have hmap : (m.number actions).map SessionAction.id =
      (actions.zipIdx.map Prod.snd).map (m.nextId + ·) := by
    rw [number, List.map_map, List.map_map]
    rfl
  rw [hmap, List.zipIdx_map_snd, List.map_add_range', hlen, Nat.add_zero]

theorem number_fresh (m : SessionManager H) (actions : List NewAction) :
    ∀ a ∈ m.number actions, a.initiated = false ∧ a.completed = false := by
  intro a ha
  obtain ⟨n, -, rfl⟩ := List.mem_map.mp ha
  exact ⟨rfl, rfl⟩

theorem sessions_split {m : SessionManager H} {index : Nat} {s : Session H}
    (hs : m.sessions[index]? = some s) :
    m.sessions = m.sessions.take index ++ s :: m.sessions.drop (index + 1) := by
  obtain ⟨hlt, rfl⟩ := List.getElem?_eq_some_iff.mp hs
  rw [← List.drop_eq_getElem_cons hlt, List.take_append_drop]

theorem Prepared.actions_split {m m₁ : SessionManager H} {news : List SessionAction}
    (hp : Prepared m m₁ news) {index : Nat} {s : Session H} (hs : m₁.sessions[index]? = some s) :
    m.actions = (m₁.sessions.take index).flatMap Session.actions ++
      (s.actions ++ (m₁.sessions.drop (index + 1)).flatMap Session.actions) := by
  calc
    m.actions = m₁.sessions.flatMap Session.actions := hp.actions.symm
    _ = (m₁.sessions.take index ++ s :: m₁.sessions.drop (index + 1)).flatMap Session.actions := by
      rw [← sessions_split hs]
    _ = _ := by rw [List.flatMap_append, List.flatMap_cons]

/-- The numbers of a session's actions and of the new ones differ. -/
theorem Inv.nodup_at {m m₁ : SessionManager H} (h : m.Inv) {news : List SessionAction}
    (hp : Prepared m m₁ news) {index : Nat} {s : Session H} (hs : m₁.sessions[index]? = some s) :
    ((s.actions ++ news).map SessionAction.id).Nodup := by
  have hsub : s.actions.Sublist m.actions := by
    rw [hp.actions_split hs]
    exact (List.sublist_append_left _ _).trans (List.sublist_append_right _ _)
  rw [List.map_append, List.nodup_append]
  refine ⟨h.ids.sublist (hsub.map _), by rw [hp.ids]; exact List.nodup_range', ?_⟩
  intro x hx y hy
  obtain ⟨a, ha, rfl⟩ := List.mem_map.mp hx
  rw [hp.ids, List.mem_range'_1] at hy
  have := h.bound a (hsub.subset ha)
  omega

theorem Inv.eraseAt {m m₁ : SessionManager H} (h : m.Inv) {news : List SessionAction}
    (hp : Prepared m m₁ news) {index : Nat} {s : Session H} (hs : m₁.sessions[index]? = some s)
    {es : List (SessionAction × List SessionAction)} (hlog : Log (s.actions ++ news) es) :
    Advances m es (m₁.eraseAt index) := by
  refine h.turn (hp.actions_split hs) ?_ hp.ids hp.nextId ?_ hlog.erased
  · rw [List.nil_append, actions, ← List.flatMap_append, SessionManager.eraseAt,
      List.eraseIdx_eq_take_drop_succ]
  · exact fun t ht => hp.ordered t (List.mem_of_mem_eraseIdx ht)

theorem Inv.setAt {m m₁ : SessionManager H} (h : m.Inv) {news : List SessionAction}
    (hp : Prepared m m₁ news) {index : Nat} {s s' : Session H}
    (hs : m₁.sessions[index]? = some s) {es : List (SessionAction × List SessionAction)}
    (hturn : Turn (s.actions ++ news) es s'.actions) : Advances m es (m₁.setAt index s') := by
  refine h.turn (hp.actions_split hs) ?_ hp.ids hp.nextId ?_ hturn
  · obtain ⟨hlt, -⟩ := List.getElem?_eq_some_iff.mp hs
    rw [actions, SessionManager.setAt, List.set_eq_take_append_cons_drop, if_pos hlt,
      List.flatMap_append, List.flatMap_cons]
  · intro t ht
    rcases List.mem_or_eq_of_mem_set ht with ht | rfl
    · exact hp.ordered t ht
    · exact hturn.ordered

variable [HeaderKeys H]

theorem Inv.replaceAt {m m₁ : SessionManager H} (h : m.Inv) {news : List SessionAction}
    (hp : Prepared m m₁ news) {index : Nat} {s s' : Session H}
    (hs : m₁.sessions[index]? = some s) {es : List (SessionAction × List SessionAction)}
    (hturn : Turn (s.actions ++ news) es s'.actions) :
    Advances m es (m₁.replaceAt index s') := by
  unfold SessionManager.replaceAt
  split
  · exact h.eraseAt hp hs hturn.toLog
  · exact h.setAt hp hs hturn

/-! ## The operations -/

omit [HeaderKeys H] in
theorem first_spec {m : SessionManager H} {p : Session H → Bool} {it : Nat × Session H}
    (h : m.first p = some it) : m.sessions[it.1]? = some it.2 := by
  obtain ⟨index, -, hget⟩ := Option.bind_eq_some_iff.mp h
  obtain ⟨s, hs, rfl⟩ := Option.map_eq_some_iff.mp hget
  exact hs

theorem blocking_spec {m : SessionManager H} {header : H} {it : Nat × Session H}
    (h : m.blocking header = some it) : m.sessions[it.1]? = some it.2 := by
  obtain ⟨key, -, hfirst⟩ := List.exists_of_findSome?_eq_some h
  exact first_spec hfirst

variable [DecidableEq H]

theorem Inv.processAt {m : SessionManager H} (h : m.Inv) {index : Nat} {session : Session H}
    (hs : m.sessions[index]? = some session) (now : Nat) {answer : Nat → Answer H}
    (hturn : InTurn answer 0 session.actions) :
    Advances m (initiates (m.processAt index session now answer).1.events)
      (m.processAt index session now answer).2 := by
  have hnodup := h.nodup_at h.prepared hs
  rw [List.append_nil] at hnodup
  obtain ⟨hlog, hleft⟩ :=
    scan_turn session.header (h.ordered _ (List.mem_of_getElem? hs)) hnodup hturn
  have hold : Log (session.actions ++ [])
      (initiates (Scan.run answer (.start session.header) session.actions).events) := by
    rwa [List.append_nil]
  rw [SessionManager.processAt]
  cases ht : (Scan.run answer (.start session.header) session.actions).thrown with
  | true => exact h.eraseAt h.prepared hs hold
  | false =>
    cases he : (Scan.run answer (.start session.header) session.actions).errored with
    | true => exact h.eraseAt h.prepared hs hold
    | false =>
      have hscan := hleft ht he
      simp only [Bool.false_eq_true, if_false]
      split
      · exact h.eraseAt h.prepared hs hold
      · split
        · refine h.replaceAt h.prepared hs ?_
          rw [List.append_nil]
          exact hscan.sublist List.filter_sublist
        · refine h.setAt h.prepared hs ?_
          rw [List.append_nil]
          exact hscan

theorem Inv.addAt {m m₁ : SessionManager H} (h : m.Inv) {news : List SessionAction}
    (hp : Prepared m m₁ news) {index : Nat} {session : Session H}
    (hs : m₁.sessions[index]? = some session) (waitDuration now : Nat) (answer : Nat → Answer H)
    (hnews : ∀ a ∈ news, a.initiated = false ∧ a.completed = false) :
    Advances m (initiates (m₁.addAt index session news waitDuration now answer).1.events)
      (m₁.addAt index session news waitDuration now answer).2 := by
  obtain ⟨hlog, hleft⟩ := adding_turn answer
    (hp.ordered _ (List.mem_of_getElem? hs)) (h.nodup_at hp hs) hnews
  rw [SessionManager.addAt]
  cases ht : (Adding.run answer 0 (.start session) news).thrown with
  | true => exact h.eraseAt hp hs hlog
  | false =>
    cases he : (Adding.run answer 0 (.start session) news).errored with
    | true => exact h.eraseAt hp hs hlog
    | false =>
      have hadd := hleft ht he
      simp only [Bool.false_eq_true, if_false]
      split
      · exact h.eraseAt hp hs hlog
      · split
        · exact h.replaceAt hp hs hadd
        · exact h.setAt hp hs hadd

theorem Inv.add {m : SessionManager H} (h : m.Inv) (header : H) (actions : List NewAction)
    (waitDuration now : Nat) (answer : Nat → Answer H) :
    Advances m (initiates (m.add header actions waitDuration now answer).1.events)
      (m.add header actions waitDuration now answer).2 := by
  have hlen : m.nextId + actions.length = m.nextId + (m.number actions).length := by
    simp [number]
  have hids := m.number_ids actions
  have hfresh := m.number_fresh actions
  unfold SessionManager.add
  split
  · exact h.dropped (Nat.le_refl _) (List.Sublist.refl _)
  · dsimp only
    cases hb : SessionManager.blocking { m with nextId := m.nextId + actions.length } header with
    | none =>
      have hnew : Prepared m
          { m with
            nextId := m.nextId + actions.length
            sessions := m.sessions ++ [⟨header, 0, waitDuration, []⟩] } (m.number actions) := by
        refine ⟨?_, hlen, hids, fun s hs => ?_⟩
        · simp [SessionManager.actions]
        · rcases List.mem_append.mp hs with hs | hs
          · exact h.ordered s hs
          · rw [List.mem_singleton.mp hs]
            exact ⟨.nil, fun a ha => (nomatch ha)⟩
      have hlast :
          (m.sessions ++ [(⟨header, 0, waitDuration, []⟩ : Session H)])[m.sessions.length]? =
          some ⟨header, 0, waitDuration, []⟩ := by simp
      exact h.addAt hnew hlast waitDuration now answer hfresh
    | some it =>
      have hold : Prepared m { m with nextId := m.nextId + actions.length } (m.number actions) :=
        ⟨rfl, hlen, hids, h.ordered⟩
      simp only
      split
      · exact h.addAt hold (blocking_spec hb) waitDuration now answer hfresh
      · exact h.dropped (Nat.le_add_right _ _) (List.Sublist.refl _)

theorem Inv.process {m : SessionManager H} (h : m.Inv) (peerid : String) (now : Nat)
    {answer : Nat → Answer H} (hturn : InTurn answer 0 (m.contacted peerid)) :
    Advances m (initiates (m.process peerid now answer).1.events)
      (m.process peerid now answer).2 := by
  unfold SessionManager.process
  unfold SessionManager.contacted at hturn
  split
  · exact h.dropped (Nat.le_refl _) (List.Sublist.refl _)
  · next hne =>
    rw [if_neg hne] at hturn
    cases hf : m.findPeer peerid with
    | none => exact h.dropped (Nat.le_refl _) (List.Sublist.refl _)
    | some it =>
      rw [hf] at hturn
      exact h.processAt (first_spec hf) now hturn

theorem Inv.step {m : SessionManager H} (h : m.Inv) {op : SessionOp H} (hturn : m.MeetsTurn op) :
    Advances m (initiates (m.step op).1.events) (m.step op).2 := by
  cases op with
  | add header actions waitDuration now answer => exact h.add header actions waitDuration now answer
  | process peerid now answer => exact h.process peerid now hturn
  | remove peerid =>
    refine h.dropped ?_ ?_
    · simp only [SessionManager.step, SessionManager.remove]
      split <;> exact Nat.le_refl _
    · simp only [SessionManager.step, SessionManager.remove]
      split
      · exact List.Sublist.refl _
      · exact List.eraseIdx_sublist _ _
  | eraseAllPending now => exact h.dropped (Nat.le_refl _) List.filter_sublist

/-! ## Runs -/

omit [DecidableEq H] [HeaderKeys H] in
theorem Inv.init : (SessionManager.init : SessionManager H).Inv where
  ids := List.nodup_nil
  bound _ ha := nomatch ha
  ordered _ hs := nomatch hs

omit [DecidableEq H] [HeaderKeys H] in
theorem Advances.trans {m m' m'' : SessionManager H}
    {es fs : List (SessionAction × List SessionAction)} (h : Advances m es m')
    (h' : Advances m' fs m'') : Advances m (es ++ fs) m'' := by
  refine ⟨⟨?_, fun e he => ?_⟩, fun e he => ?_, h'.inv, fun id hid => ?_⟩
  · rw [List.map_append, List.nodup_append]
    refine ⟨h.once, h'.once, fun x hx y hy hxy => ?_⟩
    -- what the later calls start was still unstarted after the earlier ones
    obtain ⟨e, he, rfl⟩ := List.mem_map.mp hy
    exact (h.started _ (h'.unstarted e he)).2 (hxy ▸ hx)
  · rcases List.mem_append.mp he with he | he
    · exact h.ready e he
    · exact h'.ready e he
  · rcases List.mem_append.mp he with he | he
    · exact h.unstarted e he
    · exact (h.started _ (h'.unstarted e he)).1
  · obtain ⟨hid', hnot'⟩ := h'.started id hid
    obtain ⟨hid, hnot⟩ := h.started id hid'
    refine ⟨hid, ?_⟩
    rw [List.map_append, List.mem_append, not_or]
    exact ⟨hnot, hnot'⟩

theorem Inv.run {m : SessionManager H} (h : m.Inv) {ops : List (SessionOp H)}
    (hturn : Meets SessionManager.step MeetsTurn m ops) :
    Advances m ((outputs SessionManager.step m ops).flatMap fun out => initiates out.events)
      (final SessionManager.step m ops) := by
  induction ops generalizing m with
  | nil => exact h.dropped (Nat.le_refl _) (List.Sublist.refl _)
  | cons op ops ih =>
    have hstep := h.step hturn.1
    exact hstep.trans (ih hstep.inv hturn.2)

end SessionManager

variable [DecidableEq H] [HeaderKeys H]

/-- In a run whose scans meet their turns each action is initiated at most once, and only
when all in front of it are completed. -/
theorem initiates_inSequence (ops : List (SessionOp H))
    (hturn : Meets SessionManager.step SessionManager.MeetsTurn .init ops) :
    InSequence ((outputs SessionManager.step .init ops).flatMap fun out =>
      initiates out.events) :=
  (SessionManager.Inv.init.run hturn).toInSequence

/-- Two actions that run one after the other. -/
theorem initiates_inSequence_two :
    InSequence ((outputs SessionManager.step .init
      [.add (⟨"p"⟩ : SessionHeader) [⟨0, false⟩, ⟨1, false⟩] 10 0
        fun _ => ⟨false, false, false, false, id⟩,
       .process "p" 1 fun index => ⟨true, index == 0, false, false, id⟩,
       .process "p" 2 fun _ => ⟨true, true, false, false, id⟩]).flatMap fun out =>
        initiates out.events) := by
  refine initiates_inSequence _ ⟨trivial, ?_, ?_, trivial⟩
  · intro _ _
    refine ⟨fun h => (nomatch h), fun h => (nomatch h), fun h => (nomatch h)⟩
  · intro _ _
    refine ⟨fun h => (nomatch h), fun h => (nomatch h), fun h => (nomatch h)⟩

/-- A permanent action completes with one packet and accepts another: the action behind
it is initiated both times. -/
theorem not_initiates_inSequence : ¬ ∀ ops : List (SessionOp SessionHeader),
    InSequence ((outputs SessionManager.step .init ops).flatMap fun out =>
      initiates out.events) := by
  intro h
  have := (h [.add ⟨"p"⟩ [⟨0, true⟩, ⟨1, false⟩] 10 0 fun _ => ⟨false, false, false, false, id⟩,
    .process "p" 1 fun index => ⟨index == 0, index == 0, false, false, id⟩,
    .process "p" 2 fun index => ⟨index == 0, false, false, false, id⟩]).once
  revert this
  decide

end MeshPP.SessionUtility
