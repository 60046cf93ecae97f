import MeshPP.Lib.Machine

/-! # `session_manager`

The sessions of a manager and its four operations, as the source computes them,
over either kind of header. What an action does in a call is an answer from
outside: whether it returns true, what it sets, how it changes the header, and
whether it throws. An operation lists the calls it makes.

Actions are objects: each one that is added gets a number of its own, and a type.
Assertions are compiled out. -/

namespace MeshPP.SessionUtility
open MeshPP.Lib

/-! ## Headers -/

/-- What the container of sessions asks of a header. -/
class HeaderKeys (H : Type) where
  peerid : H → String
  /-- What the unique indices extract, in their order. -/
  uniqueKeys : H → List String
  keysSame : H → H → Bool

structure SessionHeader where
  peerid : String
  deriving DecidableEq, Repr

instance : HeaderKeys SessionHeader where
  peerid h := h.peerid
  uniqueKeys h := [h.peerid]
  keysSame _ _ := true

structure NodeidSessionHeader (Address : Type) where
  address : Address
  peerid : String
  nodeid : String
  deriving DecidableEq, Repr

instance {Address : Type} [DecidableEq Address] : HeaderKeys (NodeidSessionHeader Address) where
  peerid h := h.peerid
  uniqueKeys h := [h.peerid, h.nodeid]
  keysSame first second := first.nodeid = second.nodeid ∧ first.address = second.address

/-! ## Actions and sessions -/

structure SessionAction where
  id : Nat
  typeid : Nat
  permanent : Bool
  initiated : Bool
  completed : Bool
  errored : Bool
  deriving DecidableEq, Repr

/-- What one call of `initiate` or `process` does; `initiate` returns nothing. -/
structure Answer (H : Type) where
  accepts : Bool
  completes : Bool
  errs : Bool
  throws : Bool
  header : H → H

structure Session (H : Type) where
  header : H
  waitForContact : Nat
  waitDuration : Nat
  actions : List SessionAction

structure SessionManager (H : Type) where
  sessions : List (Session H)
  nextId : Nat

def SessionManager.init {H : Type} : SessionManager H := ⟨[], 0⟩

/-- A call to an action: `initiate` with the actions in front of it in its session, or
`process` with what it returned. The action is shown as it was before. -/
inductive SessionEvent
  | initiate (action : SessionAction) (before : List SessionAction)
  | offer (action : SessionAction) (accepted : Bool)
  deriving DecidableEq, Repr

inductive SessionResult
  | done
  | flag (b : Bool)
  | logicError (what : String)
  | thrown
  deriving DecidableEq, Repr

structure SessionOut where
  result : SessionResult
  events : List SessionEvent

variable {H : Type}

namespace SessionAction

def answered (a : SessionAction) (r : Answer H) : SessionAction :=
  { a with completed := a.completed || r.completes, errored := a.errored || r.errs }

/-- The action once `initiate` has returned. -/
def started (a : SessionAction) (r : Answer H) : SessionAction :=
  { a.answered r with initiated := true }

/-- What is taken out of a session after a packet has been accepted. -/
def disposable (a : SessionAction) : Bool := a.completed && !a.permanent

end SessionAction

/-! ## `process` -/

/-- The loop of `process`: the actions it has passed, and its variables. -/
structure Scan (H : Type) where
  passed : List SessionAction
  header : H
  initiate : Bool
  errored : Bool
  thrown : Bool
  updateLastContacted : Bool
  disposeCount : Nat
  events : List SessionEvent

namespace Scan

def start (header : H) : Scan H := ⟨[], header, false, false, false, false, 0, []⟩

/-- The loop ends in front of `rest`. -/
def leave (s : Scan H) (rest : List SessionAction) : Scan H := { s with passed := s.passed ++ rest }

def dispose (s : Scan H) (a : SessionAction) : Scan H :=
  if a.permanent then s else { s with disposeCount := s.disposeCount + 1 }

/-- `initiate` has been called on `a` and has not thrown. -/
def initiated (s : Scan H) (a : SessionAction) (r : Answer H) : Scan H :=
  { s with
    passed := s.passed ++ [a.started r]
    header := r.header s.header
    errored := (a.started r).errored
    events := s.events ++ [.initiate a s.passed] }

/-- `process` has been called on `a` and has not thrown. -/
def offered (s : Scan H) (a : SessionAction) (r : Answer H) : Scan H :=
  let s : Scan H := { s with
    passed := s.passed ++ [a.answered r]
    header := r.header s.header
    errored := (a.answered r).errored
    events := s.events ++ [.offer a r.accepts] }
  if r.accepts then
    let s : Scan H := { s with updateLastContacted := true }
    if (a.answered r).completed then
      Scan.dispose { s with initiate := true } a
    else s
  else s

/-- The call on `a` has thrown. -/
def failed (s : Scan H) (a : SessionAction) (event : SessionEvent) : Scan H :=
  { s with passed := s.passed ++ [a], thrown := true, events := s.events ++ [event] }

def run (answer : Nat → Answer H) : Scan H → List SessionAction → Scan H
  | s, [] => s
  | s, a :: rest =>
    let r := answer s.passed.length
    if s.errored then s.leave (a :: rest)
    else if s.initiate then
      if r.throws then (s.failed a (.initiate a s.passed)).leave rest
      else if (a.started r).completed then run answer ((s.initiated a r).dispose a) rest
      else (s.initiated a r).leave rest
    else
      if r.throws then (s.failed a (.offer a false)).leave rest
      else run answer (s.offered a r) rest

end Scan

/-! ## `add` -/

/-- What the caller knows of a new action. -/
structure NewAction where
  typeid : Nat
  permanent : Bool
  deriving DecidableEq, Repr

def NewAction.make (n : NewAction) (id : Nat) : SessionAction :=
  ⟨id, n.typeid, n.permanent, false, false, false⟩

/-- The loop of `add` over the new actions. -/
structure Adding (H : Type) where
  actions : List SessionAction
  existingPermanentActions : List Nat
  header : H
  previousCompleted : Bool
  errored : Bool
  thrown : Bool
  updateLastContacted : Bool
  events : List SessionEvent

namespace Adding

def start (session : Session H) : Adding H where
  actions := session.actions
  existingPermanentActions :=
    (session.actions.filter SessionAction.permanent).map SessionAction.typeid
  header := session.header
  previousCompleted := session.actions.getLast?.all SessionAction.completed
  errored := false
  thrown := false
  updateLastContacted := false
  events := []

def keep (s : Adding H) (a : SessionAction) : Adding H :=
  if !a.completed || a.permanent then
    { s with
      actions := s.actions ++ [a]
      existingPermanentActions :=
        if a.permanent then a.typeid :: s.existingPermanentActions
        else s.existingPermanentActions }
  else s

/-- `initiate` has been called on `a` and has not thrown. -/
def initiated (s : Adding H) (a : SessionAction) (r : Answer H) : Adding H :=
  let s : Adding H := { s with
    header := r.header s.header
    updateLastContacted := true
    previousCompleted := (a.started r).completed
    events := s.events ++ [.initiate a s.actions] }
  if (a.started r).errored then { s with errored := true } else s.keep (a.started r)

/-- `initiate` has thrown. -/
def failed (s : Adding H) (a : SessionAction) : Adding H :=
  { s with thrown := true, events := s.events ++ [.initiate a s.actions] }

def run (answer : Nat → Answer H) : Nat → Adding H → List SessionAction → Adding H
  | _, s, [] => s
  | index, s, a :: rest =>
    let r := answer index
    if a.typeid ∈ s.existingPermanentActions then run answer (index + 1) s rest
    else if s.previousCompleted then
      if r.throws then s.failed a
      else if (a.started r).errored then s.initiated a r
      else run answer (index + 1) (s.initiated a r) rest
    else run answer (index + 1) (s.keep a) rest

end Adding

/-! ## The manager -/

namespace SessionManager
variable [DecidableEq H] [HeaderKeys H]

/-- What an iterator to the first session with `p` designates. -/
def first (m : SessionManager H) (p : Session H → Bool) : Option (Nat × Session H) :=
  (m.sessions.findIdx? p).bind fun index => m.sessions[index]?.map fun s => (index, s)

def findPeer (m : SessionManager H) (peerid : String) : Option (Nat × Session H) :=
  m.first fun s => HeaderKeys.peerid s.header = peerid

/-- The session that keeps one with `header` from being inserted. -/
def blocking (m : SessionManager H) (header : H) : Option (Nat × Session H) :=
  (HeaderKeys.uniqueKeys header).zipIdx.findSome? fun key =>
    m.first fun s => (HeaderKeys.uniqueKeys s.header)[key.2]? = some key.1

def setAt (m : SessionManager H) (index : Nat) (session : Session H) : SessionManager H :=
  { m with sessions := m.sessions.set index session }

def eraseAt (m : SessionManager H) (index : Nat) : SessionManager H :=
  { m with sessions := m.sessions.eraseIdx index }

/-- `modify`: a session whose keys are another one's is erased. -/
def replaceAt (m : SessionManager H) (index : Nat) (session : Session H) : SessionManager H :=
  if ((m.eraseAt index).blocking session.header).isSome then m.eraseAt index
  else m.setAt index session

def processAt (m : SessionManager H) (index : Nat) (session : Session H) (now : Nat)
    (answer : Nat → Answer H) : SessionOut × SessionManager H :=
  let s := Scan.run answer (.start session.header) session.actions
  if s.thrown then (⟨.thrown, s.events⟩, m.eraseAt index)
  else
    let m :=
      if s.errored then m.eraseAt index
      else if s.disposeCount = session.actions.length then m.eraseAt index
      else if s.header ≠ session.header ∨ s.updateLastContacted then
        m.replaceAt index { session with
          header := s.header
          waitForContact := if s.updateLastContacted then now + session.waitDuration
            else session.waitForContact
          actions := s.passed.filter fun a => !a.disposable }
      else m.setAt index { session with actions := s.passed }
    (⟨.flag s.updateLastContacted, s.events⟩, m)

def process (m : SessionManager H) (peerid : String) (now : Nat) (answer : Nat → Answer H) :
    SessionOut × SessionManager H :=
  if peerid = "" then (⟨.flag false, []⟩, m)
  else match m.findPeer peerid with
    | none => (⟨.flag false, []⟩, m)
    | some (index, session) => m.processAt index session now answer

def addAt (m : SessionManager H) (index : Nat) (session : Session H)
    (actions : List SessionAction) (waitDuration now : Nat) (answer : Nat → Answer H) :
    SessionOut × SessionManager H :=
  let s := Adding.run answer 0 (.start session) actions
  if s.thrown then (⟨.thrown, s.events⟩, m.eraseAt index)
  else
    let m :=
      if s.errored then m.eraseAt index
      else if s.actions = [] then m.eraseAt index
      else if s.header ≠ session.header ∨ s.updateLastContacted then
        let waitDuration := min session.waitDuration waitDuration
        m.replaceAt index
          { header := s.header, waitDuration,
            waitForContact := if s.updateLastContacted then now + waitDuration
              else session.waitForContact
            actions := s.actions }
      else m.setAt index { session with actions := s.actions }
    (⟨.flag true, s.events⟩, m)

/-- Number the new actions. -/
def number (m : SessionManager H) (actions : List NewAction) : List SessionAction :=
  actions.zipIdx.map fun n => n.1.make (m.nextId + n.2)

def add (m : SessionManager H) (header : H) (actions : List NewAction) (waitDuration now : Nat)
    (answer : Nat → Answer H) : SessionOut × SessionManager H :=
  if actions = [] then
    (⟨.logicError "session_manager::add - actions cannot be empty", []⟩, m)
  else
    let news := m.number actions
    let m := { m with nextId := m.nextId + actions.length }
    match m.blocking header with
    | none =>
      let session : Session H := ⟨header, 0, waitDuration, []⟩
      { m with sessions := m.sessions ++ [session] }.addAt m.sessions.length session news
        waitDuration now answer
    | some (index, session) =>
      if HeaderKeys.keysSame session.header header then
        m.addAt index session news waitDuration now answer
      else (⟨.flag false, []⟩, m)

def remove (m : SessionManager H) (peerid : String) : SessionManager H :=
  match m.findPeer peerid with
  | none => m
  | some (index, _) => m.eraseAt index

def eraseAllPending (m : SessionManager H) (now : Nat) : SessionManager H :=
  { m with sessions := m.sessions.filter fun s => now < s.waitForContact }

end SessionManager

inductive SessionOp (H : Type)
  | add (header : H) (actions : List NewAction) (waitDuration now : Nat) (answer : Nat → Answer H)
  | remove (peerid : String)
  | process (peerid : String) (now : Nat) (answer : Nat → Answer H)
  | eraseAllPending (now : Nat)

def SessionManager.step [DecidableEq H] [HeaderKeys H] (m : SessionManager H) :
    SessionOp H → SessionOut × SessionManager H
  | .add header actions waitDuration now answer => m.add header actions waitDuration now answer
  | .remove peerid => (⟨.done, []⟩, m.remove peerid)
  | .process peerid now answer => m.process peerid now answer
  | .eraseAllPending now => (⟨.done, []⟩, m.eraseAllPending now)

end MeshPP.SessionUtility
