import MeshPP.SystemUtility.FileLock
import MeshPP.SystemUtility.Published

/-! # `file_locker`

Any number of processes work on one file through `file_locker<file_loader<T>>`:
each takes the lock file, one system call at a time, loads the value, changes
its copy, saves it, and gives the lock file up. Nobody else opens the file, so
a call of the loader is one step. Where every lock is taken on an inode the path
still leads to, the file holds what the saved changes make of the first value,
one after the other, and none of them is lost. -/

namespace MeshPP.SystemUtility
open MeshPP.Lib

/-- Where a process is in the life of its `file_locker`. -/
inductive Phase (T : Type)
  /-- in the constructor, which has not made the loader yet -/
  | locking
  | holding (loader : FileLoader T)
  /-- without the loader, on the way through `delete_lock_file` -/
  | unlocking
  | terminated

def Phase.holds {T : Type} : Phase T → Bool
  | .holding _ => true
  | _ => false

theorem Phase.holds_iff {T : Type} {phase : Phase T} :
    phase.holds = true ↔ ∃ loader, phase = .holding loader := by
  cases phase <;> simp [holds]

/-- The processes on one lock path and one file. -/
structure Lockers (T : Type) where
  lock : LockState
  files : LoaderFiles
  phase : Nat → Phase T

inductive LockerAct (T : Type)
  /-- a system call on the lock file -/
  | call (a : LockAct)
  /-- `dostuff`, which may fail to write, and `ptr.reset(new T(path))` -/
  | construct (process : Nat) (written : Bool)
  /-- `operator*` of a locker that is not constant -/
  | edit (process : Nat) (change : T → T)
  | save (process : Nat) (fault : Option SaveFault)
  | discard (process : Nat)
  /-- `ptr.reset()` of the destructor -/
  | reset (process : Nat)

def Pc.owns : Pc → Bool
  | .locked _ => true
  | _ => false

theorem Pc.owns_iff {pc : Pc} : pc.owns = true ↔ ∃ fd, pc = .locked fd := by
  cases pc <;> simp [owns]

section
variable {T : Type} (fmt : FileFormat T) (path : String)

def lockPath : String := path ++ ".lock"

/-- `save` of the locker: a `save` of the loader that throws passes its `commit` by. -/
def FileLoader.saveAndCommit (loader : FileLoader T) (fault : Option SaveFault)
    (f : LoaderFiles) : FileOut × LoaderFiles × FileLoader T :=
  let saved := loader.save fmt fault f
  if saved.1 = .done then saved.2.2.commit saved.2.1 else saved

/-- Without a transaction, `save` of the locker throws and leaves the file, finds nothing to save,
or puts the value into the file. -/
theorem FileLoader.saveAndCommit_cases {loader : FileLoader T} (htr : loader.ptransaction = none)
    (fault : Option SaveFault) (f : LoaderFiles) :
    (∃ e tr, loader.saveAndCommit fmt fault f = (.thrown e, { f with tr }, loader)) ∨
      loader.modified = false ∧ loader.saveAndCommit fmt fault f = (.done, f, loader) ∨
      loader.saveAndCommit fmt fault f = (.done, ⟨some (fmt.toString loader.value), none⟩,
        { loader with modified := false }) := by
  obtain ⟨filePath, modified, ptransaction, value⟩ := loader
  obtain rfl : ptransaction = none := htr
  cases modified with
  | false => exact .inr (.inl ⟨rfl, rfl⟩)
  | true =>
    cases fault with
    | some x => exact .inl ⟨_, _, rfl⟩
    | none =>
      refine .inr (.inr ?_)
      obtain ⟨main, tr⟩ := f
      cases main <;> rfl

namespace Lockers

def enter (s : Lockers T) (process : Nat) (phase : Phase T) : Lockers T :=
  { s with phase := Function.update s.phase process phase }

/-- A call on the lock file, where the program makes one: before the lock is taken, and when
the loader is gone. Behind the last one the process may make another locker. -/
def call (s : Lockers T) (a : LockAct) : Lockers T :=
  let called := { s with lock := s.lock.next a }
  match s.phase a.process with
  | .locking => if (s.lock.pc a.process).owns then s else called
  | .unlocking =>
    if called.lock.pc a.process = .idle then called.enter a.process .locking else called
  | _ => s

/-- `dostuff` and the constructor of the loader; an exception leaves through `delete_lock_file`. -/
def construct (s : Lockers T) (process : Nat) (written : Bool) : FileOut × Lockers T :=
  match s.phase process with
  | .locking =>
    if (s.lock.pc process).owns then
      if written then
        match FileLoader.construct fmt path none s.files with
        | .ok loader => (.done, s.enter process (.holding loader))
        | .error e => (.thrown e, s.enter process .unlocking)
      else (.thrown (.runtimeError ("unable to write to lock file: " ++ lockPath path)),
        s.enter process .unlocking)
    else (.done, s)
  | _ => (.done, s)

/-- A call of the loader that a process holds, and the process after it. -/
def use (s : Lockers T) (process : Nat)
    (f : FileLoader T → FileOut × LoaderFiles × FileLoader T)
    (after : FileLoader T → Phase T) : FileOut × Lockers T :=
  match s.phase process with
  | .holding loader =>
    let r := f loader
    (r.1, { s with files := r.2.1 }.enter process
      (if r.1 = FileOut.terminated then Phase.terminated else after r.2.2))
  | _ => (.done, s)

def step (s : Lockers T) : LockerAct T → FileOut × Lockers T
  | .call a => (.done, s.call a)
  | .construct process written => s.construct fmt path process written
  | .edit process change =>
    s.use process (fun loader => (.done, s.files, loader.edit change)) .holding
  | .save process fault =>
    s.use process (fun loader => loader.saveAndCommit fmt fault s.files) .holding
  | .discard process => s.use process (fun loader => loader.discard fmt s.files) .holding
  | .reset process =>
    s.use process (fun loader => loader.commit s.files) fun _ => .unlocking

end Lockers

namespace LockState

theorem next_pc_of_ne (s : LockState) {a : LockAct} {p : Nat} (h : p ≠ a.process) :
    (s.next a).pc p = s.pc p := by
  unfold next
  cases s.pc a.process <;> dsimp only <;> (try split) <;> exact s.goto_pc_of_ne h _ _

end LockState

/-! ## What is published -/

/-- The processes with what each has changed since it has loaded or saved, and with what was
saved, in order. -/
structure Recorded (T : Type) where
  lockers : Lockers T
  pending : Nat → T → T
  published : List (T → T)

namespace Recorded

def init (files : LoaderFiles) : Recorded T := ⟨⟨.init, files, fun _ => .locking⟩, fun _ => id, []⟩

/-- What all that was saved makes of a value, one change after the other. -/
def value (s : Recorded T) (start : T) : T := s.published.foldl (fun v change => change v) start

def note (s : Recorded T) (process : Nat) (change : T → T) : Recorded T :=
  { s with pending := Function.update s.pending process change }

/-- What an operation adds to the record. -/
def record (s : Recorded T) (out : FileOut) : LockerAct T → Recorded T
  | .construct process _ =>
    if (s.lockers.phase process).holds then s else s.note process id
  | .edit process change =>
    if (s.lockers.phase process).holds then s.note process (change ∘ s.pending process) else s
  | .save process _ =>
    if (s.lockers.phase process).holds ∧ out = .done then
      { s with published := s.published ++ [s.pending process] }.note process id
    else s
  | .discard process => if (s.lockers.phase process).holds then s.note process id else s
  | .call _ | .reset _ => s

def step (s : Recorded T) (act : LockerAct T) : FileOut × Recorded T :=
  let r := s.lockers.step fmt path act
  (r.1, { s.record r.1 act with lockers := r.2 })

/-- A process that holds a loader has the lock, and its copy is what it has changed of what was
saved. -/
structure Works (start : T) (s : Recorded T) (p : Nat) (loader : FileLoader T) : Prop where
  owns : s.lockers.lock.Owns p
  ptransaction : loader.ptransaction = none
  value : loader.value = s.pending p (s.value start)
  unmodified : loader.modified = false → loader.value = s.value start

/-- The file has what the saved changes make of the first value, and so has each process that
works on it, but for its own changes. -/
structure Serial (start : T) (s : Recorded T) : Prop where
  owners : s.lockers.lock.OwnersLinked
  stored : loadFile fmt s.lockers.files.main = .ok (s.value start)
  works : ∀ p loader, s.lockers.phase p = .holding loader → Works start s p loader
  alive : ∀ p, s.lockers.phase p ≠ .terminated

variable {fmt path} {start : T} {s s' : Recorded T} {p : Nat}

/-- What the owner of the lock does, nobody else is concerned with. -/
theorem Serial.enter (h : Serial fmt start s) (hown : s.lockers.lock.Owns p) {phase : Phase T}
    (hlock : s'.lockers.lock = s.lockers.lock)
    (hphase : s'.lockers.phase = Function.update s.lockers.phase p phase)
    (hstored : loadFile fmt s'.lockers.files.main = .ok (s'.value start))
    (hworks : ∀ loader, phase = .holding loader → Works start s' p loader)
    (halive : phase ≠ .terminated) : Serial fmt start s' := by
  refine ⟨hlock ▸ h.owners, hstored, fun q loader hq => ?_, fun q => ?_⟩
  · rw [hphase] at hq
    by_cases hqp : q = p
    · subst hqp
      rw [Function.update_self] at hq
      exact hworks loader hq
    · rw [Function.update_of_ne hqp] at hq
      exact absurd (h.owners.exclusive q p (h.works q loader hq).owns hown) hqp
  · rw [hphase]
    by_cases hqp : q = p
    · rw [hqp, Function.update_self]
      exact halive
    · rw [Function.update_of_ne hqp]
      exact h.alive q

theorem Serial.note (h : Serial fmt start s) (hp : ∀ loader, s.lockers.phase p ≠ .holding loader)
    (change : T → T) : Serial fmt start (s.note p change) := by
  refine ⟨h.owners, h.stored, fun q loader hq => ?_, h.alive⟩
  have hqp : q ≠ p := by
    rintro rfl
    exact hp loader hq
  obtain ⟨hown, htr, hvalue, hunmodified⟩ := h.works q loader hq
  refine ⟨hown, htr, hvalue.trans ?_, hunmodified⟩
  change _ = Function.update s.pending p change q (s.value start)
  rw [Function.update_of_ne hqp]

/-- A call on the lock file is made by a process without a loader. -/
theorem Serial.next (h : Serial fmt start s) {a : LockAct} (hc : s.lockers.lock.LocksLinked a)
    {phase : Nat → Phase T} (hne : ∀ q, q ≠ a.process → phase q = s.lockers.phase q)
    (hself : phase a.process = .locking ∨ phase a.process = .unlocking) :
    Serial fmt start { s with lockers := ⟨s.lockers.lock.next a, s.lockers.files, phase⟩ } := by
  refine ⟨h.owners.next hc, h.stored, fun q loader hq => ?_, fun q hq => ?_⟩
  · change phase q = _ at hq
    by_cases hqa : q = a.process
    · rw [hqa] at hq
      rcases hself with hself | hself <;> cases hself.symm.trans hq
    · obtain ⟨⟨fd, hown⟩, htr, hvalue, hunmodified⟩ := h.works q loader ((hne q hqa).symm.trans hq)
      exact ⟨⟨fd, (s.lockers.lock.next_pc_of_ne hqa).trans hown⟩, htr, hvalue, hunmodified⟩
  · change phase q = _ at hq
    by_cases hqa : q = a.process
    · rw [hqa] at hq
      rcases hself with hself | hself <;> cases hself.symm.trans hq
    · exact h.alive q ((hne q hqa).symm.trans hq)

theorem Serial.call (h : Serial fmt start s) {a : LockAct} (hc : s.lockers.lock.LocksLinked a) :
    Serial fmt start { s with lockers := s.lockers.call a } := by
  unfold Lockers.call
  cases hphase : s.lockers.phase a.process with
  | locking =>
    dsimp only
    split
    · exact h
    · exact h.next hc (fun _ _ => rfl) (.inl hphase)
  | holding loader => exact h
  | unlocking =>
    dsimp only
    split
    · exact h.next hc (fun _ hq => Function.update_of_ne hq _ _) (.inl (Function.update_self _ _ _))
    · exact h.next hc (fun _ _ => rfl) (.inr hphase)
  | terminated => exact h

theorem Serial.run {act : LockerAct T} {out : FileOut} {lockers : Lockers T}
    (hstep : s.lockers.step fmt path act = (out, lockers)) (hrecord : s.record out act = s')
    (h : Serial fmt start { s' with lockers }) : Serial fmt start (s.step fmt path act).2 := by
  have hrun : s.step fmt path act = (out, { s' with lockers }) := by
    unfold step
    rw [hstep]
    dsimp only
    rw [hrecord]
  rw [hrun]
  exact h

theorem Serial.construct (h : Serial fmt start s) (written : Bool) :
    Serial fmt start (s.step fmt path (.construct p written)).2 := by
  by_cases hholds : (s.lockers.phase p).holds = true
  · obtain ⟨loader, hphase⟩ := Phase.holds_iff.mp hholds
    have hstep : s.lockers.construct fmt path p written = (.done, s.lockers) := by
      unfold Lockers.construct
      rw [hphase]
    exact Serial.run hstep (if_pos hholds) h
  have hnote := h.note (fun loader hp => hholds (Phase.holds_iff.mpr ⟨loader, hp⟩)) id
  refine Serial.run rfl (if_neg hholds) ?_
  change Serial fmt start { s.note p id with lockers := (s.lockers.construct fmt path p written).2 }
  unfold Lockers.construct
  cases hphase : s.lockers.phase p with
  | locking =>
    dsimp only
    by_cases hown : (s.lockers.lock.pc p).owns = true
    · have howns : s.lockers.lock.Owns p := Pc.owns_iff.mp hown
      rw [if_pos hown]
      cases written with
      | false => exact h.enter howns rfl rfl h.stored (fun _ hp => nomatch hp) (fun hp => nomatch hp)
      | true =>
        have hload : FileLoader.construct fmt path none s.lockers.files =
            .ok ⟨path, false, none, s.value start⟩ := by
          change (loadFile fmt s.lockers.files.main >>= fun value => _) = _
          rw [h.stored]
          rfl
        rw [if_pos rfl, hload]
        refine h.enter howns rfl rfl h.stored (fun loader hp => ?_) (fun hp => nomatch hp)
        obtain rfl := Phase.holding.inj hp
        refine ⟨howns, rfl, ?_, fun _ => rfl⟩
        change s.value start = Function.update s.pending p id p (s.value start)
        rw [Function.update_self]
        rfl
    · rw [if_neg hown]
      exact hnote
  | _ => exact hnote

/-- What a process does with its loader. -/
theorem Serial.use (h : Serial fmt start s) {loader : FileLoader T}
    (hphase : s.lockers.phase p = .holding loader) {act : LockerAct T}
    {f : FileLoader T → FileOut × LoaderFiles × FileLoader T} {after : FileLoader T → Phase T}
    (hstep : s.lockers.step fmt path act = s.lockers.use p f after)
    {out : FileOut} {files : LoaderFiles} {next : FileLoader T} {s' : Recorded T}
    (hrun : f loader = (out, files, next)) (hrecord : s.record out act = s')
    (hout : out ≠ .terminated) (hafter : after next ≠ .terminated)
    (hstored : loadFile fmt files.main = .ok (s'.value start))
    (hworks : ∀ held, after next = .holding held → held.ptransaction = none ∧
      held.value = s'.pending p (s'.value start) ∧
      (held.modified = false → held.value = s'.value start)) :
    Serial fmt start (s.step fmt path act).2 := by
  have hown := (h.works p loader hphase).owns
  have huse : s.lockers.use p f after =
      (out, { s.lockers with files }.enter p (after next)) := by
    unfold Lockers.use
    rw [hphase]
    dsimp only
    rw [hrun, if_neg hout]
  refine Serial.run (hstep.trans huse) hrecord ?_
  refine h.enter hown rfl rfl hstored (fun held hheld => ?_) hafter
  obtain ⟨htr, hvalue, hunmodified⟩ := hworks held hheld
  exact ⟨hown, htr, hvalue, hunmodified⟩

/-- What a process does without a loader is nothing. -/
theorem Serial.idle (h : Serial fmt start s) (hholds : ¬(s.lockers.phase p).holds = true)
    {act : LockerAct T} {f : FileLoader T → FileOut × LoaderFiles × FileLoader T}
    {after : FileLoader T → Phase T}
    (hstep : s.lockers.step fmt path act = s.lockers.use p f after)
    (hrecord : s.record .done act = s) : Serial fmt start (s.step fmt path act).2 := by
  have huse : s.lockers.use p f after = (.done, s.lockers) := by
    unfold Lockers.use
    cases hphase : s.lockers.phase p with
    | holding loader => exact absurd (Phase.holds_iff.mpr ⟨loader, hphase⟩) hholds
    | _ => rfl
  exact Serial.run (hstep.trans huse) hrecord h

theorem Serial.edit (h : Serial fmt start s) (change : T → T) :
    Serial fmt start (s.step fmt path (.edit p change)).2 := by
  by_cases hholds : (s.lockers.phase p).holds = true
  · obtain ⟨loader, hphase⟩ := Phase.holds_iff.mp hholds
    obtain ⟨-, htr, hvalue, -⟩ := h.works p loader hphase
    refine h.use hphase rfl rfl (if_pos hholds) (fun hout => nomatch hout)
      (fun hp => nomatch hp) h.stored fun held hheld => ?_
    obtain rfl := Phase.holding.inj hheld
    refine ⟨htr, ?_, fun hm => nomatch hm⟩
    change change loader.value = Function.update s.pending p _ p (s.value start)
    rw [Function.update_self, hvalue]
    rfl
  · exact h.idle hholds rfl (if_neg hholds)

theorem Serial.save (hread : ∀ v, loadFile fmt (some (fmt.toString v)) = .ok v)
    (h : Serial fmt start s) (fault : Option SaveFault) :
    Serial fmt start (s.step fmt path (.save p fault)).2 := by
  by_cases hholds : (s.lockers.phase p).holds = true
  · obtain ⟨loader, hphase⟩ := Phase.holds_iff.mp hholds
    obtain ⟨-, htr, hvalue, hunmodified⟩ := h.works p loader hphase
    have hsaved : ({ s with published := s.published ++ [s.pending p] }.note p id).value start =
        loader.value := by
      rw [hvalue]
      exact List.foldl_append
    have hpending : ({ s with published := s.published ++ [s.pending p] }.note p id).pending p =
        id := Function.update_self _ _ _
    rcases FileLoader.saveAndCommit_cases fmt htr fault s.lockers.files with
      ⟨e, tr, hrun⟩ | ⟨hm, hrun⟩ | hrun
    · refine h.use hphase rfl hrun (if_neg fun hp => nomatch hp.2) (fun hout => nomatch hout)
        (fun hp => nomatch hp) h.stored fun held hheld => ?_
      obtain rfl := Phase.holding.inj hheld
      exact ⟨htr, hvalue, hunmodified⟩
    · refine h.use hphase rfl hrun (if_pos ⟨hholds, rfl⟩) (fun hout => nomatch hout)
        (fun hp => nomatch hp) ?_ fun held hheld => ?_
      · rw [hsaved, hunmodified hm]
        exact h.stored
      · rw [hsaved, hpending]
        obtain rfl := Phase.holding.inj hheld
        exact ⟨htr, rfl, fun _ => rfl⟩
    · refine h.use hphase rfl hrun (if_pos ⟨hholds, rfl⟩) (fun hout => nomatch hout)
        (fun hp => nomatch hp) ?_ fun held hheld => ?_
      · rw [hsaved]
        exact hread loader.value
      · rw [hsaved, hpending]
        obtain rfl := Phase.holding.inj hheld
        exact ⟨htr, rfl, fun _ => rfl⟩
  · exact h.idle hholds rfl (if_neg fun hp => hholds hp.1)

theorem Serial.discard (h : Serial fmt start s) :
    Serial fmt start (s.step fmt path (.discard p)).2 := by
  by_cases hholds : (s.lockers.phase p).holds = true
  · obtain ⟨loader, hphase⟩ := Phase.holds_iff.mp hholds
    obtain ⟨-, htr, -, -⟩ := h.works p loader hphase
    have hrun : loader.discard fmt s.lockers.files = (.done, s.lockers.files,
        ⟨loader.filePath, false, none, s.value start⟩) := by
      unfold FileLoader.discard
      rw [htr]
      dsimp only [Option.elim_none]
      rw [h.stored]
    refine h.use hphase rfl hrun (if_pos hholds) (fun hout => nomatch hout)
      (fun hp => nomatch hp) h.stored fun held hheld => ?_
    obtain rfl := Phase.holding.inj hheld
    refine ⟨rfl, ?_, fun _ => rfl⟩
    change s.value start = Function.update s.pending p id p (s.value start)
    rw [Function.update_self]
    rfl
  · exact h.idle hholds rfl (if_neg hholds)

theorem Serial.reset (h : Serial fmt start s) :
    Serial fmt start (s.step fmt path (.reset p)).2 := by
  have hstep : s.lockers.step fmt path (.reset p) =
      s.lockers.use p (fun loader => loader.commit s.lockers.files) fun _ => .unlocking := rfl
  by_cases hholds : (s.lockers.phase p).holds = true
  · obtain ⟨loader, hphase⟩ := Phase.holds_iff.mp hholds
    obtain ⟨-, htr, -, -⟩ := h.works p loader hphase
    have hrun : loader.commit s.lockers.files = (.done, s.lockers.files, loader) := by
      unfold FileLoader.commit
      rw [htr]
    exact h.use hphase hstep hrun rfl (fun hout => nomatch hout) (fun hp => nomatch hp) h.stored
      fun _ hheld => nomatch hheld
  · exact h.idle hholds hstep rfl

/-! ## Runs -/

/-- A lock is taken on the inode that the path leads to. -/
def LocksLinked (s : Recorded T) (act : LockerAct T) : Prop :=
  ∀ a, act = .call a → s.lockers.lock.LocksLinked a

theorem Serial.step (hread : ∀ v, loadFile fmt (some (fmt.toString v)) = .ok v)
    (h : Serial fmt start s) {act : LockerAct T} (hc : LocksLinked s act) :
    Serial fmt start (s.step fmt path act).2 := by
  cases act with
  | call a => exact h.call (hc a rfl)
  | construct process written => exact h.construct written
  | edit process change => exact h.edit change
  | save process fault => exact h.save hread fault
  | discard process => exact h.discard
  | reset process => exact h.reset

theorem serial_init {files : LoaderFiles} (h : loadFile fmt files.main = .ok start) :
    Serial fmt start (init files) where
  owners := LockState.ownersLinked_init
  stored := h
  works _ _ hp := nomatch hp
  alive _ hp := nomatch hp

/-- **In every run whose locks are taken on linked inodes, no change that was saved is lost.** -/
theorem run_serial (hread : ∀ v, loadFile fmt (some (fmt.toString v)) = .ok v)
    {files : LoaderFiles} (hfiles : loadFile fmt files.main = .ok start)
    {acts : List (LockerAct T)} (hm : Meets (Recorded.step fmt path) LocksLinked (init files) acts) :
    Serial fmt start (final (Recorded.step fmt path) (init files) acts) :=
  invariant_final (fun _ _ h hc => h.step hread hc) (serial_init hfiles) hm

/-- The condition of one step, to be evaluated. -/
def linksLock (s : Recorded T) : LockerAct T → Bool
  | .call a =>
    match s.lockers.lock.pc a.process with
    | .createFlock _ fd =>
      !a.ok || (s.lockers.lock.fs.flocked fd).isSome || s.lockers.lock.fs.linked = some fd
    | _ => true
  | _ => true

theorem locksLinked_of_linksLock {act : LockerAct T} (h : s.linksLock act = true) :
    LocksLinked s act := by
  rintro a rfl index fd hpc hok hfree
  unfold linksLock at h
  dsimp only at h
  rw [hpc] at h
  simpa [hok, hfree] using h

variable (fmt path) in
def allLinked (s : Recorded T) : List (LockerAct T) → Bool
  | [] => true
  | act :: acts => s.linksLock act && (s.step fmt path act).2.allLinked acts

theorem meets_allLinked {acts : List (LockerAct T)} (h : s.allLinked fmt path acts = true) :
    Meets (Recorded.step fmt path) LocksLinked s acts := by
  induction acts generalizing s with
  | nil => trivial
  | cons act acts ih =>
    obtain ⟨hact, hacts⟩ := Bool.and_eq_true_iff.mp h
    exact ⟨locksLinked_of_linksLock hact, ih hacts⟩

end Recorded
end

namespace Bytewise

def calls (process : Nat) : LockerAct UInt8 := .call ⟨process, true⟩

/-- Process 1 finds the file locked by process 0, and gets the lock when 0 is through. -/
def inTurn : List (LockerAct UInt8) :=
  [calls 0, calls 0, calls 0, .construct 0 true, calls 1, calls 1, calls 1, .edit 0 (· + 1),
    .save 0 none, calls 1, .reset 0, calls 0, calls 0, calls 1, calls 1, .construct 1 true,
    .edit 1 (· * 3), .save 1 none, .reset 1, calls 1, calls 1]

/-- Process 1 locks the file that process 0 has removed, and process 2 the one that it has
created then. -/
def apart : List (LockerAct UInt8) :=
  [calls 0, calls 0, calls 0, calls 1, calls 1, .construct 0 false, calls 0, calls 0, calls 1,
    .construct 1 true, calls 2, calls 2, calls 2, .construct 2 true, .edit 1 (· + 1),
    .save 1 none, .edit 2 (· * 3), .save 2 none]

end Bytewise

namespace Recorded

theorem run_serial_inTurn :
    Serial Bytewise.format 1 (final (Recorded.step Bytewise.format "byte")
      (init ⟨some [1], none⟩) Bytewise.inTurn) := by
  have hlinked : (init ⟨some [1], none⟩).allLinked Bytewise.format "byte" Bytewise.inTurn = true := by
    decide +kernel
  exact run_serial (fun _ => rfl) rfl (meets_allLinked hlinked)

example : (final (Recorded.step Bytewise.format "byte") (init ⟨some [1], none⟩)
    Bytewise.inTurn).lockers.files.main = some [6] := by decide +kernel

/-- One of the two changes is lost. -/
example : (final (Recorded.step Bytewise.format "byte") (init ⟨some [1], none⟩)
    Bytewise.apart).lockers.files.main = some [3] := by decide +kernel

end Recorded

end MeshPP.SystemUtility
