import Mathlib.Logic.Function.Basic
import MeshPP.Lib.Machine

/-! # The lock file of `file_locker`

Any number of processes work on one lock path through `create_lock_file` and
`delete_lock_file`, one system call at a time, on POSIX. The path is linked to
an inode or to none, a descriptor stays with the inode it was opened on, and an
exclusive lock belongs to an inode.

A process that has opened the file and not locked it yet may find it removed
and closed by its owner, and then locks an inode no path leads to; a third
process creates the file anew and locks that one. Where every lock is taken on
an inode the path still leads to, there is one owner at most. -/

namespace MeshPP.SystemUtility
open MeshPP.Lib

/-- The next system call of a process. A descriptor is the inode it refers to. -/
inductive Pc
  /-- outside of `file_locker` -/
  | idle
  /-- `create_lock_file`, before `open`; the constructor is in round `index` -/
  | createOpen (index : Nat)
  | createFlock (index fd : Nat)
  | createClose (index fd : Nat)
  /-- `create_lock_file` has returned true -/
  | locked (nativeHandle : Nat)
  /-- `delete_lock_file`, before `close` -/
  | deleteClose (nativeHandle : Nat)
  deriving DecidableEq, Repr

structure FileSystem where
  linked : Option Nat
  /-- The process whose descriptor has the exclusive lock of an inode. -/
  flocked : Nat → Option Nat
  inodes : Nat

namespace FileSystem

/-- `open` with `O_CREAT`: the inode the descriptor refers to. -/
def openCreate (fs : FileSystem) : Nat × FileSystem :=
  match fs.linked with
  | some inode => (inode, fs)
  | none => (fs.inodes, { fs with linked := some fs.inodes, inodes := fs.inodes + 1 })

/-- `flock` with `LOCK_EX | LOCK_NB`. -/
def flock (fs : FileSystem) (process fd : Nat) : Bool × FileSystem :=
  if fs.flocked fd = none then
    (true, { fs with flocked := Function.update fs.flocked fd (some process) })
  else (false, fs)

def close (fs : FileSystem) (process fd : Nat) : FileSystem :=
  if fs.flocked fd = some process then
    { fs with flocked := Function.update fs.flocked fd none }
  else fs

def remove (fs : FileSystem) : FileSystem := { fs with linked := none }

theorem openCreate_of_linked {fs : FileSystem} {fd : Nat} (h : fs.linked = some fd) :
    fs.openCreate.2 = fs := by rw [openCreate, h]

/-- Closing a descriptor gives up no lock of another process. -/
theorem close_of_ne {fs : FileSystem} {p process fd : Nat} (fd' : Nat) (hp : p ≠ process)
    (h : fs.flocked fd = some p) :
    (fs.close process fd').linked = fs.linked ∧ (fs.close process fd').flocked fd = some p := by
  unfold close
  split
  · next hc =>
    refine ⟨rfl, ?_⟩
    have hne : fd ≠ fd' := by
      rintro rfl
      exact hp (Option.some.inj (h.symm.trans hc))
    rw [← h]
    exact Function.update_of_ne hne _ _
  · exact ⟨rfl, h⟩

end FileSystem

structure LockState where
  fs : FileSystem
  pc : Nat → Pc

def LockState.init : LockState := ⟨⟨none, fun _ => none, 0⟩, fun _ => .idle⟩

/-- The next call of one process; `ok` says that it does not fail for a reason of its
own. -/
structure LockAct where
  process : Nat
  ok : Bool
  deriving DecidableEq, Repr

/-- Another round of the constructor's loop, or the exception after the last one. -/
def retry (index : Nat) : Pc := if index + 1 < 10 then .createOpen (index + 1) else .idle

namespace LockState

def goto (s : LockState) (process : Nat) (pc : Pc) (fs : FileSystem) : LockState :=
  ⟨fs, Function.update s.pc process pc⟩

@[simp] theorem goto_pc_self (s : LockState) (process : Nat) (pc : Pc) (fs : FileSystem) :
    (s.goto process pc fs).pc process = pc := Function.update_self _ _ _

theorem goto_pc_of_ne (s : LockState) {p process : Nat} (h : p ≠ process) (pc : Pc)
    (fs : FileSystem) : (s.goto process pc fs).pc p = s.pc p := Function.update_of_ne h _ _

def next (s : LockState) (a : LockAct) : LockState :=
  match s.pc a.process with
  | .idle => s.goto a.process (.createOpen 0) s.fs
  | .createOpen index =>
    if a.ok then s.goto a.process (.createFlock index s.fs.openCreate.1) s.fs.openCreate.2
    else s.goto a.process (retry index) s.fs
  | .createFlock index fd =>
    if a.ok && (s.fs.flock a.process fd).1 then
      s.goto a.process (.locked fd) (s.fs.flock a.process fd).2
    else s.goto a.process (.createClose index fd) s.fs
  | .createClose index fd => s.goto a.process (retry index) (s.fs.close a.process fd)
  | .locked fd => s.goto a.process (.deleteClose fd) (if a.ok then s.fs.remove else s.fs)
  | .deleteClose fd => s.goto a.process .idle (s.fs.close a.process fd)

def step (s : LockState) (a : LockAct) : Unit × LockState := ((), s.next a)

/-- The process is between a successful `create_lock_file` and its `delete_lock_file`. -/
def Owns (s : LockState) (process : Nat) : Prop := ∃ fd, s.pc process = .locked fd

/-- At most one process at a time. -/
def Exclusive (s : LockState) : Prop := ∀ p q, s.Owns p → s.Owns q → p = q

/-- A lock that is about to be taken is taken on the inode the path leads to. -/
def LocksLinked (s : LockState) (a : LockAct) : Prop :=
  ∀ index fd, s.pc a.process = .createFlock index fd → a.ok → s.fs.flocked fd = none →
    s.fs.linked = some fd

/-- Every owner has the lock of the inode the path leads to. -/
def OwnersLinked (s : LockState) : Prop :=
  ∀ p fd, s.pc p = .locked fd → s.fs.linked = some fd ∧ s.fs.flocked fd = some p

theorem OwnersLinked.exclusive {s : LockState} (h : s.OwnersLinked) : s.Exclusive := by
  intro p q ⟨fd, hp⟩ ⟨fd', hq⟩
  obtain ⟨hl, hf⟩ := h p fd hp
  obtain ⟨hl', hf'⟩ := h q fd' hq
  obtain rfl : fd = fd' := Option.some.inj (hl.symm.trans hl')
  exact Option.some.inj (hf.symm.trans hf')

/-! ## What one call keeps -/

/-- A step that makes no new owner keeps the relation if the other owners keep theirs. -/
theorem OwnersLinked.goto {s : LockState} (h : s.OwnersLinked) {process : Nat} {pc : Pc}
    {fs : FileSystem} (hpc : ∀ fd, pc ≠ .locked fd)
    (hfs : ∀ p fd, p ≠ process → s.pc p = .locked fd → s.fs.linked = some fd →
      s.fs.flocked fd = some p → fs.linked = some fd ∧ fs.flocked fd = some p) :
    (s.goto process pc fs).OwnersLinked := by
  intro p fd hp
  by_cases hpp : p = process
  · subst hpp
    rw [goto_pc_self] at hp
    exact absurd hp (hpc fd)
  · rw [goto_pc_of_ne s hpp] at hp
    obtain ⟨hl, hf⟩ := h p fd hp
    exact hfs p fd hpp hp hl hf

theorem retry_ne_locked (index fd : Nat) : retry index ≠ .locked fd := by
  unfold retry
  split <;> simp

/-- The step lemma. -/
theorem OwnersLinked.next {s : LockState} {a : LockAct} (h : s.OwnersLinked)
    (hc : s.LocksLinked a) : (s.next a).OwnersLinked := by
  unfold LockState.next
  cases hpc : s.pc a.process with
  | idle => exact h.goto (by simp) fun p fd _ _ hl hf => ⟨hl, hf⟩
  | createOpen index =>
    simp only
    split
    · refine h.goto (by simp) fun p fd _ _ hl hf => ?_
      rw [FileSystem.openCreate_of_linked hl]
      exact ⟨hl, hf⟩
    · exact h.goto (retry_ne_locked index) fun p fd _ _ hl hf => ⟨hl, hf⟩
  | createFlock index fd =>
    simp only [FileSystem.flock]
    by_cases hfree : s.fs.flocked fd = none
    · cases hok : a.ok with
      | false =>
        simp only [Bool.false_and, Bool.false_eq_true, if_false]
        exact h.goto (by simp) fun p fd _ _ hl hf => ⟨hl, hf⟩
      | true =>
        simp only [hfree, if_true, Bool.true_and]
        have hlinked := hc index fd hpc hok hfree
        intro p fd' hp
        by_cases hpp : p = a.process
        · subst hpp
          rw [goto_pc_self] at hp
          obtain rfl : fd = fd' := Pc.locked.inj hp
          exact ⟨hlinked, Function.update_self _ _ _⟩
        · -- another owner would have the lock that was free
          rw [goto_pc_of_ne s hpp] at hp
          obtain ⟨hl, hf⟩ := h p fd' hp
          obtain rfl : fd = fd' := Option.some.inj (hlinked.symm.trans hl)
          rw [hfree] at hf
          cases hf
    · simp only [hfree, if_false, Bool.and_false, Bool.false_eq_true]
      exact h.goto (by simp) fun p fd _ _ hl hf => ⟨hl, hf⟩
  | createClose index fd =>
    refine h.goto (retry_ne_locked index) fun p fd' hp _ hl hf => ?_
    obtain ⟨hl', hf'⟩ := FileSystem.close_of_ne fd hp hf
    exact ⟨hl'.trans hl, hf'⟩
  | locked fd =>
    refine h.goto (by simp) fun p fd' hp hown hl hf => ?_
    -- the path is removed by its only owner
    exact absurd (h.exclusive p a.process ⟨fd', hown⟩ ⟨fd, hpc⟩) hp
  | deleteClose fd =>
    refine h.goto (by simp) fun p fd' hp _ hl hf => ?_
    obtain ⟨hl', hf'⟩ := FileSystem.close_of_ne fd hp hf
    exact ⟨hl'.trans hl, hf'⟩

theorem ownersLinked_init : init.OwnersLinked := fun p fd hp => by cases hp

/-- The lock excludes in every run whose locks are taken on linked inodes. -/
theorem exclusive_of_locksLinked (acts : List LockAct) (h : Meets step LocksLinked init acts) :
    (final step init acts).Exclusive := by
  have hstep : ∀ s a, OwnersLinked s → LocksLinked s a → OwnersLinked (step s a).2 :=
    fun s a hs hc => hs.next hc
  exact (invariant_final hstep ownersLinked_init h).exclusive

/-- Two processes in turn, the second of which opens the file the first has removed. -/
theorem exclusive_of_locksLinked_two :
    (final step init ([0, 0, 0, 1, 0, 0, 1, 1].map fun p => ⟨p, true⟩)).Exclusive :=
  exclusive_of_locksLinked _ (by simp [Meets, LocksLinked, step, next, init, goto,
    FileSystem.openCreate, FileSystem.flock, FileSystem.close, FileSystem.remove,
    Function.update])

/-- Process 1 opens the file process 0 owns; 0 removes and closes it, 1 locks what it
has open, and 2 creates the file again and locks it. -/
theorem not_exclusive : ¬ ∀ acts : List LockAct, (final step init acts).Exclusive := by
  intro h
  have := h ([0, 0, 0, 1, 1, 0, 0, 1, 2, 2, 2].map fun p => ⟨p, true⟩) 1 2 ⟨0, rfl⟩ ⟨1, rfl⟩
  cases this

end LockState

end MeshPP.SystemUtility
