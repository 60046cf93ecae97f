import Mathlib.Logic.Function.Basic
import Mathlib.Data.Fin.Basic
import MeshPP.Lib.Frame
import MeshPP.Lib.Slice

/-! # The four files of a block and the calls that change them

A block file at `path` is the contents file `path`, its marker file `path.m`,
and the two pending files `path.tr` and `path.m.tr` an open transaction works
on. A disk maps the name of a block to these four files; the directory in front
of it is left out. A marker file is the array of records the loader reads back by
a cast; `stray` counts the bytes behind the last whole record of 24.

Every call that can throw goes through `call` or `readCall`, which consult a
schedule of faults: a call that fails may leave the pending files of its block
in any state, and never touches a committed one; a failed read touches nothing.
What it throws tells the file, the call and what the fault reports. The empty
schedule is the run where every call succeeds. -/

namespace MeshPP.SystemUtility
open MeshPP.Lib

abbrev Bytes := List UInt8

structure Marker where
  start : Nat
  end_ : Nat
  key : UInt64
  deriving DecidableEq, Repr

structure MarkerFile where
  entries : List Marker
  stray : Fin 24
  deriving DecidableEq, Repr

structure Files where
  main : Option Bytes
  m : Option MarkerFile
  tr : Option Bytes
  mTr : Option MarkerFile
  deriving DecidableEq, Repr

def Files.absent : Files := ⟨none, none, none, none⟩

/-- The files of a block, as `file_path`, `file_path_marker`, `file_path_tr` and
`file_path_marker_tr` name them. -/
inductive BlockPart
  | main
  | marker
  | tr
  | markerTr

def BlockPart.extension : BlockPart → String
  | main => ""
  | marker => ".m"
  | tr => ".tr"
  | markerTr => ".m.tr"

def filePathMarker (path : String) : String := path ++ BlockPart.marker.extension
def filePathTr (path : String) : String := path ++ BlockPart.tr.extension
def filePathMarkerTr (path : String) : String := path ++ BlockPart.markerTr.extension

abbrev Disk := String → Files

/-- The directory in which no block has a file yet. -/
def Disk.empty : Disk := fun _ => .absent

/-- The exceptions of the source, with their texts. -/
inductive Err
  | outOfRange (what : String)
  | runtimeError (what : String)
  | logicError (what : String)
  deriving DecidableEq, Repr

/-- The bit that a failing call sets in the state of its stream. -/
inductive StreamBit
  | badbit
  | eofbit
  | failbit
  deriving DecidableEq, Repr

def StreamBit.name : StreamBit → String
  | badbit => "badbit"
  | eofbit => "eofbit"
  | failbit => "failbit"

/-- What a failing call leaves in the pending files of its block, and what it reports: the
bit of its stream, or the message of its error code. -/
structure Fault where
  tr : Option Bytes
  mTr : Option MarkerFile
  bit : StreamBit
  message : String
  deriving DecidableEq, Repr

/-- The text with which `check` throws. -/
def check (function what where_ path info : String) (bit : StreamBit) : String :=
  function ++ "(): " ++ bit.name ++ ", after " ++ what ++ " to " ++ where_ ++ " on: " ++ path ++
    if info = "" then "" else " - " ++ info

structure World where
  disk : Disk
  faults : List (Option Fault)

abbrev FileM := EStateM Err World

def World.set (w : World) (path : String) (f : Files) : World :=
  { disk := Function.update w.disk path f, faults := w.faults.tail }

def Files.fail (f : Files) (x : Fault) : Files := { f with tr := x.tr, mTr := x.mTr }

/-- One call on the files of the block at `path`; a fault makes it throw. -/
def call (path : String) (what : Fault → String) (effect : Files → Files) : FileM PUnit := fun w =>
  match w.faults with
  | some x :: _ => .error (.runtimeError (what x)) (w.set path ((w.disk path).fail x))
  | _ => .ok ⟨⟩ (w.set path (effect (w.disk path)))

/-- One read; a fault makes it throw. -/
def readCall (what : StreamBit → String) : FileM PUnit := fun w =>
  match w.faults with
  | some x :: _ => .error (.runtimeError (what x.bit)) { w with faults := w.faults.tail }
  | _ => .ok ⟨⟩ { w with faults := w.faults.tail }

/-- A call of a stream on the block at `path`, with the `check` behind it. -/
def streamCall (path : String) (what : StreamBit → String) (effect : Files → Files) :
    FileM PUnit :=
  call path (fun x => what x.bit) effect

/-- A call of the file system on the block at `path`, which reports an error code. -/
def codeCall (path file what : String) (effect : Files → Files) : FileM PUnit :=
  call path (fun x => x.message ++ ", " ++ file ++ ", boost::filesystem::" ++ what) effect

/-- A removal made while an exception is on its way: a fault there leaves the
files behind and the exception passes on. -/
def guardCall (path : String) (effect : Files → Files) : FileM PUnit := fun w =>
  match w.faults with
  | some x :: _ => .ok ⟨⟩ (w.set path ((w.disk path).fail x))
  | _ => .ok ⟨⟩ (w.set path (effect (w.disk path)))

/-! ## What a call on one block keeps -/

/-- The committed files of a block. -/
def Files.SameCommitted (f g : Files) : Prop := f.main = g.main ∧ f.m = g.m

theorem Files.SameCommitted.refl (f : Files) : f.SameCommitted f := ⟨rfl, rfl⟩

theorem Files.SameCommitted.trans {f g h : Files} (a : f.SameCommitted g)
    (b : g.SameCommitted h) : f.SameCommitted h := ⟨a.1.trans b.1, a.2.trans b.2⟩

/-- Some call of the schedule still fails. -/
def World.Faulty (w : World) : Prop := ∃ x, some x ∈ w.faults

/-- Programs that work on the block at `path`: other blocks and the committed
files stay, and only a fault of the schedule excuses a failure. -/
def blockFrame (path : String) : Frame World where
  le w w' := w'.faults <:+ w.faults ∧ (∀ q, q ≠ path → w'.disk q = w.disk q) ∧
    (w.disk path).SameCommitted (w'.disk path)
  refl _ := ⟨List.suffix_refl _, fun _ _ => rfl, .refl _⟩
  trans h h' := ⟨h'.1.trans h.1, fun q hq => (h'.2.1 q hq).trans (h.2.1 q hq),
    h.2.2.trans h'.2.2⟩
  excused := World.Faulty
  excused_of_le h := fun ⟨x, hx⟩ => ⟨x, h.1.subset hx⟩

/-- Programs that only read. -/
def readFrame : Frame World where
  le w w' := w'.faults <:+ w.faults ∧ w'.disk = w.disk
  refl _ := ⟨List.suffix_refl _, rfl⟩
  trans h h' := ⟨h'.1.trans h.1, h'.2.trans h.2⟩
  excused := World.Faulty
  excused_of_le h := fun ⟨x, hx⟩ => ⟨x, h.1.subset hx⟩

theorem ends_onBlock {α : Type} {m : FileM α} {w : World} {Q : α → World → Prop} {path : String}
    (h : Ends readFrame m w Q) : Ends (blockFrame path) m w Q :=
  h.weaken (fun w' hw => ⟨hw.1, fun q _ => by rw [hw.2], by rw [hw.2]; exact .refl _⟩) id

theorem ends_readCall {what : StreamBit → String} {w : World} :
    Ends readFrame (readCall what) w (fun _ w' => w'.disk = w.disk) := by
  unfold Ends readCall
  split
  · rename_i heq
    split at heq
    · cases heq
    · cases heq
      exact ⟨⟨List.tail_suffix _, rfl⟩, rfl⟩
  · rename_i heq
    split at heq
    · rename_i x rest hf
      cases heq
      exact ⟨⟨List.tail_suffix _, rfl⟩, x, by rw [hf]; simp⟩
    · cases heq

/-- A program that only reads returns where every call succeeds, and leaves all as it is. -/
theorem returns_quiet {α : Type} {m : FileM α} {d : Disk} {Q : α → World → Prop}
    (h : Ends readFrame m ⟨d, []⟩ Q) : ∃ a, m ⟨d, []⟩ = .ok a ⟨d, []⟩ ∧ Q a ⟨d, []⟩ := by
  obtain ⟨a, ⟨wd, wf⟩, hr, hle, hq⟩ := h.returns fun ⟨x, hx⟩ => by cases hx
  obtain rfl : wd = d := hle.2
  obtain rfl : wf = [] := List.suffix_nil.mp hle.1
  exact ⟨a, hr, hq⟩

/-- A program on one block returns where every call succeeds, and leaves the other blocks. -/
theorem returns_block {α : Type} {m : FileM α} {path : String} {d : Disk} {Q : α → World → Prop}
    (h : Ends (blockFrame path) m ⟨d, []⟩ Q) :
    ∃ a f, m ⟨d, []⟩ = .ok a ⟨Function.update d path f, []⟩ ∧ (d path).SameCommitted f ∧
      Q a ⟨Function.update d path f, []⟩ := by
  obtain ⟨a, ⟨d', faults⟩, hr, hle, hq⟩ := h.returns fun ⟨x, hx⟩ => by cases hx
  obtain rfl : faults = [] := List.suffix_nil.mp hle.1
  have hd : d' = Function.update d path (d' path) :=
    Function.eq_update_iff.mpr ⟨rfl, fun q hq => hle.2.1 q hq⟩
  exact ⟨a, d' path, hd ▸ hr, hle.2.2, hd ▸ hq⟩

theorem World.set_disk_same (w : World) (path : String) (f : Files) :
    (w.set path f).disk path = f := by simp [World.set]

theorem World.set_le (w : World) (path : String) {f : Files}
    (h : (w.disk path).SameCommitted f) : (blockFrame path).le w (w.set path f) :=
  ⟨List.tail_suffix _, fun q hq => by simp [World.set, Function.update_of_ne hq],
    by simpa [World.set] using h⟩

theorem ends_call {path : String} {what : Fault → String} {effect : Files → Files} {w : World}
    (h : (w.disk path).SameCommitted (effect (w.disk path))) :
    Ends (blockFrame path) (call path what effect) w
      (fun _ w' => w'.disk path = effect (w.disk path)) := by
  unfold Ends call
  split
  · rename_i heq
    split at heq
    · cases heq
    · cases heq
      exact ⟨w.set_le path h, w.set_disk_same path _⟩
  · rename_i heq
    split at heq
    · rename_i x rest hf
      cases heq
      exact ⟨w.set_le path ⟨rfl, rfl⟩, x, by rw [hf]; simp⟩
    · cases heq

/-- A call that changes nothing and may still fail. -/
theorem ends_callId {path : String} {what : Fault → String} {w : World} :
    Ends (blockFrame path) (call path what id) w (fun _ w' => w'.disk path = w.disk path) :=
  ends_call (.refl _)

theorem ends_guardCall {path : String} {effect : Files → Files} {w : World}
    (h : (w.disk path).SameCommitted (effect (w.disk path))) :
    Ends (blockFrame path) (guardCall path effect) w (fun _ _ => True) := by
  unfold Ends guardCall
  split
  · rename_i heq
    split at heq
    · cases heq
      exact ⟨w.set_le path ⟨rfl, rfl⟩, trivial⟩
    · cases heq
      exact ⟨w.set_le path h, trivial⟩
  · rename_i heq
    split at heq <;> cases heq

end MeshPP.SystemUtility
