import MeshPP.SystemUtility.FileLoader

/-! # What a commit of `file_loader` publishes

A commit is to publish what the last `save` that returned has written, or to
leave the committed file. A `save` that throws while a transaction is pending
has written over what that transaction is to publish. -/

namespace MeshPP.SystemUtility
open MeshPP.Lib

variable {T : Type} (fmt : FileFormat T)

/-- What was last committed, and what the last `save` since then has written. -/
structure Due where
  committed : Option Bytes
  saved : Option Bytes
  deriving DecidableEq, Repr

/-- What a commit is to leave at `file_path`. -/
def Due.content (d : Due) : Option Bytes := d.saved.or d.committed

def Due.after (d : Due) (s : FileStore T) (op : FileOp T) (out : FileOut) : Due :=
  match op, out with
  | .save _, .done =>
    if s.self.modified then { d with saved := some (fmt.toString s.self.value) } else d
  | .commit, _ => ⟨d.content, none⟩
  | .discard, _ => { d with saved := none }
  | _, _ => d

/-- A store next to what is due. -/
def trackedStep (s : FileStore T × Due) (op : FileOp T) : FileOut × FileStore T × Due :=
  let r := s.1.step fmt op
  (r.1, r.2, s.2.after fmt s.1 op r.1)

/-- A commit returns and leaves at `file_path` what is due. -/
def Publishes (s : FileStore T × Due) (op : FileOp T) : Prop :=
  match op with
  | .commit => (s.1.step fmt op).1 = .done ∧ (s.1.step fmt op).2.files.main = s.2.content
  | _ => True

/-- A `save` that fails with a transaction pending leaves the pending file as it is. -/
def Spares (s : FileStore T × Due) (op : FileOp T) : Prop :=
  match op with
  | .save (some fault) => s.1.self.modified = true → s.1.self.ptransaction ≠ none →
      s.1.self.leaves fmt fault s.1.files.tr = s.1.files.tr
  | _ => True

/-- The pending file is what is due, where a transaction is to publish it. -/
structure Stands (s : FileStore T × Due) : Prop where
  committed : s.1.files.main = s.2.committed
  ptransaction : s.1.self.ptransaction = s.2.saved.map fun _ => ⟨false⟩
  pending : ∀ bytes, s.2.saved = some bytes → s.1.files.tr = some bytes

variable {fmt}

theorem stands_opened {path : String} {f : LoaderFiles} {self : FileLoader T}
    (h : FileLoader.construct fmt path none f = .ok self) :
    Stands (⟨f, self⟩, ⟨f.main, none⟩) := by
  obtain ⟨value, -, hself⟩ := ok_of_bind h
  cases hself
  exact ⟨rfl, rfl, fun bytes hb => (nomatch hb)⟩

theorem stands_handedOver {path : String} {f : LoaderFiles} {bytes : Bytes}
    (htr : f.tr = some bytes) {self : FileLoader T}
    (h : FileLoader.construct fmt path (some ⟨false⟩) f = .ok self) :
    Stands (⟨f, self⟩, ⟨f.main, some bytes⟩) := by
  obtain ⟨value, -, hself⟩ := ok_of_bind h
  cases hself
  exact ⟨rfl, rfl, fun other hb => htr.trans hb⟩

theorem Stands.save {s : FileStore T × Due} (h : Stands s) :
    Stands (trackedStep fmt s (.save none)).2 := by
  obtain ⟨⟨f, self⟩, d⟩ := s
  cases hmod : self.modified with
  | false =>
    have hsame : (trackedStep fmt (⟨f, self⟩, d) (.save none)).2 = (⟨f, self⟩, d) := by
      simp [trackedStep, FileStore.step, FileLoader.save, Due.after, hmod]
    rw [hsame]
    exact h
  | true =>
    have hsaved : (trackedStep fmt (⟨f, self⟩, d) (.save none)).2 =
        (⟨{ f with tr := some (fmt.toString self.value) },
          { self with ptransaction := some (self.ptransaction.getD ⟨false⟩), modified := false }⟩,
          { d with saved := some (fmt.toString self.value) }) := by
      simp [trackedStep, FileStore.step, FileLoader.save, Due.after, hmod]
    rw [hsaved]
    refine ⟨h.committed, ?_, fun bytes hb => hb⟩
    have hp : self.ptransaction = d.saved.map fun _ => ⟨false⟩ := h.ptransaction
    rw [hp]
    cases d.saved <;> rfl

theorem Stands.fail {s : FileStore T × Due} (h : Stands s) {fault : SaveFault}
    (hs : Spares fmt s (.save (some fault))) :
    Stands (trackedStep fmt s (.save (some fault))).2 := by
  obtain ⟨⟨f, self⟩, d⟩ := s
  cases hmod : self.modified with
  | false =>
    have hsame : (trackedStep fmt (⟨f, self⟩, d) (.save (some fault))).2 = (⟨f, self⟩, d) := by
      simp [trackedStep, FileStore.step, FileLoader.save, Due.after, hmod]
    rw [hsame]
    exact h
  | true =>
    have hfailed : (trackedStep fmt (⟨f, self⟩, d) (.save (some fault))).2 =
        (⟨{ f with tr := self.leaves fmt fault f.tr }, self⟩, d) := by
      simp [trackedStep, FileStore.step, FileLoader.save, Due.after, hmod]
    rw [hfailed]
    refine ⟨h.committed, h.ptransaction, fun bytes hb => ?_⟩
    have hb' : d.saved = some bytes := hb
    have hp : self.ptransaction = d.saved.map fun _ => ⟨false⟩ := h.ptransaction
    have hsame : self.leaves fmt fault f.tr = f.tr := hs hmod (by rw [hp, hb']; simp)
    exact hsame.trans (h.pending bytes hb)

/-- A commit publishes what is due, and nothing is pending then. -/
theorem Stands.commit {s : FileStore T × Due} (h : Stands s) :
    Publishes fmt s .commit ∧ Stands (trackedStep fmt s .commit).2 := by
  obtain ⟨⟨⟨main, tr⟩, self⟩, ⟨committed, saved⟩⟩ := s
  obtain ⟨hmain, hp, htr⟩ := h
  dsimp only at hmain hp htr
  subst hmain
  cases saved with
  | none =>
    rw [Option.map_none] at hp
    refine ⟨?_, ?_⟩
    · simp [Publishes, FileStore.step, FileLoader.commit, hp, Due.content]
    · refine ⟨?_, ?_, fun bytes hb => (nomatch hb)⟩ <;>
        simp [trackedStep, FileStore.step, FileLoader.commit, hp, Due.after, Due.content]
  | some bytes =>
    rw [Option.map_some] at hp
    obtain rfl : tr = some bytes := htr bytes rfl
    have hfiles : (FileTransaction.mk false).commit ⟨main, some bytes⟩ =
        (.done, ⟨some bytes, none⟩) := by
      cases main <;> rfl
    refine ⟨?_, ?_⟩
    · simp [Publishes, FileStore.step, FileLoader.commit, hp, hfiles, Due.content]
    · refine ⟨?_, ?_, fun bytes hb => (nomatch hb)⟩ <;>
        simp [trackedStep, FileStore.step, FileLoader.commit, hp, hfiles, Due.after, Due.content]

theorem Stands.discard {s : FileStore T × Due} (h : Stands s) :
    Stands (trackedStep fmt s .discard).2 := by
  obtain ⟨⟨f, self⟩, d⟩ := s
  have hmain : (self.ptransaction.elim f fun t => t.rollback f).main = f.main := by
    cases self.ptransaction with
    | none => rfl
    | some t =>
      show (t.rollback f).main = f.main
      unfold FileTransaction.rollback
      split <;> rfl
  refine ⟨?_, ?_, fun bytes hb => (nomatch hb)⟩
  · show (self.discard fmt f).2.1.main = d.committed
    unfold FileLoader.discard
    dsimp only
    split <;> exact hmain.trans h.committed
  · show (self.discard fmt f).2.2.ptransaction = none
    unfold FileLoader.discard
    dsimp only
    split <;> rfl

theorem Stands.step {s : FileStore T × Due} (h : Stands s) {op : FileOp T} (hs : Spares fmt s op) :
    Stands (trackedStep fmt s op).2 := by
  match op with
  | .edit change => exact ⟨h.committed, h.ptransaction, h.pending⟩
  | .save none => exact h.save
  | .save (some fault) => exact h.fail hs
  | .commit => exact h.commit.2
  | .discard => exact h.discard

theorem Stands.publishes {s : FileStore T × Due} (h : Stands s) (op : FileOp T) :
    Publishes fmt s op := by
  cases op with
  | commit => exact h.commit.1
  | edit change => trivial
  | save fault => trivial
  | discard => trivial

/-- In a run whose failing saves all spare what is pending, every commit publishes what is due. -/
theorem run_publishes {s : FileStore T × Due} (h : Stands s) {ops : List (FileOp T)}
    (hm : Meets (trackedStep fmt) (Spares fmt) s ops) :
    Meets (trackedStep fmt) (Publishes fmt) s ops :=
  hm.invariant (fun s _ (hs : Stands s) hc => hs.step hc) (fun _ op hs _ => hs.publishes op) h

/-- **A `save` that fails publishes nothing exactly if it spares what is pending**: then, and only
then, all commits behind it publish what is due. -/
theorem failed_save_publishes_iff {s : FileStore T × Due} (h : Stands s) (fault : SaveFault) :
    (∀ later, Meets (trackedStep fmt) (Spares fmt) (trackedStep fmt s (.save (some fault))).2 later →
        Meets (trackedStep fmt) (Publishes fmt) (trackedStep fmt s (.save (some fault))).2 later) ↔
      Spares fmt s (.save (some fault)) := by
  constructor
  · intro hall hmod hp
    obtain ⟨⟨⟨main, tr⟩, self⟩, ⟨committed, saved⟩⟩ := s
    obtain ⟨-, hp', htr⟩ := h
    dsimp only at hmod hp hp' htr ⊢
    cases saved with
    | none => exact absurd hp' hp
    | some bytes =>
      obtain rfl : tr = some bytes := htr bytes rfl
      rw [Option.map_some] at hp'
      obtain ⟨hpub, -⟩ := hall [.commit] ⟨trivial, trivial⟩
      have hcommit : ∀ left : Option Bytes, ((FileTransaction.mk false).commit ⟨main, left⟩).2.main =
          left := by
        intro left
        cases main <;> cases left <;> rfl
      simpa [Publishes, trackedStep, FileStore.step, FileLoader.save, FileLoader.commit, hmod, hp',
        hcommit, Due.after, Due.content] using hpub.2
  · intro hs later hm
    exact run_publishes (h.fail hs) hm

namespace Bytewise

/-- A value of one byte. -/
def format : FileFormat UInt8 where
  toString value := [value]
  fromString bytes :=
    match bytes with
    | [value] => some value
    | _ => none
  fresh := 0

/-- A loader that has been opened where 1 is committed. -/
def opened : FileStore UInt8 × Due :=
  (⟨⟨some [1], none⟩, ⟨"byte", false, none, 1⟩⟩, ⟨some [1], none⟩)

theorem opened_stands : Stands opened := by
  have h : FileLoader.construct format "byte" none opened.1.files = .ok opened.1.self := rfl
  exact stands_opened h

/-- The same loader once 2 has been saved and 3 put in its place. -/
def pending : FileStore UInt8 × Due :=
  final (trackedStep format) opened [.edit fun _ => 2, .save none, .edit fun _ => 3]

theorem pending_stands : Stands pending :=
  invariant_final (C := fun _ op => ∀ s, Spares format s op) (fun _ _ h hs => h.step (hs _))
    opened_stands ⟨fun _ => trivial, fun _ => trivial, fun _ => trivial, trivial⟩

end Bytewise

/-- The second of two saves fails behind the opening of the pending file. -/
theorem failed_save_publishes_byte :
    (∀ later, Meets (trackedStep Bytewise.format) (Spares Bytewise.format)
          (trackedStep Bytewise.format Bytewise.pending (.save (some .toString))).2 later →
        Meets (trackedStep Bytewise.format) (Publishes Bytewise.format)
          (trackedStep Bytewise.format Bytewise.pending (.save (some .toString))).2 later) ↔
      Spares Bytewise.format Bytewise.pending (.save (some .toString)) :=
  failed_save_publishes_iff Bytewise.pending_stands .toString

theorem not_failed_save_publishesNothing : ¬ ∀ (s : FileStore UInt8 × Due) (fault : SaveFault)
    (later : List (FileOp UInt8)), Stands s →
      Meets (trackedStep Bytewise.format) (Publishes Bytewise.format)
        (trackedStep Bytewise.format s (.save (some fault))).2 later := by
  intro hall
  obtain ⟨⟨-, hmain⟩, -⟩ := hall Bytewise.pending .toString [.commit] Bytewise.pending_stands
  cases hmain

end MeshPP.SystemUtility
