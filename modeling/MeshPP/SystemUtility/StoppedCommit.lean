import MeshPP.SystemUtility.BlockMap
import MeshPP.SystemUtility.Published

/-! # A commit that stops halfway

Both commits remove the committed file before they rename the pending one. A
process that stops in between leaves a block, or a value, that reads as one that
was never written. -/

namespace MeshPP.SystemUtility
open MeshPP.Lib

/-! ## `file_loader` -/

/-- The files where the process has stopped behind the first `n` calls of the commit. -/
def LoaderFiles.stopped (n : Nat) (f : LoaderFiles) : LoaderFiles :=
  (FileTransaction.commitCalls.take n).foldl (fun g call => call g) f

/-- Wherever the process stops, the old or the new value is opened. -/
def LoaderFiles.CrashAtomic {V : Type} (fmt : FileFormat V) (f : LoaderFiles) : Prop :=
  ∀ n, loadFile fmt (f.stopped n).main = loadFile fmt f.main ∨
    loadFile fmt (f.stopped n).main = loadFile fmt f.tr

theorem LoaderFiles.stopped_all {f : LoaderFiles} (htr : f.tr.isSome) (n : Nat) :
    f.stopped (n + 2) = ⟨f.tr, none⟩ := by
  have htake : FileTransaction.commitCalls.take (n + 2) = FileTransaction.commitCalls :=
    List.take_of_length_le (Nat.le_add_left _ _)
  obtain ⟨main, tr⟩ := f
  unfold LoaderFiles.stopped
  rw [htake]
  cases tr with
  | none => cases htr
  | some bytes => cases main <;> rfl

theorem LoaderFiles.stopped_one (f : LoaderFiles) : (f.stopped 1).main = none := by
  obtain ⟨main, tr⟩ := f
  cases main <;> rfl

theorem LoaderFiles.crashAtomic_iff {V : Type} (fmt : FileFormat V) {f : LoaderFiles}
    (htr : f.tr.isSome) : f.CrashAtomic fmt ↔
      loadFile fmt f.main = .ok fmt.fresh ∨ loadFile fmt f.tr = .ok fmt.fresh := by
  have hfresh : loadFile fmt (f.stopped 1).main = .ok fmt.fresh := by
    rw [f.stopped_one]
    rfl
  constructor
  · intro h
    have hone := h 1
    rw [hfresh] at hone
    exact hone.imp Eq.symm Eq.symm
  · intro h n
    match n with
    | 0 => exact .inl rfl
    | 1 =>
      rw [hfresh]
      exact h.imp Eq.symm Eq.symm
    | n + 2 =>
      rw [stopped_all htr]
      exact .inr rfl

/-! ## `block_file_loader` -/

/-- Pending files as `save` and `erase` leave them. -/
structure Files.Pending {K T : Type} (fmt : BlockFormat K T) (f : Files) : Prop where
  wellFormed : (f.after commitCalls).WellFormed fmt
  tidy : f.Tidy

def Files.stopped (n : Nat) (f : Files) : Files := f.after (commitCalls.take n)

variable {K T : Type} [DecidableEq K]

theorem Prepared.pending {fmt : BlockFormat K T} {packetOf : K → Option T} {i : Op} {keys : List K}
    {f f' : Files} {items items' : List (BlockItem K T)}
    (hh : f.Holds fmt.anyRow false items) (h : Prepared fmt packetOf i keys f items f' items') :
    f'.Pending fmt := ⟨(h.updated hh).wellFormed, h.tidy⟩

/-- The block opens with the keys, and shows what one of the two has. -/
def Files.OpensAs (fmt : BlockFormat K T) (g old new : Files) (keys : List K) : Prop :=
  ∃ self, BlockFileLoader.construct fmt "" keys none false ⟨fun _ => g, []⟩ =
      .ok self ⟨fun _ => g, []⟩ ∧ (Reopened fmt old keys self ∨ Reopened fmt new keys self)

/-- Wherever the process stops, the old or the new map is opened. -/
def Files.CrashAtomic (fmt : BlockFormat K T) (f : Files) : Prop :=
  ∀ n keys, (f.stopped n).OpensAs fmt f (f.after commitCalls) keys

variable {fmt : BlockFormat K T}

/-- A loader that finds nothing shows what a block without items has. -/
theorem reopened_none {f : Files} (hf : ∀ k, f.itemOf fmt k = none) {keys : List K}
    {self : BlockFileLoader K T} (hs : ∀ k, k ∉ self.loaded) : Reopened fmt f keys self where
  item k it _ hit := by
    rw [hf] at hit
    cases hit
  loaded k := by
    rw [hf]
    exact ⟨fun hk => absurd hk (hs k), fun hk => (nomatch hk.2)⟩

omit [DecidableEq K] in
theorem wellFormed_nil {f : Files} (hstray : ∀ m ∈ f.m, m.stray = 0) (hnil : entriesOf f.m = []) :
    f.WellFormed fmt where
  stray := hstray
  spaced := by
    rw [hnil]
    trivial
  inside := by
    rw [hnil]
    exact Nat.zero_le _
  keyed m hm := by
    rw [hnil] at hm
    cases hm
  once := by
    have hrows : f.rows false = [] := by
      show (entriesOf f.m).map _ = []
      rw [hnil]
      rfl
    rw [hrows]
    exact List.nodup_nil

theorem itemOf_nil {f : Files} (hnil : entriesOf f.m = []) (k : K) : f.itemOf fmt k = none := by
  have hrows : f.rows false = [] := by
    show (entriesOf f.m).map _ = []
    rw [hnil]
    rfl
  unfold Files.itemOf Files.rowOf
  rw [hrows]
  rfl

/-- Markers without contents: nothing is read. -/
theorem blank_opens {f g : Files} (h : f.WellFormed fmt) (hm : g.m = f.m) (hmain : g.main = none)
    (keys : List K) :
    ∃ self, BlockFileLoader.construct fmt "" keys none false ⟨fun _ => g, []⟩ =
        .ok self ⟨fun _ => g, []⟩ ∧ ∀ k, k ∉ self.loaded := by
  obtain ⟨items, hh⟩ := h.holds
  have hspec : Ends readFrame (BlockFileLoader.construct fmt "" keys none false)
      ⟨fun _ => g, []⟩ fun self _ => ∀ k, k ∉ self.loaded := by
    unfold BlockFileLoader.construct
    refine Ends.get_bind ?_
    dsimp only [Option.isNone_none, if_true]
    rw [hm, hmain]
    refine (loadMarkers_spec hh).bind fun ms w1 _ h1 => ?_
    refine ends_pure fun k hk => ?_
    have hvalues := (LoadedSoFar.start keys (T := T)).loadedValues
    exact (nomatch (hvalues.mem_loaded k).mp hk)
  obtain ⟨self, hrun, hs⟩ := returns_quiet hspec
  exact ⟨self, hrun, hs⟩

theorem exists_item {f : Files} (h : f.WellFormed fmt) (hne : entriesOf f.m ≠ []) :
    ∃ k, (f.itemOf fmt k).isSome := by
  obtain ⟨items, hh⟩ := h.holds
  have hlen : items.length ≠ 0 := fun h0 =>
    hne (List.length_eq_zero_iff.mp (hh.stores.rows.length_eq.trans h0))
  obtain ⟨it, hit⟩ := List.exists_mem_of_length_pos (Nat.pos_of_ne_zero hlen)
  refine ⟨it.key, ?_⟩
  rw [hh.itemOf hit]
  rfl

/-! ## The files behind a prefix of the calls -/

theorem Files.stopped_all (f : Files) (n : Nat) : f.stopped (n + 4) = f.after commitCalls := by
  have htake : commitCalls.take (n + 4) = commitCalls :=
    List.take_of_length_le (Nat.le_add_left _ _)
  unfold Files.stopped
  rw [htake]

theorem Files.stopped_one (f : Files) : (f.stopped 1).main = none ∧ (f.stopped 1).m = f.m := by
  obtain ⟨main, m, tr, mTr⟩ := f
  cases main <;> exact ⟨rfl, rfl⟩

theorem Files.stopped_two {f : Files} (htr : f.tr = none) : f.stopped 2 = f.stopped 1 := by
  obtain ⟨main, m, tr, mTr⟩ := f
  obtain rfl : tr = none := htr
  cases main <;> rfl

theorem Files.stopped_two_m (f : Files) : (f.stopped 2).m = f.m := by
  obtain ⟨main, m, tr, mTr⟩ := f
  cases main <;> cases tr <;> rfl

theorem Files.stopped_three (f : Files) : (f.stopped 3).m = none := by
  obtain ⟨main, m, tr, mTr⟩ := f
  cases main <;> cases tr <;> cases m <;> rfl

/-! ## Where a block commits atomically -/

theorem opensAs_old {g old new : Files} (h : g.WellFormed fmt)
    (hsame : ∀ k, g.itemOf fmt k = old.itemOf fmt k) (keys : List K) :
    g.OpensAs fmt old new keys := by
  have hopens : ∀ d : Disk, (d "").WellFormed fmt → _ := fun d hd => hd.opens keys
  obtain ⟨self, hrun, hr⟩ := hopens (fun _ => g) h
  exact ⟨self, hrun, .inl ⟨fun k it hk hit => hr.item k it hk ((hsame k).trans hit),
    fun k => (hr.loaded k).trans (by rw [hsame k])⟩⟩

theorem opensAs_new {g old new : Files} (h : g.WellFormed fmt)
    (hsame : ∀ k, g.itemOf fmt k = new.itemOf fmt k) (keys : List K) :
    g.OpensAs fmt old new keys := by
  have hswap : g.OpensAs fmt new old keys := opensAs_old h hsame keys
  obtain ⟨self, hrun, hr⟩ := hswap
  exact ⟨self, hrun, hr.symm⟩

theorem Files.CrashAtomic.of_old {f : Files} (hf : f.WellFormed fmt) (hp : f.Pending fmt)
    (hnil : entriesOf f.m = []) : f.CrashAtomic fmt := by
  have hold : ∀ {g : Files}, g.m = f.m ∨ g.m = none → ∀ keys,
      g.OpensAs fmt f (f.after commitCalls) keys := by
    intro g hm keys
    have hentries : entriesOf g.m = [] := by
      rcases hm with hm | hm <;> rw [hm]
      · exact hnil
      · rfl
    have hstray : ∀ m ∈ g.m, m.stray = 0 := by
      rcases hm with hm | hm <;> rw [hm]
      · exact hf.stray
      · exact fun m hno => (nomatch hno)
    exact opensAs_old (wellFormed_nil hstray hentries)
      (fun k => (itemOf_nil hentries k).trans (itemOf_nil hnil k).symm) keys
  intro n keys
  match n with
  | 0 => exact hold (.inl rfl) keys
  | 1 => exact hold (.inl f.stopped_one.2) keys
  | 2 => exact hold (.inl f.stopped_two_m) keys
  | 3 => exact hold (.inr f.stopped_three) keys
  | n + 4 =>
    rw [f.stopped_all]
    exact opensAs_new hp.wellFormed (fun _ => rfl) keys

theorem Files.CrashAtomic.of_new {f : Files} (hf : f.WellFormed fmt) (hp : f.Pending fmt)
    (hnil : entriesOf f.mTr = []) : f.CrashAtomic fmt := by
  have hnew : ∀ k, (f.after commitCalls).itemOf fmt k = none := fun k =>
    itemOf_nil (by rw [after_commitCalls]; exact hnil) k
  have hblank : ∀ keys, (f.stopped 1).OpensAs fmt f (f.after commitCalls) keys := by
    intro keys
    obtain ⟨self, hrun, hs⟩ := blank_opens hf f.stopped_one.2 f.stopped_one.1 keys
    exact ⟨self, hrun, .inr (reopened_none hnew hs)⟩
  intro n keys
  match n with
  | 0 => exact opensAs_old hf (fun _ => rfl) keys
  | 1 => exact hblank keys
  | 2 =>
    rw [stopped_two (hp.tidy hnil)]
    exact hblank keys
  | 3 =>
    have hentries : entriesOf (f.stopped 3).m = [] := by
      rw [f.stopped_three]
      rfl
    refine opensAs_new (wellFormed_nil ?_ hentries)
      (fun k => (itemOf_nil hentries k).trans (hnew k).symm) keys
    rw [f.stopped_three]
    exact fun m hno => (nomatch hno)
  | n + 4 =>
    rw [f.stopped_all]
    exact opensAs_new hp.wellFormed (fun _ => rfl) keys

/-- Behind the first call nothing is read, whatever is in the marker file. -/
theorem Files.CrashAtomic.nil {f : Files} (hf : f.WellFormed fmt) (hp : f.Pending fmt)
    (h : f.CrashAtomic fmt) : entriesOf f.m = [] ∨ entriesOf f.mTr = [] := by
  obtain ⟨self, hrun, hs⟩ := blank_opens hf f.stopped_one.2 f.stopped_one.1 []
  obtain ⟨self', hrun', hr⟩ := h 1 []
  rw [hrun] at hrun'
  cases hrun'
  have hempty : ∀ {g : Files}, g.WellFormed fmt → Reopened fmt g [] self → entriesOf g.m = [] := by
    intro g hg hr
    by_contra hne
    obtain ⟨k, hk⟩ := exists_item hg hne
    exact hs k ((hr.loaded k).mpr ⟨.inl rfl, hk⟩)
  refine hr.imp (hempty hf) fun hr => ?_
  have hnil := hempty hp.wellFormed hr
  rw [after_commitCalls] at hnil
  exact hnil

/-- **A commit is crash-atomic exactly where the old or the new value is one that was never
written**: for a file the value that `new T` makes, for a block the empty map. -/
theorem commit_crashAtomic_iff {V : Type} (fileFmt : FileFormat V) {file : LoaderFiles}
    (htr : file.tr.isSome) {block : Files} (hf : block.WellFormed fmt) (hp : block.Pending fmt) :
    (file.CrashAtomic fileFmt ↔ loadFile fileFmt file.main = .ok fileFmt.fresh ∨
      loadFile fileFmt file.tr = .ok fileFmt.fresh) ∧
    (block.CrashAtomic fmt ↔ entriesOf block.m = [] ∨ entriesOf block.mTr = []) :=
  ⟨LoaderFiles.crashAtomic_iff fileFmt htr, Files.CrashAtomic.nil hf hp,
    fun h => h.elim (.of_old hf hp) (.of_new hf hp)⟩

namespace Pairs

/-- The block of `disk` with an item under 5 that is to be committed. -/
def appended : Files where
  main := some [1, 10, 3, 30]
  m := (disk "pairs").m
  tr := some [1, 10, 3, 30, 5, 50]
  mTr := (disk "pairs").m.map fun m => { m with entries := m.entries ++ [⟨4, 6, 1⟩] }

theorem appended_wellFormed : appended.WellFormed format :=
  ⟨disk_wellFormed.stray, disk_wellFormed.spaced, disk_wellFormed.inside, disk_wellFormed.keyed,
    disk_wellFormed.once⟩

theorem appended_pending : appended.Pending format where
  wellFormed := by
    rw [after_commitCalls]
    refine ⟨fun m hm => ?_, ?_, by decide, fun m hm => ?_, by decide⟩
    · obtain rfl := Option.some.inj hm
      rfl
    · exact ⟨by decide, by decide, by decide, by decide, by decide, by decide, trivial⟩
    · rcases List.mem_cons.mp hm with rfl | hm
      · exact ⟨⟨1, some 10⟩, rfl, rfl⟩
      · rcases List.mem_cons.mp hm with rfl | hm
        · exact ⟨⟨3, some 30⟩, rfl, rfl⟩
        · obtain rfl := List.mem_singleton.mp hm
          exact ⟨⟨5, some 50⟩, rfl, rfl⟩
  tidy hnil := by cases hnil

end Pairs

/-- The value 2 is to be committed in the place of 1. -/
def Bytewise.replaced : LoaderFiles := ⟨some [1], some [2]⟩

theorem commit_crashAtomic_pairs :
    (Bytewise.replaced.CrashAtomic Bytewise.format ↔
      loadFile Bytewise.format Bytewise.replaced.main = .ok Bytewise.format.fresh ∨
        loadFile Bytewise.format Bytewise.replaced.tr = .ok Bytewise.format.fresh) ∧
    (Pairs.appended.CrashAtomic Pairs.format ↔
      entriesOf Pairs.appended.m = [] ∨ entriesOf Pairs.appended.mTr = []) :=
  commit_crashAtomic_iff Bytewise.format rfl Pairs.appended_wellFormed Pairs.appended_pending

theorem not_commit_crashAtomic : ¬ Bytewise.replaced.CrashAtomic Bytewise.format ∧
    ¬ Pairs.appended.CrashAtomic Pairs.format := by
  refine ⟨fun h => ?_, fun h => ?_⟩
  · rcases h 1 with hold | hnew
    · cases hold
    · cases hnew
  · rcases h.nil Pairs.appended_wellFormed Pairs.appended_pending with hold | hnew
    · cases hold
    · cases hnew

end MeshPP.SystemUtility
