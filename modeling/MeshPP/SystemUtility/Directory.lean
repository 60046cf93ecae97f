import MeshPP.SystemUtility.MapConfinement
import MeshPP.SystemUtility.VectorConfinement

/-! # Containers that share a directory

The blocks of a container are named after it: its name, a dot, and the number of
the block, `index` or `size`. So containers with different names have no file in
common, and as none reaches a file of another, each serves its callers as if it
had the directory for itself, whatever the others do and whatever fails in them. -/

namespace MeshPP.SystemUtility
open MeshPP.Lib

/-! ## Names of files -/

theorem append_cons_cancel {α : Type} {c : α} {a b s t : List α} (hs : c ∉ s) (ht : c ∉ t)
    (h : a ++ c :: s = b ++ c :: t) : a = b ∧ s = t := by
  rcases List.append_eq_append_iff.mp h with ⟨r, rfl, hr⟩ | ⟨r, rfl, hr⟩
  · cases r with
    | nil => exact ⟨(List.append_nil a).symm, (List.cons.inj hr).2⟩
    | cons x r =>
      refine absurd ?_ hs
      rw [(List.cons.inj hr).2]
      exact List.mem_append_right _ List.mem_cons_self
  · cases r with
    | nil => exact ⟨List.append_nil b, (List.cons.inj hr).2.symm⟩
    | cons x r =>
      refine absurd ?_ ht
      rw [(List.cons.inj hr).2]
      exact List.mem_append_right _ List.mem_cons_self

/-- What stands behind the last dot in the name of a block. -/
inductive BlockSuffix : String → Prop
  | number (n : Nat) : BlockSuffix (padded n)
  | index : BlockSuffix "index"
  | size : BlockSuffix "size"

theorem BlockSuffix.chars {suffix : String} (h : BlockSuffix suffix) :
    '.' ∉ suffix.toList ∧ suffix.toList ≠ ['m'] ∧ suffix.toList ≠ ['t', 'r'] := by
  cases h with
  | number n =>
    have hdigit := padded_isDigit n
    refine ⟨fun h => ?_, fun h => ?_, fun h => ?_⟩
    · cases hdigit _ h
    · rw [h] at hdigit
      cases hdigit 'm' List.mem_cons_self
    · rw [h] at hdigit
      cases hdigit 't' List.mem_cons_self
  | index => decide
  | size => decide

/-- No file of one block is a file of another. -/
theorem blockFile_injective {name name' suffix suffix' : String} (hs : BlockSuffix suffix)
    (hs' : BlockSuffix suffix') {x y : BlockPart}
    (h : name ++ "." ++ suffix ++ x.extension = name' ++ "." ++ suffix' ++ y.extension) :
    name = name' ∧ suffix = suffix' ∧ x = y := by
  obtain ⟨hdot, hm, htr⟩ := hs.chars
  obtain ⟨hdot', hm', htr'⟩ := hs'.chars
  have hpath : ∀ (n s : String) (p : BlockPart), (n ++ "." ++ s ++ p.extension).toList =
      (n.toList ++ '.' :: s.toList) ++ p.extension.toList := fun n s p => by simp
  have hlist := congrArg String.toList h
  rw [hpath, hpath] at hlist
  have hmtr : ∀ l : List Char, l ++ ".m.tr".toList = (l ++ ".m".toList) ++ ['.', 't', 'r'] := fun l =>
    (List.append_assoc l ['.', 'm'] ['.', 't', 'r']).symm
  have hempty : "".toList = [] := rfl
  have hmarker : ".m".toList = ['.', 'm'] := rfl
  have htrans : ".tr".toList = ['.', 't', 'r'] := rfl
  -- the last components agree, then what is in front of them
  have hcancel := @append_cons_cancel Char '.'
  have hall : name.toList = name'.toList ∧ suffix.toList = suffix'.toList ∧ x = y := by
    cases x <;> cases y <;>
      simp only [BlockPart.extension, hmtr, hempty, hmarker, htrans, List.append_nil] at hlist <;>
      grind
  exact ⟨String.toList_inj.mp hall.1, String.toList_inj.mp hall.2.1, hall.2.2⟩

/-- The blocks of the containers with a name. -/
def filesOf (name : String) : Set String :=
  {path | ∃ suffix, BlockSuffix suffix ∧ path = name ++ "." ++ suffix}

theorem filesOf_apart {name name' : String} (h : name ≠ name') :
    ∀ path ∈ filesOf name, path ∉ filesOf name' := by
  rintro path ⟨suffix, hs, rfl⟩ ⟨suffix', hs', he⟩
  exact h (blockFile_injective (x := .main) (y := .main) hs hs' (congrArg (· ++ "") he)).1

theorem MapConfig.within_filesOf {T : Type} (cfg : MapConfig T) : cfg.Within (filesOf cfg.name) where
  index := ⟨"index", .index, (congrArg (cfg.name ++ ·) (by decide)).trans String.append_assoc.symm⟩
  file _ := ⟨_, .number _, rfl⟩

theorem VectorConfig.within_filesOf {T : Type} (cfg : VectorConfig T) :
    cfg.Within (filesOf cfg.name) where
  size := ⟨"size", .size, (congrArg (cfg.name ++ ·) (by decide)).trans String.append_assoc.symm⟩
  file _ := ⟨_, .number _, rfl⟩

/-! ## Containers of either kind -/

inductive Container : Type 1
  | map (T : Type) (cfg : MapConfig T)
  | vector (T : Type) (cfg : VectorConfig T)

namespace Container

def name : Container → String
  | map _ cfg => cfg.name
  | vector _ cfg => cfg.name

/-- The object in memory. -/
def Loader : Container → Type
  | map T _ => MapLoader T
  | vector T _ => VectorLoader T

def Op : Container → Type
  | map T _ => MapOp T
  | vector T _ => VectorOp T

def Out : Container → Type
  | map T _ => MapOut T
  | vector T _ => VectorOut T

def machine : ∀ c : Container, Disk × c.Loader → Call c.Op → c.Out × Disk × c.Loader
  | map _ cfg => MapStore.machine cfg
  | vector _ cfg => VectorStore.machine cfg

def opened (ord : IterOrder) (d : Disk) : ∀ c : Container, Option c.Loader
  | map _ cfg => (MapStore.opened cfg ord d).map MapStore.self
  | vector _ cfg => (VectorStore.opened cfg ord d).map VectorStore.self

/-- What the container stands for. -/
def Value : Container → Type
  | map T _ => Map T
  | vector T _ => List T

def empty : ∀ c : Container, c.Value
  | map T _ => (∅ : Map T)
  | vector T _ => ([] : List T)

def act : ∀ c : Container, c.Value → c.Value → c.Op → c.Out × c.Value
  | map _ cfg => MapSpec.act cfg.name
  | vector _ cfg => VectorSpec.act cfg.name

def done : ∀ c : Container, c.Out
  | map _ _ => MapOut.done
  | vector _ _ => VectorOut.done

def Thrown : ∀ c : Container, c.Out → Prop
  | map _ _ => MapOut.Thrown
  | vector _ _ => VectorOut.Thrown

def Inv : ∀ c : Container, Txn c.Value → Disk × c.Loader → Prop
  | map _ cfg => fun a s => StoreInv cfg a ⟨s.1, s.2⟩
  | vector _ cfg => fun a s => VectorStoreInv cfg a ⟨s.1, s.2⟩

def Sane (c : Container) : Disk × c.Loader → Prop :=
  match c with
  | map _ cfg => MapStore.Sane cfg (filesOf cfg.name)
  | vector _ cfg => VectorStore.Sane cfg (filesOf cfg.name)

theorem implements (c : Container) :
    Implements c.act c.done c.Thrown (fun call : Call c.Op => call.op) Call.Faulty c.machine c.Inv := by
  cases c with
  | map T cfg => exact fun a s call h => map_implements a ⟨s.1, s.2⟩ call h
  | vector T cfg => exact fun a s call h => vector_implements a ⟨s.1, s.2⟩ call h

theorem confined (c : Container) : ConfinedTo (filesOf c.name) c.Sane c.machine := by
  cases c with
  | map T cfg => exact MapStore.confined cfg.within_filesOf
  | vector T cfg => exact VectorStore.confined cfg.within_filesOf

theorem opened_empty (c : Container) (ord : IterOrder) :
    ∃ loader, c.opened ord Disk.empty = some loader ∧ c.Sane (Disk.empty, loader) ∧
      c.Inv (Txn.start c.empty) (Disk.empty, loader) := by
  cases c with
  | map T cfg =>
    obtain ⟨⟨d, self⟩, hs, rfl, hinv, hclosed⟩ := opened_inv ord (holding_empty cfg)
    have howned : self.transaction.Owned (filesOf cfg.name) := by
      rw [Core.transaction, show self.ptransaction = none from hclosed]
      exact ClassTransaction.owned_empty
    exact ⟨self, congrArg (Option.map MapStore.self) hs, ⟨⟨_, hinv⟩, howned⟩, hinv⟩
  | vector T cfg =>
    obtain ⟨⟨d, self⟩, hs, rfl, hinv, hclosed⟩ := vectorOpened_inv ord (vectorHolding_empty cfg)
    have howned : self.transaction.Owned (filesOf cfg.name) := by
      rw [Core.transaction, show self.ptransaction = none from hclosed]
      exact ClassTransaction.owned_empty
    exact ⟨self, congrArg (Option.map VectorStore.self) hs, ⟨⟨_, hinv⟩, howned⟩, hinv⟩

/-- The answers are those of the transactional value: of one that also fails where a call
on a file does, and without such calls of the value itself. -/
structure Serves (c : Container) (calls : List (Call c.Op)) (answers : List c.Out) : Prop where
  history : ∃ b, History c.act c.done c.Thrown (Txn.start c.empty)
    ((calls.map Call.op).zip answers) b
  exact : (∀ call ∈ calls, ¬ call.Faulty) →
    answers = outputs (fun t call => Txn.step c.act c.done t call.op) (Txn.start c.empty) calls

end Container

/-! ## One directory -/

section
variable {I : Type} [DecidableEq I] (containers : I → Container)

/-- A directory, the containers that are open on it, and what they have been asked. -/
abbrev Directory := Shared String Files (fun i => (containers i).Loader)
  (fun i => Call (containers i).Op) (fun i => (containers i).Out)

/-- One operation of one of the containers. -/
abbrev Directory.step : Directory containers → (Σ i, Call (containers i).Op) →
    (Σ i, (containers i).Out) × Directory containers :=
  Shared.step fun i => (containers i).machine

/-- Whatever the order in which the containers are called, and whatever fails in a call
of another, each serves its own callers. -/
def Directory.Isolated (ord : I → IterOrder) : Prop :=
  ∃ loaders : ∀ i, (containers i).Loader,
    (∀ i, (containers i).opened (ord i) Disk.empty = some (loaders i)) ∧
    ∀ calls i, (containers i).Serves (ofMachine i calls)
      (ofMachine i (outputs (Directory.step containers) ⟨Disk.empty, loaders, fun _ => []⟩ calls))

variable {containers}

theorem directory_isolated (hnames : Function.Injective fun i => (containers i).name)
    (ord : I → IterOrder) : Directory.Isolated containers ord := by
  classical
  choose loaders hopened hsane hinv using fun i => (containers i).opened_empty (ord i)
  refine ⟨loaders, hopened, fun calls i => ?_⟩
  let start : Directory containers := ⟨Disk.empty, loaders, fun _ => []⟩
  have hview : ∀ i, start.view (fun i => filesOf (containers i).name) Disk.empty i =
      (Disk.empty, loaders i) := fun i =>
    congrArg (Prod.mk · (loaders i)) (Set.piecewise_same _ _)
  have halone : Shared.Alone (fun i => (containers i).machine)
      (fun i => filesOf (containers i).name) Disk.empty (fun i => (containers i).Sane) start
      (final (Directory.step containers) start calls) i :=
    Shared.alone_final (fun i j hij => filesOf_apart fun he => hij (hnames he))
      (fun i => (containers i).confined) (fun _ => rfl) (fun i => (hview i).symm ▸ hsane i) calls i
  have hrun := congrArg Prod.fst halone.run
  rw [hview, Shared.calls_final, Shared.answers_final] at hrun
  change outputs (containers i).machine (Disk.empty, loaders i) (ofMachine i calls) =
    ofMachine i (outputs (Directory.step containers) start calls) at hrun
  change (containers i).Serves _ (ofMachine i (outputs (Directory.step containers) start calls))
  rw [← hrun]
  constructor
  · obtain ⟨b, hb, -⟩ := (containers i).implements.history (hinv i) (ofMachine i calls)
    exact ⟨b, hb⟩
  · exact fun hq => ((containers i).implements.refines (hinv i) hq).1

end

/-- The balances and the heights. -/
def ledger : Bool → Container
  | false => .map Nat balances
  | true => .vector Nat heights

theorem directory_isolated_ledger : Directory.Isolated ledger fun _ => .stored :=
  directory_isolated (by decide) _

end MeshPP.SystemUtility
