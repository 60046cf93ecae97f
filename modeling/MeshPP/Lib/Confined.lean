import Mathlib.Data.Set.Piecewise
import MeshPP.Lib.Frame
import MeshPP.Lib.Machine

/-! # Programs that are confined to a part of a store

A confined program does the same whatever is beside its part of the store, and
leaves that as it is. `Confined` says so of a program in one state, where
`beside e` puts `e` in the place of the rest, and says what the program keeps.
Machines that are confined to parts which do not overlap, side by side over one
store, each do what they do alone (`Shared.alone`). -/

namespace MeshPP.Lib

section
variable {ε σ τ α β γ E : Type}

def mapState (h : σ → σ) : EStateM.Result ε σ α → EStateM.Result ε σ α
  | .ok a s => .ok a (h s)
  | .error e s => .error e (h s)

def leftState : EStateM.Result ε σ α → σ
  | .ok _ s => s
  | .error _ s => s

/-- The program does the same beside anything, and keeps `I`. -/
structure Confined (beside : E → σ → σ) (I : σ → Prop) (m : EStateM ε σ α) (s : σ) : Prop where
  commutes : ∀ e, m (beside e s) = mapState (beside e) (m s)
  keeps : I (leftState (m s))

variable {beside : E → σ → σ} {I : σ → Prop} {m : EStateM ε σ α} {s : σ}

theorem Confined.of_ok {a : α} {t : σ} (h : Confined beside I m s) (hr : m s = .ok a t) : I t := by
  have hkeeps := h.keeps
  rw [hr] at hkeeps
  exact hkeeps

theorem Confined.of_error {x : ε} {t : σ} (h : Confined beside I m s) (hr : m s = .error x t) :
    I t := by
  have hkeeps := h.keeps
  rw [hr] at hkeeps
  exact hkeeps

theorem confined_pure {a : α} (hi : I s) : Confined beside I (pure a : EStateM ε σ α) s :=
  ⟨fun _ => rfl, hi⟩

theorem confined_throw {x : ε} (hi : I s) : Confined beside I (throw x : EStateM ε σ α) s :=
  ⟨fun _ => rfl, hi⟩

theorem confined_modify {u : σ → σ} (hu : ∀ e, u (beside e s) = beside e (u s)) (hi : I (u s)) :
    Confined beside I (modify u : EStateM ε σ PUnit) s :=
  ⟨fun e => congrArg (EStateM.Result.ok PUnit.unit) (hu e), hi⟩

theorem Confined.bind {f : α → EStateM ε σ β} (h : Confined beside I m s)
    (hf : ∀ a t, m s = .ok a t → I t → Confined beside I (f a) t) :
    Confined beside I (m >>= f) s := by
  cases hr : m s with
  | ok a t =>
    obtain ⟨hcommutes, hkeeps⟩ := hf a t hr (h.of_ok hr)
    have hbind : (m >>= f) s = f a t := by
      simp only [Bind.bind, EStateM.bind, hr]
    refine ⟨fun e => ?_, hbind ▸ hkeeps⟩
    rw [hbind, ← hcommutes e]
    simp only [Bind.bind, EStateM.bind, h.commutes e, hr, mapState]
  | error x t =>
    have hbind : (m >>= f) s = .error x t := by
      simp only [Bind.bind, EStateM.bind, hr]
    refine ⟨fun e => ?_, hbind ▸ h.of_error hr⟩
    rw [hbind]
    simp only [Bind.bind, EStateM.bind, h.commutes e, hr, mapState]

theorem confined_get_bind {f : σ → EStateM ε σ β} (hf : ∀ e, f (beside e s) = f s)
    (h : Confined beside I (f s) s) : Confined beside I (get >>= f) s := by
  refine ⟨fun e => ?_, h.keeps⟩
  change f (beside e s) (beside e s) = mapState (beside e) (f s s)
  rw [hf, h.commutes]

theorem confined_foldlM {f : β → γ → EStateM ε σ β} {l : List γ}
    (hf : ∀ x ∈ l, ∀ b t, I t → Confined beside I (f b x) t) (b : β) (hi : I s) :
    Confined beside I (l.foldlM f b) s := by
  induction l generalizing b s with
  | nil => exact confined_pure hi
  | cons x l ih =>
    rw [List.foldlM_cons]
    exact (hf x List.mem_cons_self b s hi).bind fun b' t _ ht =>
      ih (fun y hy => hf y (List.mem_cons_of_mem _ hy)) b' ht

theorem Confined.onFailure {undo : EStateM ε σ PUnit} (h : Confined beside I m s)
    (hu : ∀ x t, m s = .error x t → I t → Confined beside I undo t) :
    Confined beside I (onFailure undo m) s := by
  cases hr : m s with
  | ok a t =>
    have hrun : MeshPP.Lib.onFailure undo m s = .ok a t := by simp only [MeshPP.Lib.onFailure, hr]
    refine ⟨fun e => ?_, hrun ▸ h.of_ok hr⟩
    rw [hrun]
    simp only [MeshPP.Lib.onFailure, h.commutes e, hr, mapState]
  | error x t =>
    have hundo := hu x t hr (h.of_error hr)
    cases hu' : undo t with
    | ok a r =>
      have hrun : MeshPP.Lib.onFailure undo m s = .error x r := by
        simp only [MeshPP.Lib.onFailure, hr, hu']
      refine ⟨fun e => ?_, hrun ▸ hundo.of_ok hu'⟩
      rw [hrun]
      simp only [MeshPP.Lib.onFailure, h.commutes e, hr, mapState, hundo.commutes e, hu']
    | error x' r =>
      have hrun : MeshPP.Lib.onFailure undo m s = .error x' r := by
        simp only [MeshPP.Lib.onFailure, hr, hu']
      refine ⟨fun e => ?_, hrun ▸ hundo.of_error hu'⟩
      rw [hrun]
      simp only [MeshPP.Lib.onFailure, h.commutes e, hr, mapState, hundo.commutes e, hu']

/-- A program on a part of the state, which has the part of the store. -/
theorem Confined.zoom {part : σ → τ} {put : τ → σ → σ} {beside' : E → τ → τ} {J : τ → Prop}
    {m : EStateM ε τ α} (h : Confined beside' J m (part s))
    (hpart : ∀ e, part (beside e s) = beside' e (part s))
    (hput : ∀ e t, put (beside' e t) (beside e s) = beside e (put t s))
    (hi : ∀ t, J t → I (put t s)) : Confined beside I (zoom part put m) s := by
  cases hr : m (part s) with
  | ok a t =>
    have hrun : MeshPP.Lib.zoom part put m s = .ok a (put t s) := by
      simp only [MeshPP.Lib.zoom, hr]
    refine ⟨fun e => ?_, hrun ▸ hi t (h.of_ok hr)⟩
    rw [hrun]
    simp only [MeshPP.Lib.zoom, hpart, h.commutes e, hr, mapState, hput]
  | error x t =>
    have hrun : MeshPP.Lib.zoom part put m s = .error x (put t s) := by
      simp only [MeshPP.Lib.zoom, hr]
    refine ⟨fun e => ?_, hrun ▸ hi t (h.of_error hr)⟩
    rw [hrun]
    simp only [MeshPP.Lib.zoom, hpart, h.commutes e, hr, mapState, hput]

end

/-! ## Side by side -/

universe u

/-- One store, the private part of each machine, and what each was asked and has answered. -/
structure Shared {I : Type} (Key V : Type) (σ : I → Type) (Call : I → Type u) (Out : I → Type) where
  store : Key → V
  part : ∀ i, σ i
  log : ∀ i, List (Call i × Out i)

open Classical in
/-- While `J` holds, which it keeps, a machine is confined to its part of the store. -/
structure ConfinedTo {Key V S O : Type} {C : Type u} (own : Set Key) (J : (Key → V) × S → Prop)
    (step : (Key → V) × S → C → O × (Key → V) × S) : Prop where
  commutes : ∀ s c, J s → ∀ e, step (own.piecewise s.1 e, s.2) c =
    ((step s c).1, own.piecewise (step s c).2.1 e, (step s c).2.2)
  keeps : ∀ s c, J s → J (step s c).2

theorem run_concat {S O : Type} {C : Type u} (step : S → C → O × S) (s : S) (cs : List C) (c : C) :
    run step s (cs ++ [c]) =
      ((run step s cs).1 ++ [(step (run step s cs).2 c).1], (step (run step s cs).2 c).2) := by
  induction cs generalizing s with
  | nil => rfl
  | cons x cs ih =>
    change ((step s x).1 :: (run step (step s x).2 (cs ++ [c])).1,
      (run step (step s x).2 (cs ++ [c])).2) = _
    rw [ih]
    rfl

theorem piecewise_piecewise {Key V : Type} (own : Set Key) [∀ q, Decidable (q ∈ own)]
    (f g h : Key → V) : own.piecewise (own.piecewise f g) h = own.piecewise f h := by
  funext q
  by_cases hq : q ∈ own
  · simp only [Set.piecewise_eq_of_mem _ _ _ hq]
  · simp only [Set.piecewise_eq_of_notMem _ _ _ hq]

/-- What concerns one machine. -/
def ofMachine {I : Type} [DecidableEq I] {X : I → Type u} (i : I) (xs : List (Σ i, X i)) :
    List (X i) :=
  xs.filterMap fun x => if h : x.1 = i then some (h ▸ x.2) else none

theorem ofMachine_self {I : Type} [DecidableEq I] {X : I → Type u} (i : I) (x : X i)
    (xs : List (Σ i, X i)) : ofMachine i (⟨i, x⟩ :: xs) = x :: ofMachine i xs :=
  List.filterMap_cons_some (dif_pos rfl)

theorem ofMachine_other {I : Type} [DecidableEq I] {X : I → Type u} {i j : I} (h : i ≠ j) (x : X j)
    (xs : List (Σ i, X i)) : ofMachine i (⟨j, x⟩ :: xs) = ofMachine i xs :=
  List.filterMap_cons_none (dif_neg h.symm)

namespace Shared

section
variable {I Key V : Type} [DecidableEq I] {σ Out : I → Type} {Call : I → Type u}
  (machine : ∀ i, (Key → V) × σ i → Call i → Out i × (Key → V) × σ i)

/-- One machine takes a step. -/
def step (s : Shared Key V σ Call Out) (c : Σ i, Call i) : (Σ i, Out i) × Shared Key V σ Call Out :=
  let r := machine c.1 (s.store, s.part c.1) c.2
  (⟨c.1, r.1⟩, {
    store := r.2.1
    part := Function.update s.part c.1 r.2.2
    log := Function.update s.log c.1 (s.log c.1 ++ [(c.2, r.1)]) })

def calls (s : Shared Key V σ Call Out) (i : I) : List (Call i) := (s.log i).map Prod.fst

def answers (s : Shared Key V σ Call Out) (i : I) : List (Out i) := (s.log i).map Prod.snd

theorem calls_final (s : Shared Key V σ Call Out) (cs : List (Σ i, Call i)) (i : I) :
    (final (step machine) s cs).calls i = s.calls i ++ ofMachine i cs := by
  induction cs generalizing s with
  | nil => exact (List.append_nil _).symm
  | cons c cs ih =>
    obtain ⟨j, c⟩ := c
    refine (ih (s.step machine ⟨j, c⟩).2).trans ?_
    unfold calls
    by_cases hij : i = j
    · subst hij
      rw [ofMachine_self]
      dsimp only [step]
      rw [Function.update_self, List.map_append, List.append_assoc]
      rfl
    · rw [ofMachine_other hij]
      dsimp only [step]
      rw [Function.update_of_ne hij]

theorem answers_final (s : Shared Key V σ Call Out) (cs : List (Σ i, Call i)) (i : I) :
    (final (step machine) s cs).answers i =
      s.answers i ++ ofMachine i (outputs (step machine) s cs) := by
  induction cs generalizing s with
  | nil => exact (List.append_nil _).symm
  | cons c cs ih =>
    obtain ⟨j, c⟩ := c
    refine (ih (s.step machine ⟨j, c⟩).2).trans ?_
    change _ = _ ++ ofMachine i ((s.step machine ⟨j, c⟩).1 :: outputs (step machine) _ cs)
    unfold answers
    by_cases hij : i = j
    · subst hij
      dsimp only [step]
      rw [ofMachine_self, Function.update_self, List.map_append, List.append_assoc]
      rfl
    · dsimp only [step]
      rw [ofMachine_other hij, Function.update_of_ne hij]

variable (own : I → Set Key) (rest : Key → V)

open Classical in
/-- What one machine has, with `rest` in the place of what it does not reach. -/
noncomputable def view (s : Shared Key V σ Call Out) (i : I) : (Key → V) × σ i :=
  ((own i).piecewise s.store rest, s.part i)

/-- One machine has done what it does alone. -/
structure Alone (J : ∀ i, (Key → V) × σ i → Prop) (s₀ s : Shared Key V σ Call Out) (i : I) :
    Prop where
  run : run (machine i) (s₀.view own rest i) (s.calls i) = (s.answers i, s.view own rest i)
  kept : J i (s.view own rest i)

variable {machine own rest} {J : ∀ i, (Key → V) × σ i → Prop} {s₀ s : Shared Key V σ Call Out}
  {i : I}

/-- The step of a machine is one it can take alone. -/
theorem step_self (hconf : ConfinedTo (own i) (J i) (machine i)) (hj : J i (s.view own rest i))
    (c : Call i) :
    (machine i (s.store, s.part i) c).1 = (machine i (s.view own rest i) c).1 ∧
      (s.step machine ⟨i, c⟩).2.view own rest i = (machine i (s.view own rest i) c).2 := by
  classical
  have hrun := hconf.commutes _ c hj s.store
  have halone := hconf.commutes _ c hj rest
  have hstore : (own i).piecewise (s.view own rest i).1 s.store = s.store :=
    (piecewise_piecewise _ _ _ _).trans (Set.piecewise_same _ _)
  have hrest : (own i).piecewise (s.view own rest i).1 rest = (s.view own rest i).1 :=
    piecewise_piecewise _ _ _ _
  rw [hstore] at hrun
  rw [hrest] at halone
  have hmachine : machine i (s.store, s.part i) c = _ := hrun
  refine ⟨by rw [hmachine], ?_⟩
  have hview : (s.step machine ⟨i, c⟩).2.view own rest i =
      ((own i).piecewise (machine i (s.store, s.part i) c).2.1 rest,
        (machine i (s.store, s.part i) c).2.2) :=
    congrArg (Prod.mk _) (Function.update_self _ _ _)
  rw [hview, hmachine]
  dsimp only
  rw [piecewise_piecewise]
  exact (congrArg Prod.snd halone).symm

/-- The step of another machine does not reach what it has. -/
theorem step_other {j : I} (hne : i ≠ j) (hapart : ∀ key ∈ own i, key ∉ own j)
    (hconf : ConfinedTo (own j) (J j) (machine j)) (hj : J j (s.view own rest j)) (c : Call j) :
    (s.step machine ⟨j, c⟩).2.view own rest i = s.view own rest i := by
  classical
  have hrun := hconf.commutes _ c hj s.store
  have hstore : (own j).piecewise (s.view own rest j).1 s.store = s.store :=
    (piecewise_piecewise _ _ _ _).trans (Set.piecewise_same _ _)
  rw [hstore] at hrun
  have hmachine : machine j (s.store, s.part j) c = _ := hrun
  refine Prod.ext ?_ (Function.update_of_ne hne _ _)
  change (own i).piecewise (machine j (s.store, s.part j) c).2.1 rest =
    (own i).piecewise s.store rest
  rw [hmachine]
  funext q
  by_cases hq : q ∈ own i
  · rw [Set.piecewise_eq_of_mem _ _ _ hq, Set.piecewise_eq_of_mem _ _ _ hq]
    exact Set.piecewise_eq_of_notMem _ _ _ (hapart q hq)
  · rw [Set.piecewise_eq_of_notMem _ _ _ hq, Set.piecewise_eq_of_notMem _ _ _ hq]

theorem Alone.step (hapart : Pairwise fun i j => ∀ key ∈ own i, key ∉ own j)
    (hconf : ∀ i, ConfinedTo (own i) (J i) (machine i))
    (h : ∀ i, Alone machine own rest J s₀ s i) (c : Σ i, Call i) (i : I) :
    Alone machine own rest J s₀ (s.step machine c).2 i := by
  obtain ⟨j, c⟩ := c
  by_cases hij : i = j
  · subst hij
    obtain ⟨hout, hview⟩ := step_self (hconf i) (h i).kept c
    have hlog : (s.step machine ⟨i, c⟩).2.log i =
        s.log i ++ [(c, (machine i (s.store, s.part i) c).1)] := Function.update_self _ _ _
    refine ⟨?_, hview ▸ (hconf i).keeps _ c (h i).kept⟩
    unfold calls answers
    rw [hlog, List.map_append, List.map_append, List.map_singleton, List.map_singleton,
      run_concat, hview]
    have hbefore := (h i).run
    unfold calls answers at hbefore
    rw [hbefore, hout]
  · have hview : (s.step machine ⟨j, c⟩).2.view own rest i = s.view own rest i :=
      step_other hij (hapart hij) (hconf j) (h j).kept c
    have hlog : (s.step machine ⟨j, c⟩).2.log i = s.log i := Function.update_of_ne hij _ _
    refine ⟨?_, hview.symm ▸ (h i).kept⟩
    unfold calls answers
    rw [hlog, hview]
    exact (h i).run

/-- Machines that are confined to parts which do not overlap do what each does alone. -/
theorem alone_final (hapart : Pairwise fun i j => ∀ key ∈ own i, key ∉ own j)
    (hconf : ∀ i, ConfinedTo (own i) (J i) (machine i)) (hlog : ∀ i, s₀.log i = [])
    (hj : ∀ i, J i (s₀.view own rest i)) (cs : List (Σ i, Call i)) (i : I) :
    Alone machine own rest J s₀ (final (step machine) s₀ cs) i := by
  have hstart : ∀ i, Alone machine own rest J s₀ s₀ i := fun i => by
    refine ⟨?_, hj i⟩
    unfold calls answers
    rw [hlog]
    rfl
  have hkept : ∀ s c, (∀ i, Alone machine own rest J s₀ s i) → True →
      ∀ i, Alone machine own rest J s₀ (step machine s c).2 i :=
    fun s c h _ => Alone.step hapart hconf h c
  exact invariant_final hkept hstart (meets_of_forall (fun _ _ => trivial) _ _) i

end

end Shared

end MeshPP.Lib
