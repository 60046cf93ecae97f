import Mathlib.Data.List.Basic

/-! # Stateful programs that may fail, under a frame

A frame fixes what every step of a program keeps (`le`, a preorder on states)
and which start states excuse a failure (`excused`). `Ends F m s Q` reads: from
`s` the program either returns a result that satisfies `Q`, or fails, which
then had to be excused; on both paths everything the frame keeps is kept. A
frame whose `excused` is false everywhere therefore gives total correctness,
and one with a weaker excuse gives what a failed run leaves behind. -/

namespace MeshPP.Lib

variable {ε σ α β γ : Type}

theorem ok_bind {x : Except ε α} {a : α} (h : x = .ok a) (f : α → Except ε β) :
    (x >>= f) = f a := by
  rw [h]
  rfl

theorem ok_of_bind {x : Except ε α} {f : α → Except ε β} {b : β} (h : (x >>= f) = .ok b) :
    ∃ a, x = .ok a ∧ f a = .ok b := by
  cases x with
  | error e => cases h
  | ok a => exact ⟨a, rfl, h⟩

structure Frame (σ : Type) where
  le : σ → σ → Prop
  refl : ∀ s, le s s
  trans : ∀ {s t r}, le s t → le t r → le s r
  excused : σ → Prop
  excused_of_le : ∀ {s t}, le s t → excused t → excused s

def Ends (F : Frame σ) (m : EStateM ε σ α) (s : σ) (Q : α → σ → Prop) : Prop :=
  match m s with
  | .ok a t => F.le s t ∧ Q a t
  | .error _ t => F.le s t ∧ F.excused s

variable {F : Frame σ} {m : EStateM ε σ α} {s : σ} {Q R : α → σ → Prop}

theorem ends_ok {a : α} {t : σ} (h : m s = .ok a t) (hle : F.le s t) (hq : Q a t) :
    Ends F m s Q := by
  unfold Ends; rw [h]; exact ⟨hle, hq⟩

theorem ends_error {e : ε} {t : σ} (h : m s = .error e t) (hle : F.le s t)
    (hx : F.excused s) : Ends F m s Q := by
  unfold Ends; rw [h]; exact ⟨hle, hx⟩

theorem Ends.of_ok {a : α} {t : σ} (h : Ends F m s Q) (hr : m s = .ok a t) :
    F.le s t ∧ Q a t := by
  unfold Ends at h; rw [hr] at h; exact h

theorem Ends.of_error {e : ε} {t : σ} (h : Ends F m s Q) (hr : m s = .error e t) :
    F.le s t ∧ F.excused s := by
  unfold Ends at h; rw [hr] at h; exact h

theorem ends_pure {a : α} (h : Q a s) : Ends F (pure a : EStateM ε σ α) s Q :=
  ends_ok rfl (F.refl s) h

theorem Ends.mono (h : Ends F m s Q) (hq : ∀ a t, F.le s t → Q a t → R a t) :
    Ends F m s R := by
  unfold Ends at h ⊢
  split at h
  · exact ⟨h.1, hq _ _ h.1 h.2⟩
  · exact h

/-- Sequencing: the second program starts from a state the frame relates to the
first one's start, so its failures are excused by the first start too. -/
theorem Ends.bind {f : α → EStateM ε σ β} {Q' : β → σ → Prop} (h : Ends F m s Q)
    (hf : ∀ a t, F.le s t → Q a t → Ends F (f a) t Q') : Ends F (m >>= f) s Q' := by
  have hb : (m >>= f) s = match m s with
      | .ok a t => f a t
      | .error e t => .error e t := rfl
  unfold Ends at h
  cases hm : m s with
  | error e t =>
    rw [hm] at h hb
    exact ends_error hb h.1 h.2
  | ok a t =>
    rw [hm] at h hb
    have hr := hf a t h.1 h.2
    cases hfa : f a t with
    | ok b r =>
      obtain ⟨hle, hq⟩ := hr.of_ok hfa
      exact ends_ok (hb.trans hfa) (F.trans h.1 hle) hq
    | error e r =>
      obtain ⟨hle, hx⟩ := hr.of_error hfa
      exact ends_error (hb.trans hfa) (F.trans h.1 hle) (F.excused_of_le h.1 hx)

theorem ends_get {Q : σ → σ → Prop} (h : Q s s) : Ends F (get : EStateM ε σ σ) s Q :=
  ends_ok rfl (F.refl s) h

theorem Ends.get_bind {f : σ → EStateM ε σ α} (h : Ends F (f s) s Q) :
    Ends F ((get : EStateM ε σ σ) >>= f) s Q := h

theorem ends_modify {f : σ → σ} {Q : PUnit → σ → Prop} (hle : F.le s (f s))
    (h : Q ⟨⟩ (f s)) : Ends F (modify f : EStateM ε σ PUnit) s Q :=
  ends_ok rfl hle h

theorem get_run (s : σ) : (get : EStateM ε σ σ) s = .ok s s := rfl

theorem get_bind_run (f : σ → EStateM ε σ α) : ((get : EStateM ε σ σ) >>= f) s = f s s := rfl

theorem modify_bind_run (g : σ → σ) (f : PUnit → EStateM ε σ α) :
    ((modify g : EStateM ε σ PUnit) >>= f) s = f ⟨⟩ (g s) := rfl

theorem bind_run_ok {a : α} {t : σ} {f : α → EStateM ε σ β} (h : m s = .ok a t) :
    (m >>= f) s = f a t := by
  show (match m s with
    | .ok a t => f a t
    | .error e t => .error e t) = f a t
  rw [h]

theorem bind_run_error {e : ε} {t : σ} {f : α → EStateM ε σ β} (h : m s = .error e t) :
    (m >>= f) s = .error e t := by
  show (match m s with
    | .ok a t => f a t
    | .error e t => .error e t) = .error e t
  rw [h]

/-- A loop over a list keeps an invariant that speaks about the part done and
the part left. -/
theorem ends_foldlM {f : β → γ → EStateM ε σ β} (I : List γ → β → σ → Prop)
    (hstep : ∀ x rest b t, F.le s t → I (x :: rest) b t → Ends F (f b x) t (I rest)) :
    ∀ (l : List γ) (b : β) (t : σ), F.le s t → I l b t → Ends F (l.foldlM f b) t (I [])
  | [], b, t, _, h => by
    rw [List.foldlM_nil]
    exact ends_pure h
  | x :: rest, b, t, hle, h => by
    rw [List.foldlM_cons]
    refine (hstep x rest b t hle h).bind fun b' t' hle' h' => ?_
    exact ends_foldlM I hstep rest b' t' (F.trans hle hle') h'

/-- Every step of the loop meets `C`. -/
def FoldMeets (C : β → γ → σ → Prop) (f : β → γ → EStateM ε σ β) : List γ → β → σ → Prop
  | [], _, _ => True
  | x :: rest, b, s => C b x s ∧ ∀ b' s', f b x s = .ok b' s' → FoldMeets C f rest b' s'

theorem FoldMeets.mono {C D : β → γ → σ → Prop} {f : β → γ → EStateM ε σ β}
    (hcd : ∀ b x s, C b x s → D b x s) :
    ∀ {l : List γ} {b : β} {s : σ}, FoldMeets C f l b s → FoldMeets D f l b s
  | [], _, _, _ => trivial
  | _ :: _, _, _, h => ⟨hcd _ _ _ h.1, fun b' s' hrun => (h.2 b' s' hrun).mono hcd⟩

theorem foldMeets_of_forall {C : β → γ → σ → Prop} {f : β → γ → EStateM ε σ β}
    (h : ∀ b x s, C b x s) : ∀ (l : List γ) (b : β) (s : σ), FoldMeets C f l b s
  | [], _, _ => trivial
  | x :: rest, b, s => ⟨h b x s, fun b' s' _ => foldMeets_of_forall h rest b' s'⟩

theorem FoldMeets.append {C : β → γ → σ → Prop} {f : β → γ → EStateM ε σ β} {more : List γ}
    {b' : β} {s' : σ} : ∀ {l : List γ} {b : β} {s : σ}, FoldMeets C f (l ++ more) b s →
      l.foldlM f b s = .ok b' s' → FoldMeets C f l b s ∧ FoldMeets C f more b' s'
  | [], b, s, h, hrun => by
    obtain ⟨rfl, rfl⟩ := EStateM.Result.ok.inj hrun
    exact ⟨trivial, h⟩
  | x :: rest, b, s, h, hrun => by
    rw [List.foldlM_cons] at hrun
    cases hx : f b x s with
    | error e t =>
      rw [bind_run_error hx] at hrun
      cases hrun
    | ok b₁ s₁ =>
      rw [bind_run_ok hx] at hrun
      obtain ⟨hrest, hmore⟩ := FoldMeets.append (h.2 b₁ s₁ hx) hrun
      refine ⟨⟨h.1, fun b₂ s₂ hx' => ?_⟩, hmore⟩
      obtain ⟨rfl, rfl⟩ := EStateM.Result.ok.inj (hx.symm.trans hx')
      exact hrest

theorem Ends.with_run (h : Ends F m s Q) : Ends F m s fun a t => m s = .ok a t ∧ Q a t := by
  cases hm : m s with
  | ok a t => exact ends_ok hm (h.of_ok hm).1 ⟨rfl, (h.of_ok hm).2⟩
  | error e t => exact ends_error hm (h.of_error hm).1 (h.of_error hm).2

/-- A loop whose steps all meet a condition keeps what such a step keeps. -/
theorem ends_foldlM_meets {C : β → γ → σ → Prop} {f : β → γ → EStateM ε σ β} (I : β → σ → Prop)
    (hstep : ∀ x b t, F.le s t → C b x t → I b t → Ends F (f b x) t I) :
    ∀ (l : List γ) (b : β) (t : σ), F.le s t → FoldMeets C f l b t → I b t →
      Ends F (l.foldlM f b) t I
  | [], b, t, _, _, h => by
    rw [List.foldlM_nil]
    exact ends_pure h
  | x :: rest, b, t, hle, hmeets, h => by
    rw [List.foldlM_cons]
    refine (hstep x b t hle hmeets.1 h).with_run.bind fun b' t' hle' h' => ?_
    exact ends_foldlM_meets I hstep rest b' t' (F.trans hle hle') (hmeets.2 b' t' h'.1) h'.2

/-- What the steps of a loop keep when they meet a condition holds in front of every step. -/
theorem FoldMeets.with_invariant {C : β → γ → σ → Prop} {f : β → γ → EStateM ε σ β}
    {I : β → σ → Prop}
    (hstep : ∀ x b t b' t', C b x t → I b t → f b x t = .ok b' t' → I b' t') :
    ∀ {l : List γ} {b : β} {t : σ}, FoldMeets C f l b t → I b t →
      FoldMeets (fun b x t => C b x t ∧ I b t) f l b t
  | [], _, _, _, _ => trivial
  | _ :: _, _, _, hmeets, h => ⟨⟨hmeets.1, h⟩, fun b' t' hrun =>
      FoldMeets.with_invariant hstep (hmeets.2 b' t' hrun) (hstep _ _ _ b' t' hmeets.1 h hrun)⟩

theorem FoldMeets.invariant {C : β → γ → σ → Prop} {f : β → γ → EStateM ε σ β} {I : β → σ → Prop}
    (hstep : ∀ x b t b' t', C b x t → I b t → f b x t = .ok b' t' → I b' t') {l : List γ} {b : β}
    {t : σ} (hmeets : FoldMeets C f l b t) (h : I b t) : FoldMeets (fun b _ t => I b t) f l b t :=
  (hmeets.with_invariant hstep h).mono fun _ _ _ hboth => hboth.2

/-- From `s` the program returns a result that satisfies `Q`, or fails and leaves a state
that satisfies `E`. -/
def Leaves (m : EStateM ε σ α) (s : σ) (Q : α → σ → Prop) (E : σ → Prop) : Prop :=
  match m s with
  | .ok a t => Q a t
  | .error _ t => E t

section
variable {E E' : σ → Prop}

theorem Leaves.of_ok {a : α} {t : σ} (h : Leaves m s Q E) (hr : m s = .ok a t) : Q a t := by
  unfold Leaves at h; rw [hr] at h; exact h

theorem Leaves.of_error {e : ε} {t : σ} (h : Leaves m s Q E) (hr : m s = .error e t) : E t := by
  unfold Leaves at h; rw [hr] at h; exact h

theorem leaves_ok {a : α} {t : σ} (hr : m s = .ok a t) (h : Q a t) : Leaves m s Q E := by
  unfold Leaves; rw [hr]; exact h

theorem leaves_error {e : ε} {t : σ} (hr : m s = .error e t) (h : E t) : Leaves m s Q E := by
  unfold Leaves; rw [hr]; exact h

theorem leaves_pure {a : α} (h : Q a s) : Leaves (pure a : EStateM ε σ α) s Q E := h

theorem Leaves.get_bind {f : σ → EStateM ε σ α} (h : Leaves (f s) s Q E) :
    Leaves ((get : EStateM ε σ σ) >>= f) s Q E := h

theorem Leaves.mono (h : Leaves m s Q E) (hq : ∀ a t, Q a t → R a t) (he : ∀ t, E t → E' t) :
    Leaves m s R E' := by
  unfold Leaves at h ⊢
  split at h
  · exact hq _ _ h
  · exact he _ h

theorem Leaves.bind {f : α → EStateM ε σ β} {Q' : β → σ → Prop} (h : Leaves m s Q E)
    (hf : ∀ a t, m s = .ok a t → Q a t → Leaves (f a) t Q' E) : Leaves (m >>= f) s Q' E := by
  have hb : (m >>= f) s = match m s with
      | .ok a t => f a t
      | .error e t => .error e t := rfl
  cases hm : m s with
  | error e t =>
    rw [hm] at hb
    exact leaves_error hb (h.of_error hm)
  | ok a t =>
    rw [hm] at hb
    have hfa := hf a t hm (h.of_ok hm)
    unfold Leaves at hfa ⊢
    rw [hb]
    exact hfa

theorem leaves_ite {c : Prop} [Decidable c] {m' : EStateM ε σ α} (h : Leaves m s Q E)
    (h' : Leaves m' s Q E) : Leaves (if c then m else m') s Q E := by
  split
  · exact h
  · exact h'

theorem Leaves.and (h : Leaves m s Q E) (h' : Leaves m s R E') :
    Leaves m s (fun a t => Q a t ∧ R a t) fun t => E t ∧ E' t := by
  unfold Leaves at h h' ⊢
  split at h
  · next hm => rw [hm] at h'; exact ⟨h, h'⟩
  · next hm => rw [hm] at h'; exact ⟨h, h'⟩

theorem Ends.leaves (h : Ends F m s Q) :
    Leaves m s (fun a t => F.le s t ∧ Q a t) (F.le s) := by
  unfold Ends at h
  unfold Leaves
  split at h
  · exact h
  · exact h.1

/-- A loop over a list, with an invariant that speaks about the part left. -/
theorem leaves_foldlM {f : β → γ → EStateM ε σ β} (I : List γ → β → σ → Prop)
    (hstep : ∀ x rest b t, I (x :: rest) b t → Leaves (f b x) t (I rest) E) :
    ∀ (l : List γ) (b : β) (t : σ), I l b t → Leaves (l.foldlM f b) t (I []) E
  | [], b, t, h => by
    rw [List.foldlM_nil]
    exact leaves_pure h
  | x :: rest, b, t, h => by
    rw [List.foldlM_cons]
    exact (hstep x rest b t h).bind fun b' t' _ h' => leaves_foldlM I hstep rest b' t' h'

theorem leaves_foldlM_meets {C : β → γ → σ → Prop} {f : β → γ → EStateM ε σ β} (I : β → σ → Prop)
    (hstep : ∀ x b t, C b x t → I b t → Leaves (f b x) t I E) :
    ∀ (l : List γ) (b : β) (t : σ), FoldMeets C f l b t → I b t → Leaves (l.foldlM f b) t I E
  | [], b, t, _, h => by
    rw [List.foldlM_nil]
    exact leaves_pure h
  | x :: rest, b, t, hmeets, h => by
    rw [List.foldlM_cons]
    exact (hstep x b t hmeets.1 h).bind fun b' t' hrun h' =>
      leaves_foldlM_meets I hstep rest b' t' (hmeets.2 b' t' hrun) h'

end

/-- From `s` the program returns. -/
def Returns (m : EStateM ε σ α) (s : σ) : Prop := ∃ a t, m s = .ok a t

theorem returns_pure (a : α) (s : σ) : Returns (pure a : EStateM ε σ α) s := ⟨a, s, rfl⟩

theorem returns_modify (f : σ → σ) (s : σ) : Returns (modify f : EStateM ε σ PUnit) s :=
  ⟨⟨⟩, f s, rfl⟩

theorem Returns.get_bind {f : σ → EStateM ε σ α} (h : Returns (f s) s) :
    Returns ((get : EStateM ε σ σ) >>= f) s := h

theorem Returns.bind {f : α → EStateM ε σ β} (h : Returns m s)
    (hf : ∀ a t, m s = .ok a t → Returns (f a) t) : Returns (m >>= f) s := by
  obtain ⟨a, t, hm⟩ := h
  obtain ⟨b, r, hfa⟩ := hf a t hm
  exact ⟨b, r, (bind_run_ok hm).trans hfa⟩

theorem returns_foldlM {f : β → γ → EStateM ε σ β} (hf : ∀ b x s, Returns (f b x) s) :
    ∀ (l : List γ) (b : β) (s : σ), Returns (l.foldlM f b) s
  | [], b, s => returns_pure b s
  | x :: rest, b, s => by
    rw [List.foldlM_cons]
    exact (hf b x s).bind fun b' t _ => returns_foldlM hf rest b' t

/-- From `s` the program returns a result that passes the test. -/
def passes (m : EStateM ε σ α) (s : σ) (test : α → σ → Bool) : Bool :=
  match m s with
  | .ok a t => test a t
  | .error _ _ => false

theorem exists_of_passes {test : α → σ → Bool} (h : passes m s test = true) :
    ∃ a t, m s = .ok a t ∧ test a t = true := by
  unfold passes at h
  split at h
  · next a t hm => exact ⟨a, t, hm, h⟩
  · cases h

/-- The frame that keeps an invariant, also where the program fails. -/
def Frame.keeps (I : σ → Prop) : Frame σ where
  le s t := I s → I t
  refl _ h := h
  trans h h' hs := h' (h hs)
  excused _ := True
  excused_of_le _ _ := trivial

/-- There is nothing to keep where the invariant does not hold. -/
theorem ends_keeps {I : σ → Prop} (h : I s → Ends (Frame.keeps I) m s fun _ _ => True) :
    Ends (Frame.keeps I) m s fun _ _ => True := by
  by_cases hi : I s
  · exact h hi
  · cases hm : m s with
    | ok a t => exact ends_ok hm (fun hs => absurd hs hi) trivial
    | error e t => exact ends_error hm (fun hs => absurd hs hi) trivial

/-- The same program under a frame that keeps less and excuses no less. -/
theorem Ends.weaken {G : Frame σ} (h : Ends F m s Q) (hle : ∀ t, F.le s t → G.le s t)
    (hx : F.excused s → G.excused s) : Ends G m s Q := by
  unfold Ends at h ⊢
  split at h
  · exact ⟨hle _ h.1, h.2⟩
  · exact ⟨hle _ h.1, hx h.2⟩

/-- The frame that keeps nothing and excuses nothing. -/
def Frame.total : Frame σ where
  le _ _ := True
  refl _ := trivial
  trans _ _ := trivial
  excused _ := False
  excused_of_le _ h := h

/-- From a start that excuses no failure the program returns. -/
theorem Ends.returns (h : Ends F m s Q) (hx : ¬ F.excused s) :
    ∃ a t, m s = .ok a t ∧ F.le s t ∧ Q a t := by
  cases hm : m s with
  | ok a t => exact ⟨a, t, rfl, h.of_ok hm⟩
  | error e t => exact absurd (h.of_error hm).2 hx

/-- Run a clean-up program when `body` fails, then fail the same way. -/
def onFailure (undo : EStateM ε σ PUnit) (body : EStateM ε σ α) : EStateM ε σ α := fun s =>
  match body s with
  | .ok a t => .ok a t
  | .error e t =>
    match undo t with
    | .ok _ r => .error e r
    | .error e' r => .error e' r

theorem Ends.onFailure {undo : EStateM ε σ PUnit} (h : Ends F m s Q)
    (hu : ∀ t, F.le s t → Ends F undo t fun _ _ => True) :
    Ends F (onFailure undo m) s Q := by
  cases hm : m s with
  | ok a t =>
    have hr : MeshPP.Lib.onFailure undo m s = .ok a t := by simp only [MeshPP.Lib.onFailure, hm]
    exact ends_ok hr (h.of_ok hm).1 (h.of_ok hm).2
  | error e t =>
    obtain ⟨hle, hx⟩ := h.of_error hm
    cases hu' : undo t with
    | ok a r =>
      have hr : MeshPP.Lib.onFailure undo m s = .error e r := by
        simp only [MeshPP.Lib.onFailure, hm, hu']
      exact ends_error hr (F.trans hle ((hu t hle).of_ok hu').1) hx
    | error e' r =>
      have hr : MeshPP.Lib.onFailure undo m s = .error e' r := by
        simp only [MeshPP.Lib.onFailure, hm, hu']
      exact ends_error hr (F.trans hle ((hu t hle).of_error hu').1) hx

/-- Run a program on a part of the state. -/
def zoom {τ : Type} (part : σ → τ) (put : τ → σ → σ) (m : EStateM ε τ α) : EStateM ε σ α := fun s =>
  match m (part s) with
  | .ok a t => .ok a (put t s)
  | .error e t => .error e (put t s)

theorem Leaves.zoom {τ : Type} {part : σ → τ} {put : τ → σ → σ} {m : EStateM ε τ α}
    {Q : α → τ → Prop} {E : τ → Prop} {s : σ} (h : Leaves m (part s) Q E) :
    Leaves (zoom part put m) s (fun a s' => ∃ t, s' = put t s ∧ Q a t)
      fun s' => ∃ t, s' = put t s ∧ E t := by
  cases hm : m (part s) with
  | ok a t =>
    have hr : MeshPP.Lib.zoom part put m s = .ok a (put t s) := by simp only [MeshPP.Lib.zoom, hm]
    exact leaves_ok hr ⟨t, rfl, h.of_ok hm⟩
  | error e t =>
    have hr : MeshPP.Lib.zoom part put m s = .error e (put t s) := by
      simp only [MeshPP.Lib.zoom, hm]
    exact leaves_error hr ⟨t, rfl, h.of_error hm⟩

/-- A result with a part of the state that it comes with. -/
def partOf {τ : Type} (part : σ → τ) : EStateM.Result ε σ α → EStateM.Result ε τ α
  | .ok a s => .ok a (part s)
  | .error e s => .error e (part s)

/-- A loop does on a part of its state what its steps do there. -/
theorem partOf_foldlM {τ : Type} {part : σ → τ} {f : β → γ → EStateM ε σ β}
    {g : β → γ → EStateM ε τ β} (h : ∀ b x s, partOf part (f b x s) = g b x (part s)) :
    ∀ (l : List γ) (b : β) (s : σ), partOf part (l.foldlM f b s) = l.foldlM g b (part s)
  | [], _, _ => rfl
  | x :: rest, b, s => by
    have hx := h b x s
    rw [List.foldlM_cons, List.foldlM_cons]
    cases hf : f b x s with
    | error e s' =>
      rw [hf] at hx
      rw [bind_run_error hf, bind_run_error hx.symm]
      rfl
    | ok b' s' =>
      rw [hf] at hx
      rw [bind_run_ok hf, bind_run_ok hx.symm]
      exact partOf_foldlM h rest b' s'

theorem Ends.zoom {τ : Type} {G : Frame τ} {part : σ → τ} {put : τ → σ → σ}
    {m : EStateM ε τ α} {Q : α → τ → Prop} {s : σ} (h : Ends G m (part s) Q)
    (hle : ∀ t, G.le (part s) t → F.le s (put t s)) (hx : G.excused (part s) → F.excused s) :
    Ends F (zoom part put m) s fun a s' => ∃ t, s' = put t s ∧ G.le (part s) t ∧ Q a t := by
  cases hm : m (part s) with
  | ok a t =>
    have hr : MeshPP.Lib.zoom part put m s = .ok a (put t s) := by simp only [MeshPP.Lib.zoom, hm]
    obtain ⟨hg, hq⟩ := h.of_ok hm
    exact ends_ok hr (hle t hg) ⟨t, rfl, hg, hq⟩
  | error e t =>
    have hr : MeshPP.Lib.zoom part put m s = .error e (put t s) := by
      simp only [MeshPP.Lib.zoom, hm]
    obtain ⟨hg, he⟩ := h.of_error hm
    exact ends_error hr (hle t hg) (hx he)

end MeshPP.Lib
