import Mathlib.Logic.Function.Basic
import MeshPP.Lib.Machine

/-! # Networks of machines

Machines run side by side, one of them taking a step at a time, in any order.
Their ports are linked in pairs. What a link is relied on for is a condition on
the steps: `Carries` asks that what is read was sent on the other end, `Orders`
asks besides that it is read in order and no more than once. The run lemmas say
what all machines together keep then. -/

namespace MeshPP.Lib

universe u
variable {N P σ Out Msg : Type} {Op : Type u}

/-- What is on the other end of a port. -/
structure Links (N P : Type) where
  other : N → P → Option (N × P)
  symm : ∀ {n p m q}, other n p = some (m, q) → other m q = some (n, p)

/-- What has gone out and come in on each port, and what an operation takes from it. -/
structure Ports (P σ : Type) (Op : Type u) (Msg : Type) where
  sent : σ → P → List Msg
  heard : σ → P → List Msg
  reads : σ → Op → P → List Msg

namespace Ports

/-- A step forgets nothing, and hears the first part of what it reads. -/
structure Logs (ports : Ports P σ Op Msg) (step : σ → Op → Out × σ) (s : σ) (op : Op) : Prop where
  sent : ∀ p, ports.sent s p <+: ports.sent (step s op).2 p
  heard : ∀ p, ∃ done, done <+: ports.reads s op p ∧
    ports.heard (step s op).2 p = ports.heard s p ++ done

variable (ports : Ports P σ Op Msg) (links : Links N P)

/-- All that was heard was sent on the other end. -/
def Carried (w : N → σ) : Prop :=
  ∀ n p msg, msg ∈ ports.heard (w n) p →
    ∃ m q, links.other n p = some (m, q) ∧ msg ∈ ports.sent (w m) q

def Carries (w : N → σ) (op : N × Op) : Prop :=
  ∀ p msg, msg ∈ ports.reads (w op.1) op.2 p →
    ∃ m q, links.other op.1 p = some (m, q) ∧ msg ∈ ports.sent (w m) q

/-- All that was heard was sent on the other end, in this order. -/
def Ordered (w : N → σ) : Prop :=
  ∀ n p m q, links.other n p = some (m, q) →
    (ports.heard (w n) p).Sublist (ports.sent (w m) q)

def Orders (w : N → σ) (op : N × Op) : Prop :=
  ∀ p, ports.reads (w op.1) op.2 p ≠ [] → ∃ m q, links.other op.1 p = some (m, q) ∧
    (ports.heard (w op.1) p ++ ports.reads (w op.1) op.2 p).Sublist (ports.sent (w m) q)

variable {ports links} in
theorem Orders.carries {w : N → σ} {op : N × Op} (h : ports.Orders links w op) :
    ports.Carries links w op := by
  intro p msg hmsg
  obtain ⟨m, q, hlink, hsub⟩ := h p (List.ne_nil_of_mem hmsg)
  exact ⟨m, q, hlink, hsub.subset (List.mem_append_right _ hmsg)⟩

end Ports

variable [DecidableEq N]

/-- One machine takes a step. -/
def netStep (step : N → σ → Op → Out × σ) (w : N → σ) (op : N × Op) : Out × (N → σ) :=
  let r := step op.1 (w op.1) op.2
  (r.1, Function.update w op.1 r.2)

section
variable {step : N → σ → Op → Out × σ} {w : N → σ} {op : N × Op}

theorem netStep_self : (netStep step w op).2 op.1 = (step op.1 (w op.1) op.2).2 :=
  Function.update_self _ _ _

theorem netStep_ne {n : N} (h : n ≠ op.1) : (netStep step w op).2 n = w n :=
  Function.update_of_ne h _ _

/-- What each machine keeps, the network keeps of each machine. -/
theorem netStep_invariant {I : N → σ → Prop} (hstep : ∀ n s op, I n s → I n (step n s op).2)
    (h : ∀ n, I n (w n)) (n : N) : I n ((netStep step w op).2 n) := by
  by_cases hn : n = op.1
  · rw [hn, netStep_self]
    exact hstep _ _ _ (h _)
  · rw [netStep_ne hn]
    exact h n

variable {ports : Ports P σ Op Msg} {links : Links N P}

theorem netStep_sent (hlogs : ports.Logs (step op.1) (w op.1) op.2) (n : N) (p : P) :
    ports.sent (w n) p <+: ports.sent ((netStep step w op).2 n) p := by
  by_cases hn : n = op.1
  · rw [hn, netStep_self]
    exact hlogs.sent p
  · simp only [netStep_ne hn, List.prefix_refl]

theorem Ports.carried_step (h : ports.Carried links w)
    (hlogs : ports.Logs (step op.1) (w op.1) op.2) (hc : ports.Carries links w op) :
    ports.Carried links (netStep step w op).2 := by
  intro n p msg hmsg
  have hold : msg ∈ ports.heard (w n) p ∨ n = op.1 ∧ msg ∈ ports.reads (w op.1) op.2 p := by
    by_cases hn : n = op.1
    · obtain ⟨done, hdone, hheard⟩ := hlogs.heard p
      rw [hn, netStep_self, hheard] at hmsg
      rcases List.mem_append.mp hmsg with hmsg | hmsg
      · exact .inl (hn ▸ hmsg)
      · exact .inr ⟨hn, hdone.subset hmsg⟩
    · rw [netStep_ne hn] at hmsg
      exact .inl hmsg
  have hsent : ∃ m q, links.other n p = some (m, q) ∧ msg ∈ ports.sent (w m) q := by
    rcases hold with hold | ⟨rfl, hread⟩
    · exact h n p msg hold
    · exact hc p msg hread
  obtain ⟨m, q, hlink, hmem⟩ := hsent
  exact ⟨m, q, hlink, (netStep_sent hlogs m q).subset hmem⟩

theorem Ports.ordered_step (h : ports.Ordered links w)
    (hlogs : ports.Logs (step op.1) (w op.1) op.2) (hc : ports.Orders links w op) :
    ports.Ordered links (netStep step w op).2 := by
  intro n p m q hlink
  refine List.Sublist.trans ?_ (netStep_sent hlogs m q).sublist
  by_cases hn : n = op.1
  · obtain ⟨done, hdone, hheard⟩ := hlogs.heard p
    rw [hn, netStep_self, hheard]
    by_cases hread : ports.reads (w op.1) op.2 p = []
    · rw [hread, List.prefix_nil] at hdone
      rw [hdone, List.append_nil]
      exact h _ p m q (hn ▸ hlink)
    · obtain ⟨m', q', hlink', hsub⟩ := hc p hread
      obtain ⟨rfl, rfl⟩ : m = m' ∧ q = q' :=
        Prod.mk.inj (Option.some.inj ((hn ▸ hlink).symm.trans hlink'))
      exact (List.Sublist.append_left hdone.sublist _).trans hsub
  · rw [netStep_ne hn]
    exact h n p m q hlink

/-! ## Runs -/

variable {I : N → σ → Prop} {ops : List (N × Op)}

/-- Over links that carry what is sent, all that was heard was sent, after every run. -/
theorem Ports.carried_final (hstep : ∀ n s op, I n s → I n (step n s op).2)
    (hlogs : ∀ n s op, I n s → ports.Logs (step n) s op) (hi : ∀ n, I n (w n))
    (h : ports.Carried links w) (hm : Meets (netStep step) (ports.Carries links) w ops) :
    (∀ n, I n (final (netStep step) w ops n)) ∧
      ports.Carried links (final (netStep step) w ops) :=
  let both := fun w : N → σ => (∀ n, I n (w n)) ∧ ports.Carried links w
  have hboth : ∀ w op, both w → ports.Carries links w op → both (netStep step w op).2 :=
    fun _ _ h hc => ⟨netStep_invariant hstep h.1, carried_step h.2 (hlogs _ _ _ (h.1 _)) hc⟩
  invariant_final hboth ⟨hi, h⟩ hm

/-- Over links that keep the order, all that was heard was sent in this order. -/
theorem Ports.ordered_final (hstep : ∀ n s op, I n s → I n (step n s op).2)
    (hlogs : ∀ n s op, I n s → ports.Logs (step n) s op) (hi : ∀ n, I n (w n))
    (hc : ports.Carried links w) (ho : ports.Ordered links w)
    (hm : Meets (netStep step) (ports.Orders links) w ops) :
    (∀ n, I n (final (netStep step) w ops n)) ∧
      ports.Carried links (final (netStep step) w ops) ∧
      ports.Ordered links (final (netStep step) w ops) :=
  let all := fun w : N → σ => (∀ n, I n (w n)) ∧ ports.Carried links w ∧ ports.Ordered links w
  have hall : ∀ w op, all w → ports.Orders links w op → all (netStep step w op).2 :=
    fun _ _ ⟨hi, hc, ho⟩ h =>
      have hlog := hlogs _ _ _ (hi _)
      ⟨netStep_invariant hstep hi, carried_step hc hlog h.carries, ordered_step ho hlog h⟩
  invariant_final hall ⟨hi, hc, ho⟩ hm

end

end MeshPP.Lib
