import MeshPP.SystemUtility.MapRefinement

/-! # A map that is opened with another limit

The index records the file of each key, and `save` follows it. `load` takes the
file that the hash of the key has under the limit of the container, so a map can
be opened with another limit only where no stored key has another file there. -/

namespace MeshPP.SystemUtility
open MeshPP.Lib

section
variable {K T : Type} [DecidableEq K] {fmt : BlockFormat K T}

/-- A key that its block does not have is put into the overlay without an object. -/
theorem Core.load_lost {file : String} {key : K} {s : CoreState K T} {g : K → Option T}
    (hp : s.core.ptransaction = none) (hq : s.world.faults = [])
    (h : (s.world.disk file).Rep fmt false g) (hg : g key = none) :
    ∃ t, Core.load fmt file key s = .ok ⟨⟩ t ∧
      t.core.overlay.lookup key = some (none, .none) := by
  obtain ⟨⟨d, faults⟩, core⟩ := s
  obtain rfl : faults = [] := hq
  obtain ⟨items, hh, hd⟩ := h
  have hspec : Ends readFrame (do
      let temp ← BlockFileLoader.construct fmt file [key] none false
      temp.get key) ⟨d, []⟩ fun packet _ => packet = none := by
    refine (construct_committed hh).bind fun temp w1 _ h1 => ?_
    have hvalues := h1.1.values h1.1.clear
    obtain ⟨u, hu⟩ := UMap.mem_iff.mp ((hvalues.mem_iff key).mpr (.inl (by simp)))
    simp only [BlockFileLoader.get, hu]
    exact ends_pure ((hvalues.item hd hu).1.trans hg)
  obtain ⟨packet, hrun, rfl⟩ := returns_quiet hspec
  have henter : core.enter file = core := core.enter_of_closed file hp
  unfold Core.load
  simp only [modify_bind_run, get_bind_run, henter]
  rw [show core.ptransaction = none from hp, Option.bind_none]
  refine ⟨_, bind_run_ok (by rw [zoom, hrun]) |>.trans rfl, by simp⟩

theorem Core.reach_lost {file : String} {key : K} {s : CoreState K T} {g : K → Option T}
    (hp : s.core.ptransaction = none) (hq : s.world.faults = [])
    (h : (s.world.disk file).Rep fmt false g) (hg : g key = none)
    (ho : s.core.overlay.lookup key = none) (texts : AccessTexts) :
    ∃ t, Core.reach fmt file key texts true s = .error emptyPacket t := by
  obtain ⟨t, hrun, hlookup⟩ := Core.load_lost hp hq h hg
  unfold Core.reach
  rw [get_bind_run, ho]
  simp only [if_true]
  refine ⟨t, (bind_run_ok hrun).trans ?_⟩
  rw [get_bind_run, hlookup]
  rfl

end

variable {T : Type} {cfg : MapConfig T}

/-- The same map, opened with another limit. -/
def MapConfig.withLimit (cfg : MapConfig T) (limit : Nat) : MapConfig T := { cfg with limit }

/-- Every run without faults answers as the transactional map that starts with `c`. -/
def MapStore.Transactional (cfg : MapConfig T) (c : Map T) (r : MapStore T) : Prop :=
  ∀ calls : List (Call (MapOp T)), (∀ call ∈ calls, ¬ call.Faulty) →
    outputs (MapStore.step cfg) r calls =
      outputs (fun t call => Txn.step (MapSpec.act cfg.name) .done t call.op) (Txn.start c) calls

/-- A container that has the keys of `c`, the values of `c`, and stays a transactional map. -/
structure MapStore.Carries (cfg : MapConfig T) (c : Map T) (r : MapStore T) : Prop where
  keys : r.self.keysWithOverlay = c.keys
  values : ∀ key v, c.lookup key = some v → ∀ ord,
    (MapStore.step cfg r ⟨.act (.constAt key), ord, []⟩).1 = .value v
  transactional : r.Transactional cfg c

/-- The blocks are where the other limit looks for them. -/
theorem Holding.withLimit {c : Map T} {d : Disk} (h : Holding cfg c d) {limit : Nat}
    (hsame : ∀ key ∈ c, cfg.filename key = (cfg.withLimit limit).filename key) :
    Holding (cfg.withLimit limit) c d where
  blocks f hf := by
    have : restrict (cfg.withLimit limit).filename (fun k => c.lookup k) f =
        restrict cfg.filename (fun k => c.lookup k) f := by
      funext k
      unfold restrict
      by_cases hk : k ∈ c
      · rw [hsame k hk]
      · simp only [Finmap.lookup_eq_none.mpr hk, ite_self]
    rw [this]
    exact h.blocks f hf
  indexBlock := by
    have : names (cfg.withLimit limit) (fun k => c.lookup k) = names cfg fun k => c.lookup k := by
      funext k
      unfold names
      by_cases hk : k ∈ c
      · rw [hsame k hk]
      · simp only [Finmap.lookup_eq_none.mpr hk, Option.map_none]
    rw [this]
    exact h.indexBlock

theorem StoreInv.carries {c : Map T} {r : MapStore T} (h : StoreInv cfg (Txn.start c) r) :
    r.Carries cfg c where
  keys := (h []).keys
  values key v hv ord := by
    have hq : ∀ call ∈ [(⟨.act (.constAt key), ord, []⟩ : Call (MapOp T))], ¬ call.Faulty := by
      intro call hc hf
      obtain rfl := List.mem_singleton.mp hc
      obtain ⟨x, hx⟩ := hf
      cases hx
    have hout := (map_implements.refines h hq).1
    simp only [outputs, run, List.cons.injEq, and_true] at hout
    rw [hout]
    simp only [Txn.step, MapSpec.act, Txn.start, hv]
  transactional calls hq := (map_implements.refines h hq).1

theorem construct_overlay {ord : IterOrder} {w w' : World} {self : MapLoader T}
    (h : MapLoader.construct cfg ord w = .ok self w') : self.overlay = ∅ := by
  unfold MapLoader.construct at h
  cases hl : loadIndex cfg ord w with
  | error e t => rw [bind_run_error hl] at h; cases h
  | ok index t => rw [bind_run_ok hl] at h; cases h; rfl

/-- The index is read whatever the limit; `at` fails for a key whose block is elsewhere. -/
theorem Holding.reopened {c : Map T} {d : Disk} (h : Holding cfg c d) (limit : Nat)
    (ord : IterOrder) : ∃ r, MapStore.opened (cfg.withLimit limit) ord d = some r ∧
      r.self.keysWithOverlay = c.keys ∧
      ∀ key ∈ c, cfg.filename key ≠ (cfg.withLimit limit).filename key → ∀ order,
        (MapStore.step (cfg.withLimit limit) r ⟨.act (.constAt key), order, []⟩).1 =
          .thrown emptyPacket := by
  obtain ⟨self, hrun, hinv, hnone⟩ := construct_run ord h []
  refine ⟨⟨d, self⟩, ?_, hinv.keys, ?_⟩
  · unfold MapStore.opened
    rw [show MapLoader.construct (cfg.withLimit limit) ord ⟨d, []⟩ = .ok self ⟨d, []⟩ from hrun]
  · intro key hk hne order
    have hoverlay : self.overlay.lookup key = none := by rw [construct_overlay hrun]; simp
    have hknown : key ∈ self.index := (mem_index_iff hinv key).mpr hk
    have hblock := h.blocks _ (filename_ne (cfg.withLimit limit) key)
    have hgone : restrict cfg.filename (fun k => c.lookup k)
        ((cfg.withLimit limit).filename key) key = none := if_neg hne
    obtain ⟨t, hreach⟩ := Core.reach_lost (s := ⟨⟨d, []⟩, self.toCore⟩) hnone rfl hblock hgone
      hoverlay (MapLoader.texts cfg.name key)
    unfold MapStore.step MapLoader.perform MapLoader.act MapLoader.constAt
    simp only [bind, EStateM.bind, get_run, MapLoader.onCore, zoom, hknown, decide_true]
    rw [show Core.reach (cfg.withLimit limit).blockFormat ((cfg.withLimit limit).filename key) key
      (MapLoader.texts (cfg.withLimit limit).name key) true ⟨⟨d, []⟩, self.toCore⟩ = _ from hreach]

/-- A directory that holds `c` carries it under another limit exactly where no stored key
changes its file. -/
theorem Holding.carries_iff {c : Map T} {d : Disk} (h : Holding cfg c d) (limit : Nat)
    (ord : IterOrder) : ∃ r, MapStore.opened (cfg.withLimit limit) ord d = some r ∧
      r.self.keysWithOverlay = c.keys ∧ (r.Carries (cfg.withLimit limit) c ↔
        ∀ key ∈ c, cfg.filename key = (cfg.withLimit limit).filename key) := by
  obtain ⟨r, hr, hkeys, hlost⟩ := h.reopened limit ord
  refine ⟨r, hr, hkeys, ?_, ?_⟩
  · intro hc key hk
    by_contra hne
    obtain ⟨v, hv⟩ := Finmap.mem_iff.mp hk
    have hvalue := hc.values key v hv ord
    rw [hlost key hk hne ord] at hvalue
    cases hvalue
  · intro hsame
    obtain ⟨r', hr', -, hinv, -⟩ := opened_inv ord (h.withLimit hsame)
    rw [hr] at hr'
    obtain rfl := Option.some.inj hr'
    exact hinv.carries

theorem StoreInv.holding {a : Txn (Map T)} {s : MapStore T} (h : StoreInv cfg a s) :
    Holding cfg a.committed s.disk :=
  ⟨(h []).durable.blocks, (h []).durable.indexBlock⟩

/-- **A map directory carries its map under another limit exactly where no stored key has
another block file there.** Whatever run made the directory, the map is the one its last
commit left, which the limit of the run carries; the other limit sees its keys in any case. -/
theorem limit_carries_iff (cfg : MapConfig T) (limit : Nat) (ord : IterOrder) :
    ∃ s, MapStore.opened cfg ord Disk.empty = some s ∧ ∀ calls : List (Call (MapOp T)), ∃ a,
      History (MapSpec.act cfg.name) MapOut.done MapOut.Thrown (Txn.start ∅)
        ((calls.map fun c => c.op).zip (outputs (MapStore.step cfg) s calls)) a ∧
      ∀ ord', let d := (final (MapStore.step cfg) s calls).disk
        (∃ r, MapStore.opened cfg ord' d = some r ∧ r.Carries cfg a.committed) ∧
        ∃ r, MapStore.opened (cfg.withLimit limit) ord' d = some r ∧
          r.self.keysWithOverlay = a.committed.keys ∧
          (r.Carries (cfg.withLimit limit) a.committed ↔
            ∀ key ∈ a.committed, cfg.filename key = (cfg.withLimit limit).filename key) := by
  obtain ⟨s, hs, -, hinv, -⟩ := opened_inv ord (holding_empty cfg)
  refine ⟨s, hs, fun calls => ?_⟩
  obtain ⟨a, hhist, hfin⟩ := map_implements.history hinv calls
  refine ⟨a, hhist, fun ord' => ⟨?_, hfin.holding.carries_iff limit ord'⟩⟩
  obtain ⟨r, hr, -, hcarries, -⟩ := opened_inv ord' hfin.holding
  exact ⟨r, hr, hcarries.carries⟩

/-- Balances under a hash whose last two bits are set. -/
def oddBalances : MapConfig Nat := { balances with hash := fun _ => 3 }

def oddBalancesRun : List (Call (MapOp Nat)) :=
  [.act (.insert "a" 1), .save, .commit].map fun op => ⟨op, .stored, []⟩

/-- With two files "a" is stored in `balances.0001`; with four it is looked for in
`balances.0003`. -/
theorem not_limit_carries : ¬ ∀ (cfg : MapConfig Nat) (limit : Nat), 0 < cfg.limit → 0 < limit →
    ∀ (ord : IterOrder) (s : MapStore Nat), MapStore.opened cfg ord Disk.empty = some s →
      ∀ calls : List (Call (MapOp Nat)), (∀ c ∈ calls, ¬ c.Faulty) →
        ∃ r, MapStore.opened (cfg.withLimit limit) ord (final (MapStore.step cfg) s calls).disk =
            some r ∧
          r.Carries (cfg.withLimit limit) (final (fun t c =>
            Txn.step (MapSpec.act cfg.name) .done t c.op) (Txn.start ∅) calls).committed := by
  intro hall
  have hq : ∀ c ∈ oddBalancesRun, ¬ c.Faulty := by
    intro c hc hf
    obtain ⟨op, -, rfl⟩ := List.mem_map.mp hc
    obtain ⟨x, hx⟩ := hf
    cases hx
  obtain ⟨s, hs, -, hinv, -⟩ := opened_inv .stored (holding_empty oddBalances)
  obtain ⟨r, hr, hcarries⟩ := hall oddBalances 4 (by decide) (by decide) .stored s hs
    oddBalancesRun hq
  have hfin := (map_implements.refines hinv hq).2
  obtain ⟨r', hr', -, hiff⟩ := hfin.holding.carries_iff 4 .stored
  rw [hr] at hr'
  obtain rfl := Option.some.inj hr'
  exact absurd (hiff.mp hcarries "a" (Finmap.mem_iff.mpr ⟨1, rfl⟩)) (by decide)

end MeshPP.SystemUtility
