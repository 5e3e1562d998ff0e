import BitBridge.Routing.ConsistentHash

/-!
# The power-of-two-choices strategy

`P2CStrategy` (`core/routing/P2CStrategy.cpp`) draws two different healthy
services and takes the one with fewer active connections.  The generator and
`std::uniform_int_distribution` are a parameter: `σ` are the states of the
generator, and a draw from `0..n` gives one of those values and the next state.
The loop that draws again until the two differ has fuel, and `none` is a loop
that has not ended by then; more fuel does not change a result
(`selectService_mono`).

* `exists_selectService_iff`: **the strategy returns** exactly when its draws end
  the loop (`Ends`).
* `selectService_spec`: **the choice is healthy, and there is one unless no
  service is healthy.**
-/

namespace BitBridge

/-- `std::uniform_int_distribution<size_t>(0, n)` on a generator. -/
abbrev Distribution (σ : Type) : Type := (n : Nat) → σ → Fin (n + 1) × σ

/-- The strategy is its generator. -/
structure P2CStrategy (σ : Type) where
  rng : σ
  deriving DecidableEq, Repr

namespace P2CStrategy

variable {σ : Type}

/-- The indices of the healthy services, in order. -/
def healthy (pool : ServicePool) : List Nat := (List.range pool.getSize).filter pool.healthyAt

/-- `b = dist(m_rng)`, until it is not `a`. -/
def redraw (dist : Distribution σ) (n : Nat) (a : Fin (n + 1)) :
    Nat → σ → Option (Fin (n + 1) × σ)
  | 0, _ => none
  | fuel + 1, rng =>
    let b := dist n rng
    if b.1 = a then redraw dist n a fuel b.2 else some b

/-- The one with fewer active connections of the two; `none` is the
`std::out_of_range` of an `at`. -/
def pick (pool : ServicePool) (healthy : List Nat) (a b : Nat) :
    Option (Except RoutingError Nat) := do
  let i ← healthy[a]?
  let j ← healthy[b]?
  let s ← pool.getService i
  let t ← pool.getService j
  if s.activeConnections ≤ t.activeConnections then some (.ok i) else some (.ok j)

def selectService (dist : Distribution σ) (fuel : Nat) (s : P2CStrategy σ) (pool : ServicePool) :
    Option (Option (Except RoutingError Nat) × P2CStrategy σ) :=
  if pool.getSize = 0 then some (some (.error .poolEmpty), s)
  else
    match healthy pool with
    | [] => some (some (.error .noHealthyServices), s)
    | [i] => some (some (.ok i), s)
    | l =>
      let a := dist (l.length - 1) s.rng
      (redraw dist (l.length - 1) a.1 fuel a.2).map fun b => (pick pool l a.1 b.1, ⟨b.2⟩)

theorem mem_healthy {pool : ServicePool} {i : Nat} :
    i ∈ healthy pool ↔ pool.healthyAt i = true := by
  rw [healthy, List.mem_filter, List.mem_range, and_iff_right_iff_imp]
  intro h
  obtain ⟨s, hs, -⟩ := ServicePool.healthyAt_eq_true.mp h
  exact ServicePool.getService_eq_some_lt hs

theorem redraw_mono {dist : Distribution σ} {n : Nat} {a : Fin (n + 1)} {b : Fin (n + 1) × σ} :
    ∀ {fuel k : Nat} {rng : σ}, fuel ≤ k → redraw dist n a fuel rng = some b →
      redraw dist n a k rng = some b
  | 0, _, _, _, h => nomatch h
  | fuel + 1, k + 1, rng, hk, h => by
    rw [redraw] at h ⊢
    by_cases hb : (dist n rng).1 = a
    · simp only [hb, if_true] at h ⊢
      exact redraw_mono (by omega) h
    · simp only [hb, if_false] at h ⊢
      exact h
  | _ + 1, 0, _, hk, _ => absurd hk (by omega)

/-- **More fuel gives the same service.** -/
theorem selectService_mono {dist : Distribution σ} {fuel k : Nat} {s : P2CStrategy σ}
    {pool : ServicePool} {r : Option (Except RoutingError Nat) × P2CStrategy σ} (hk : fuel ≤ k)
    (h : selectService dist fuel s pool = some r) : selectService dist k s pool = some r := by
  unfold selectService at h ⊢
  split at h
  · rwa [if_pos ‹_›]
  · rw [if_neg ‹_›]
    split at h
    · exact h
    · exact h
    · obtain ⟨b, hb, rfl⟩ := Option.map_eq_some_iff.mp h
      simp only [redraw_mono hk hb, Option.map_some]

theorem selectService_unique {dist : Distribution σ} {fuel k : Nat} {s : P2CStrategy σ}
    {pool : ServicePool} {r r' : Option (Except RoutingError Nat) × P2CStrategy σ}
    (h : selectService dist fuel s pool = some r) (h' : selectService dist k s pool = some r') :
    r = r' := by
  rcases le_total fuel k with hk | hk
  · rw [selectService_mono hk h, Option.some.injEq] at h'
    exact h'
  · rw [selectService_mono hk h', Option.some.injEq] at h
    exact h.symm

/-! ### The draws -/

def advance (dist : Distribution σ) (n : Nat) (rng : σ) : Nat → σ
  | 0 => rng
  | k + 1 => advance dist n (dist n rng).2 k

/-- The draw `k` of the stream. -/
def draw (dist : Distribution σ) (n : Nat) (rng : σ) (k : Nat) : Fin (n + 1) :=
  (dist n (advance dist n rng k)).1

/-- The stream, from the generator's state on, ends the loop: with two services to
choose from, some later draw differs from the first. -/
def Ends (dist : Distribution σ) (s : P2CStrategy σ) (pool : ServicePool) : Prop :=
  1 < (healthy pool).length → ∃ k, draw dist ((healthy pool).length - 1) s.rng (k + 1) ≠
    draw dist ((healthy pool).length - 1) s.rng 0

/-- **The loop ends** exactly when a draw differs from `a`. -/
theorem exists_redraw_iff {dist : Distribution σ} {n : Nat} {a : Fin (n + 1)} {rng : σ} :
    (∃ fuel b, redraw dist n a fuel rng = some b) ↔ ∃ k, draw dist n rng k ≠ a := by
  constructor
  · rintro ⟨fuel, b, h⟩
    induction fuel generalizing rng with
    | zero => cases h
    | succ fuel ih =>
      rw [redraw] at h
      by_cases hb : (dist n rng).1 = a
      · rw [if_pos hb] at h
        obtain ⟨k, hk⟩ := ih h
        exact ⟨k + 1, hk⟩
      · exact ⟨0, hb⟩
  · rintro ⟨k, hk⟩
    induction k generalizing rng with
    | zero =>
      have hb : (dist n rng).1 ≠ a := hk
      exact ⟨1, dist n rng, by rw [redraw, if_neg hb]⟩
    | succ k ih =>
      by_cases hb : (dist n rng).1 = a
      · obtain ⟨fuel, b, h⟩ := ih hk
        exact ⟨fuel + 1, b, by rw [redraw, if_pos hb, h]⟩
      · exact ⟨1, dist n rng, by rw [redraw, if_neg hb]⟩

theorem selectService_of_empty {dist : Distribution σ} {fuel : Nat} {s : P2CStrategy σ}
    {pool : ServicePool} (h : pool.getSize = 0) :
    selectService dist fuel s pool = some (some (.error .poolEmpty), s) := by
  rw [selectService, if_pos h]

theorem selectService_of_nil {dist : Distribution σ} {fuel : Nat} {s : P2CStrategy σ}
    {pool : ServicePool} (h : pool.getSize ≠ 0) (hl : healthy pool = []) :
    selectService dist fuel s pool = some (some (.error .noHealthyServices), s) := by
  rw [selectService, if_neg h, hl]

theorem selectService_of_singleton {dist : Distribution σ} {fuel : Nat} {s : P2CStrategy σ}
    {pool : ServicePool} {i : Nat} (h : pool.getSize ≠ 0) (hl : healthy pool = [i]) :
    selectService dist fuel s pool = some (some (.ok i), s) := by
  rw [selectService, if_neg h, hl]

theorem selectService_of_one_lt {dist : Distribution σ} {fuel : Nat} {s : P2CStrategy σ}
    {pool : ServicePool} (h : pool.getSize ≠ 0) (hl : 1 < (healthy pool).length) :
    selectService dist fuel s pool =
      (redraw dist ((healthy pool).length - 1) (dist ((healthy pool).length - 1) s.rng).1 fuel
        (dist ((healthy pool).length - 1) s.rng).2).map fun b =>
          (pick pool (healthy pool) (dist ((healthy pool).length - 1) s.rng).1 b.1, ⟨b.2⟩) := by
  rw [selectService, if_neg h]
  split
  · next h0 => simp [h0] at hl
  · next i h1 => simp [h1] at hl
  · rfl

/-- **`SelectService` returns** exactly when the stream ends its loop. -/
theorem exists_selectService_iff {dist : Distribution σ} {s : P2CStrategy σ} {pool : ServicePool} :
    (∃ fuel r, selectService dist fuel s pool = some r) ↔ Ends dist s pool := by
  have hsize : 1 < (healthy pool).length → pool.getSize ≠ 0 := by
    intro hl h0
    rw [healthy, h0] at hl
    simp at hl
  by_cases hl : 1 < (healthy pool).length
  · have hends : (∃ k, draw dist ((healthy pool).length - 1)
        (dist ((healthy pool).length - 1) s.rng).2 k ≠
          (dist ((healthy pool).length - 1) s.rng).1) ↔ Ends dist s pool :=
      ⟨fun h _ => h, fun h => h hl⟩
    refine Iff.trans ?_ (exists_redraw_iff.trans hends)
    constructor
    · rintro ⟨fuel, r, hr⟩
      rw [selectService_of_one_lt (hsize hl) hl] at hr
      obtain ⟨b, hb, -⟩ := Option.map_eq_some_iff.mp hr
      exact ⟨fuel, b, hb⟩
    · rintro ⟨fuel, b, hb⟩
      exact ⟨fuel, _, by rw [selectService_of_one_lt (hsize hl) hl, hb]; rfl⟩
  · refine iff_of_true ⟨0, ?_⟩ fun h => absurd h hl
    by_cases h0 : pool.getSize = 0
    · exact ⟨_, selectService_of_empty h0⟩
    · match h1 : healthy pool with
      | [] => exact ⟨_, selectService_of_nil h0 h1⟩
      | [i] => exact ⟨_, selectService_of_singleton h0 h1⟩
      | _ :: _ :: _ => simp [h1] at hl

/-- The draws keep the generator among the states of `I`, and from none of them on
is the stream constant. -/
structure Varies (dist : Distribution σ) (I : σ → Prop) : Prop where
  keeps : ∀ n rng, I rng → I (dist n rng).2
  ends : ∀ n rng, 0 < n → I rng → ∃ k, draw dist n rng (k + 1) ≠ draw dist n rng 0

theorem redraw_keeps {dist : Distribution σ} {I : σ → Prop} (h : Varies dist I) {n : Nat}
    {a : Fin (n + 1)} {b : Fin (n + 1) × σ} {fuel : Nat} {rng : σ} (hI : I rng)
    (hr : redraw dist n a fuel rng = some b) : I b.2 := by
  induction fuel generalizing rng with
  | zero => cases hr
  | succ fuel ih =>
    rw [redraw] at hr
    by_cases hb : (dist n rng).1 = a
    · rw [if_pos hb] at hr
      exact ih (h.keeps n rng hI) hr
    · rw [if_neg hb, Option.some.injEq] at hr
      exact hr ▸ h.keeps n rng hI

theorem selectService_keeps {dist : Distribution σ} {I : σ → Prop} (h : Varies dist I)
    {fuel : Nat} {s t : P2CStrategy σ} {pool : ServicePool}
    {r : Option (Except RoutingError Nat)} (hI : I s.rng)
    (hr : selectService dist fuel s pool = some (r, t)) : I t.rng := by
  unfold selectService at hr
  split at hr
  · cases hr
    exact hI
  · split at hr
    · cases hr
      exact hI
    · cases hr
      exact hI
    · obtain ⟨b, hb, he⟩ := Option.map_eq_some_iff.mp hr
      cases he
      exact redraw_keeps h (h.keeps _ _ hI) hb

def counting : Distribution Nat := fun n rng => (Fin.ofNat (n + 1) rng, rng + 1)

theorem varies_counting : Varies counting fun _ => True := by
  refine ⟨fun _ _ _ => trivial, ?_⟩
  intro n rng hn _
  refine ⟨0, fun h => ?_⟩
  have hmod : (rng + 1) % (n + 1) = rng % (n + 1) := congrArg Fin.val h
  have hone := Nat.sub_mod_eq_zero_of_mod_eq hmod
  rw [Nat.add_sub_cancel_left, Nat.mod_eq_of_lt (by omega)] at hone
  cases hone

theorem pick_spec {pool : ServicePool} {l : List Nat} {a b : Nat}
    (hl : ∀ i ∈ l, pool.healthyAt i = true) (ha : a < l.length) (hb : b < l.length) :
    ∃ i, pick pool l a b = some (.ok i) ∧ pool.healthyAt i = true := by
  have hi := hl _ (List.getElem_mem ha)
  have hj := hl _ (List.getElem_mem hb)
  obtain ⟨s, hs, -⟩ := ServicePool.healthyAt_eq_true.mp hi
  obtain ⟨t, ht, -⟩ := ServicePool.healthyAt_eq_true.mp hj
  simp only [pick, List.getElem?_eq_getElem ha, List.getElem?_eq_getElem hb, hs, ht,
    Option.bind_eq_bind, Option.bind_some]
  by_cases hle : s.activeConnections ≤ t.activeConnections
  · exact ⟨_, by rw [if_pos hle], hi⟩
  · exact ⟨_, by rw [if_neg hle], hj⟩

/-- **What the strategy selects**, when its draws end. -/
theorem selectService_spec {dist : Distribution σ} {fuel : Nat} {s t : P2CStrategy σ}
    {pool : ServicePool} {r : Option (Except RoutingError Nat)}
    (h : selectService dist fuel s pool = some (r, t)) :
    (∃ i, r = some (.ok i) ∧ pool.healthyAt i = true) ∨
      (∃ err, r = some (.error err)) ∧ ∀ i, pool.healthyAt i = false := by
  have hnone : healthy pool = [] → ∀ i, pool.healthyAt i = false := by
    intro hl i
    by_contra hi
    have := mem_healthy.mpr (by simpa using hi)
    rw [hl] at this
    cases this
  unfold selectService at h
  split at h
  · rename_i hsize
    cases h
    refine .inr ⟨⟨_, rfl⟩, hnone ?_⟩
    rw [healthy, hsize]
    rfl
  · split at h
    · rename_i hl
      cases h
      exact .inr ⟨⟨_, rfl⟩, hnone hl⟩
    · rename_i i hl
      cases h
      exact .inl ⟨i, rfl, mem_healthy.mp (by rw [hl]; exact List.mem_singleton_self i)⟩
    · rename_i l hne _
      obtain ⟨b, -, hb⟩ := Option.map_eq_some_iff.mp h
      cases hb
      have hpos : 0 < (healthy pool).length := List.length_pos_iff.mpr hne
      obtain ⟨i, hi, hh⟩ := pick_spec (l := healthy pool)
        (a := (dist ((healthy pool).length - 1) s.rng).1) (b := b.1)
        (fun i hi => mem_healthy.mp hi) (by omega) (by omega)
      exact .inl ⟨i, hi, hh⟩

end P2CStrategy

/-- `IRoutingStrategy`: one of the two. -/
inductive Strategy (σ : Type)
  | p2c (s : P2CStrategy σ)
  | consistentHash (s : ConsistentHashStrategy)
  deriving DecidableEq, Repr

namespace Strategy

variable {σ : Type}

def selectService (dist : Distribution σ) (fuel : Nat) (s : Strategy σ) (pool : ServicePool)
    (routingKey : Bytes) : Option (Option (Except RoutingError Nat) × Strategy σ) :=
  match s with
  | .p2c s => (s.selectService dist fuel pool).map fun r => (r.1, .p2c r.2)
  | .consistentHash s => some (s.selectService pool routingKey, .consistentHash s)

def BuiltOn (pool : ServicePool) : Strategy σ → Prop
  | .p2c _ => True
  | .consistentHash s => s.RingOf pool

theorem BuiltOn.congr {s : Strategy σ} {pool pool' : ServicePool} (h : s.BuiltOn pool)
    (hn : ∀ i, pool'.nameAt i = pool.nameAt i) : s.BuiltOn pool' := by
  cases s with
  | p2c s => exact trivial
  | consistentHash s => exact ConsistentHashStrategy.RingOf.congr h hn

/-- **Either strategy selects a healthy service**, unless there is none. -/
theorem selectService_spec {dist : Distribution σ} {fuel : Nat} {s t : Strategy σ}
    {pool : ServicePool} {routingKey : Bytes} {r : Option (Except RoutingError Nat)}
    (hs : s.BuiltOn pool) (h : s.selectService dist fuel pool routingKey = some (r, t)) :
    ((∃ i, r = some (.ok i) ∧ pool.healthyAt i = true) ∨
      (∃ err, r = some (.error err)) ∧ ∀ i, pool.healthyAt i = false) ∧ t.BuiltOn pool := by
  cases s with
  | p2c s =>
    obtain ⟨r', hr, he⟩ := Option.map_eq_some_iff.mp h
    cases he
    exact ⟨P2CStrategy.selectService_spec hr, trivial⟩
  | consistentHash s =>
    cases h
    exact ⟨ConsistentHashStrategy.selectService_total hs routingKey, hs⟩

/-- Two runs of the draws that both end select the same. -/
theorem selectService_unique {dist : Distribution σ} {fuel k : Nat} {s : Strategy σ}
    {pool : ServicePool} {routingKey : Bytes} {r r' : Option (Except RoutingError Nat) × Strategy σ}
    (h : s.selectService dist fuel pool routingKey = some r)
    (h' : s.selectService dist k pool routingKey = some r') : r = r' := by
  cases s with
  | p2c s =>
    obtain ⟨q, hq, rfl⟩ := Option.map_eq_some_iff.mp h
    obtain ⟨q', hq', rfl⟩ := Option.map_eq_some_iff.mp h'
    rw [P2CStrategy.selectService_unique hq hq']
  | consistentHash s => exact Option.some.inj (h.symm.trans h')

/-- The strategy returns: a hash ring always, and two choices when their draws end. -/
def Ends (dist : Distribution σ) (pool : ServicePool) : Strategy σ → Prop
  | .p2c s => s.Ends dist pool
  | .consistentHash _ => True

def In (I : σ → Prop) : Strategy σ → Prop
  | .p2c s => I s.rng
  | .consistentHash _ => True

theorem selectService_keeps {dist : Distribution σ} {I : σ → Prop} (h : P2CStrategy.Varies dist I)
    {fuel : Nat} {s t : Strategy σ} {pool : ServicePool} {routingKey : Bytes}
    {r : Option (Except RoutingError Nat)} (hI : s.In I)
    (hr : s.selectService dist fuel pool routingKey = some (r, t)) : t.In I := by
  cases s with
  | p2c s =>
    obtain ⟨q, hq, he⟩ := Option.map_eq_some_iff.mp hr
    cases he
    exact P2CStrategy.selectService_keeps h hI hq
  | consistentHash s =>
    cases hr
    exact trivial

theorem In.ends {dist : Distribution σ} {I : σ → Prop} (h : P2CStrategy.Varies dist I)
    {s : Strategy σ} (hI : s.In I) (pool : ServicePool) : s.Ends dist pool := by
  cases s with
  | p2c s =>
    intro hl
    exact h.ends _ _ (by omega) hI
  | consistentHash s => exact trivial

theorem exists_selectService_iff {dist : Distribution σ} {s : Strategy σ} {pool : ServicePool}
    {routingKey : Bytes} :
    (∃ fuel r, s.selectService dist fuel pool routingKey = some r) ↔ s.Ends dist pool := by
  cases s with
  | p2c s =>
    refine Iff.trans ?_ P2CStrategy.exists_selectService_iff
    constructor
    · rintro ⟨fuel, r, hr⟩
      obtain ⟨q, hq, -⟩ := Option.map_eq_some_iff.mp hr
      exact ⟨fuel, q, hq⟩
    · rintro ⟨fuel, q, hq⟩
      exact ⟨fuel, _, by rw [selectService, hq]; rfl⟩
  | consistentHash s => exact iff_of_true ⟨0, _, rfl⟩ trivial

end Strategy

end BitBridge
