import BitBridge.LoadBalancer.Counters

/-!
# The connection limit

`ConnectionConfig` has `maxPerService`, which is loaded, saved and edited, but
`main` hands only the two timeouts to the proxy, and neither `OnAccept` nor a
strategy looks at a limit.

* `active_of_step`: what a step does to the counters.
* `connection_limit`: **the limit holds as long as no connection is bound to a
  service that is full**, and the step that binds one breaks it.
* `limit_ignored`: the first two connections of a service break a limit of 1.
-/

namespace BitBridge.LoadBalancer

open Proactor Proxy Health Steps

variable {σ : Type} {E : Env σ} {s v : LoadBalancer σ} {e : Event} {m : UInt32}

def WithinLimit (m : UInt32) (pool : ServicePool) : Prop :=
  ∀ i svc, pool.getService i = some svc → svc.activeConnections.toNat ≤ m.toNat

def Binds (E : Env σ) (s : LoadBalancer σ) (e : Event) (i : Nat) : Prop :=
  ∃ key fuel strategy svc, e = .accept .success (some key) fuel ∧
    s.strategy.selectService E.dist fuel s.pool key = some (some (.ok i), strategy) ∧
    s.pool.getService i = some svc ∧ E.isIpLiteral svc.node.ip = true

/-- A connection is only bound to a service with fewer than `m` connections. -/
def BelowLimit (E : Env σ) (m : UInt32) (s : LoadBalancer σ) (e : Event) : Prop :=
  ∀ i, Binds E s e i → (s.activeConnections i).toNat < m.toNat

theorem not_binds (he : ∀ key fuel, e ≠ .accept .success (some key) fuel) (i : Nat) :
    ¬Binds E s e i := fun ⟨key, fuel, _, _, h, _⟩ => he key fuel h

theorem withinLimit_iff :
    WithinLimit m s.pool ↔ ∀ i, (s.activeConnections i).toNat ≤ m.toNat := by
  constructor
  · intro h i
    rw [activeConnections]
    split
    · next svc hi => exact h i svc hi
    · exact Nat.zero_le _
  · intro h i svc hi
    rw [← activeConnections_of_getService hi]
    exact h i

/-! ### One step -/

theorem active_setSession (s : LoadBalancer σ) (k : Nat) (x : Session) (j : Nat) :
    ((s.setSession k x).activeConnections j).toNat ≤ (s.activeConnections j).toNat := by
  unfold setSession
  dsimp only
  split
  · rw [activeConnections_decrement]
    split
    · next h =>
      rw [UInt64.toNat_sub_of_le _ _ (by
        rw [UInt64.le_iff_toNat_le]
        exact UInt64.lt_iff_toNat_lt.mp h.2)]
      exact Nat.sub_le _ _
    · exact Nat.le_refl _
  · exact Nat.le_refl _

/-- The increment that is taken back leaves no count higher, not even when it
wraps. -/
theorem active_refuse (s : LoadBalancer σ) {i : Nat} (hi : i < s.pool.getSize) (x : Session)
    (j : Nat) :
    ((((s.incrementConnections i).addSession x).decrementConnections i).activeConnections j).toNat ≤
      (s.activeConnections j).toNat := by
  rw [activeConnections_decrement]
  show (if i = j ∧ 0 < (s.incrementConnections i).activeConnections j then
    (s.incrementConnections i).activeConnections j - 1
    else (s.incrementConnections i).activeConnections j).toNat ≤ _
  rw [activeConnections_increment s hi]
  by_cases hij : i = j
  · simp only [hij, true_and, if_true]
    split
    · rw [UInt64.add_sub_cancel]
    · next h =>
      rw [UInt64.pos_iff_ne_zero, not_not] at h
      rw [h]
      exact Nat.zero_le _
  · simp [hij]

theorem active_accepted {peer : Option Bytes} {fuel : Nat} {ec : ErrorCode}
    (h : Accepted E s peer fuel ec v) :
    (∃ i, Binds E s (.accept ec peer fuel) i ∧ ∀ j, v.activeConnections j =
      if i = j then s.activeConnections j + 1 else s.activeConnections j) ∨
    (∀ i, ¬Binds E s (.accept ec peer fuel) i) ∧
      ∀ j, (v.activeConnections j).toNat ≤ (s.activeConnections j).toNat := by
  cases h with
  | aborted => exact .inr ⟨not_binds fun _ _ => nofun, fun j => Nat.le_refl _⟩
  | failed hec =>
    refine .inr ⟨not_binds ?_, fun j => Nat.le_refl _⟩
    rintro key fuel he
    cases he
    cases hec
  | gone hp =>
    refine .inr ⟨not_binds ?_, fun j => Nat.le_refl _⟩
    rintro key fuel he
    cases he
    cases hp
  | lost hp hs hr he =>
    refine .inr ⟨?_, fun j => Nat.le_refl _⟩
    rintro i ⟨_, _, _, svc, heq, hs', hi, -⟩
    cases heq
    cases hp
    rw [hs, Option.some.injEq, Prod.mk.injEq] at hs'
    rw [hr i hs'.1] at hi
    cases hi
  | dropped hp hs =>
    refine .inr ⟨?_, fun j => Nat.le_refl _⟩
    rintro i ⟨_, _, _, svc, heq, hs', -⟩
    cases heq
    cases hp
    rw [hs] at hs'
    cases hs'
  | @started key i svc strategy hp hs hi hip =>
    refine .inl ⟨i, ⟨key, fuel, strategy, svc, by rw [hp], hs, hi, hip⟩, ?_⟩
    exact activeConnections_increment (s.setStrategy strategy)
      (ServicePool.getService_eq_some_lt hi)
  | @refused key i svc strategy hp hs hi hip =>
    refine .inr ⟨?_, ?_⟩
    · rintro j ⟨_, _, _, svc', heq, hs', hj, hip'⟩
      cases heq
      cases hp
      rw [hs] at hs'
      cases hs'
      rw [hi] at hj
      cases hj
      rw [hip] at hip'
      cases hip'
    · exact active_refuse (s.setStrategy strategy) (ServicePool.getService_eq_some_lt hi) _

/-- **What a step does to the counters.**  A connection that is bound adds one
to its service; no other step adds to a counter. -/
theorem active_of_step (h : s.step E e = some v) :
    (∃ i, Binds E s e i ∧ ∀ j, v.activeConnections j =
      if i = j then s.activeConnections j + 1 else s.activeConnections j) ∨
    (∀ i, ¬Binds E s e i) ∧
      ∀ j, (v.activeConnections j).toNat ≤ (s.activeConnections j).toNat := by
  cases stepped_of_step h with
  | @accept ec _ _ _ _ _ ha => exact active_accepted (s := s.dequeue .accept ec) ha
  | tick => exact .inr ⟨not_binds fun _ _ => nofun, fun j => Nat.le_refl _⟩
  | complete => exact .inr ⟨not_binds fun _ _ => nofun, fun j => Nat.le_refl _⟩
  | signal =>
    refine .inr ⟨not_binds fun _ _ => nofun, fun j => ?_⟩
    unfold onSignal
    split <;> exact Nat.le_refl _
  | session =>
    exact .inr ⟨not_binds fun _ _ => nofun, active_setSession _ _ _⟩
  | @checker e _ _ _ _ ht =>
    refine .inr ⟨not_binds fun _ _ => nofun, fun j => ?_⟩
    rw [activeConnections_eq, activeConnections_eq, (HealthChecker.step_pool ht).1]
    exact (congrArg (fun x => (x.getD 0).toNat)
      (map_getService_effect s.pool e j (activeConnections_probed _))).le
  | destroy =>
    exact .inr ⟨not_binds fun _ _ => nofun, active_setSession _ _ _⟩

/-- **The step that breaks the limit** is the one that binds a connection to a
service that is full. -/
theorem withinLimit_step_iff (hm : WithinLimit m s.pool) (h : s.step E e = some v) :
    WithinLimit m v.pool ↔ BelowLimit E m s e := by
  rw [withinLimit_iff] at hm ⊢
  have h32 := m.toNat_lt
  rcases active_of_step h with ⟨i, hi, hv⟩ | ⟨hnone, hle⟩
  · have hadd : (s.activeConnections i + 1).toNat = (s.activeConnections i).toNat + 1 := by
      rw [UInt64.toNat_add]
      exact Nat.mod_eq_of_lt (by have := hm i; simp only [UInt64.toNat_one]; omega)
    constructor
    · rintro hw j ⟨key, fuel, strategy, svc, he, hs, -⟩
      obtain ⟨_, _, _, _, rfl, hs', -⟩ := hi
      cases he
      rw [hs] at hs'
      cases hs'
      have := hw i
      rw [hv, if_pos rfl, hadd] at this
      exact this
    · intro hb j
      rw [hv]
      split
      · next hij =>
        subst hij
        rw [hadd]
        exact hb i hi
      · exact hm j
  · exact ⟨fun _ i hi => absurd hi (hnone i), fun _ j => (hle j).trans (hm j)⟩

/-! ### Every run -/

section Run

variable {now : Nat} {nodes : List ServiceNode} {strategy : Strategy σ} {conn : ConnectionConfig}
  {hc : HealthCheckConfig}

theorem withinLimit_start : WithinLimit m (start now nodes strategy conn hc).pool := by
  have h : WithinLimit m (.ofNodes nodes) := by
    intro i svc hi
    rw [ServicePool.getService_ofNodes] at hi
    obtain ⟨node, -, rfl⟩ := Option.map_eq_some_iff.mp hi
    exact Nat.zero_le _
  unfold start
  split <;> exact h

/-- **The connection limit.**  In a run in which no connection is bound to a
service that has `maxPerService` connections already, no service ever has more;
and from any state of such a run, the limit still holds after a step exactly
when the step is no such binding either. -/
theorem connection_limit (h : ReachesIn (step E) (BelowLimit E conn.maxPerService)
    (start now nodes strategy conn hc) s) :
    WithinLimit conn.maxPerService s.pool ∧ ∀ e v, s.step E e = some v →
      (WithinLimit conn.maxPerService v.pool ↔ BelowLimit E conn.maxPerService s e) := by
  have hw : WithinLimit conn.maxPerService s.pool :=
    h.invariant (I := fun s => WithinLimit conn.maxPerService s.pool) withinLimit_start
      fun hi hok hs => (withinLimit_step_iff hi hs).mpr hok
  exact ⟨hw, fun e v hs => withinLimit_step_iff hw hs⟩

end Run

/-- One address, two connections, and one service with a limit of 1. -/
def twoAccepts : List Event :=
  [.complete .accept .success, .accept .success (some []) 0,
    .complete .accept .success, .accept .success (some []) 0]

/-- The first of the two connections is within the limit. -/
theorem connection_limit_one : ∃ v : LoadBalancer Unit,
    run (step ⟨fun _ => true, fun _ rng => (0, rng)⟩)
      (start 0 [{}] (.p2c ⟨()⟩) { maxPerService := 1 } {}) (twoAccepts.take 2) = some v ∧
    WithinLimit 1 v.pool := by
  let E : Env Unit := ⟨fun _ => true, fun _ rng => (0, rng)⟩
  obtain ⟨u, v, hu, hv, hzero⟩ : ∃ u v : LoadBalancer Unit,
      step E (start 0 [{}] (.p2c ⟨()⟩) { maxPerService := 1 } {})
        (.complete .accept .success) = some u ∧
      step E u (.accept .success (some []) 0) = some v ∧ u.pool = ⟨[⟨{}, 0, true, 0⟩]⟩ :=
    ⟨_, _, rfl, rfl, rfl⟩
  have hbelow : BelowLimit E 1 u (.accept .success (some []) 0) := by
    rintro i -
    rw [activeConnections_eq, hzero]
    cases i <;> exact Nat.zero_lt_one
  have hfirst : BelowLimit E 1 (start 0 [{}] (.p2c ⟨()⟩) { maxPerService := 1 } {})
      (.complete .accept .success) := by
    rintro i ⟨_, _, _, _, he, -⟩
    cases he
  have hreach : ReachesIn (step E) (BelowLimit E ({ maxPerService := 1 } : ConnectionConfig).1)
      (start 0 [{}] (.p2c ⟨()⟩) { maxPerService := 1 } {}) v :=
    .tail (.single hfirst hu) hbelow hv
  refine ⟨v, ?_, (connection_limit hreach).1⟩
  rw [twoAccepts, List.take_succ_cons, List.take_succ_cons, List.take_zero, run, hu,
    Option.bind_some, run, hv]
  rfl

/-- The limit is not looked at: the second connection is bound as well. -/
theorem limit_ignored : ¬∀ (σ : Type) (E : Env σ) (now : Nat) (nodes : List ServiceNode)
    (strategy : Strategy σ) (conn : ConnectionConfig) (hc : HealthCheckConfig)
    (s : LoadBalancer σ), Reaches (step E) (start now nodes strategy conn hc) s →
      WithinLimit conn.maxPerService s.pool := by
  intro h
  obtain ⟨v, hv, svc, hsvc, hn⟩ : ∃ v : LoadBalancer Unit,
      run (step ⟨fun _ => true, fun _ rng => (0, rng)⟩)
        (start 0 [{}] (.p2c ⟨()⟩) { maxPerService := 1 } {}) twoAccepts = some v ∧
      ∃ svc, v.pool.getService 0 = some svc ∧ svc.activeConnections = 2 :=
    ⟨_, rfl, _, rfl, rfl⟩
  have := h Unit _ 0 [{}] (.p2c ⟨()⟩) { maxPerService := 1 } {} v (reaches_of_run hv) 0 svc hsvc
  rw [hn] at this
  exact absurd this (by decide)

end BitBridge.LoadBalancer
