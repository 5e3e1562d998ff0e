import BitBridge.LoadBalancer.AcceptLoop
import BitBridge.LoadBalancer.Counters

/-!
# Health-aware dispatch

The health checker sets the flags, either strategy reads them, and the proxy
takes the index it is given.  `Tracked` says that the flags follow the outcomes
of the probes in every state of the whole program, so what becomes of a
connection depends on the outcomes and not on the strategy.

* `health_aware_dispatch`: **a connection is dropped exactly when every service
  has failed as many probes in a row as the threshold asks**, and else it is
  bound to one that has not.
-/

namespace BitBridge.LoadBalancer

open Proactor Proxy Health Steps

variable {σ : Type} {E : Env σ} {s v : LoadBalancer σ} {e : Event}

structure Tracked (hc : HealthCheckConfig) (s : LoadBalancer σ) : Prop where
  config : ∀ c, s.checker = some c → c.config = hc
  tracks : Tracks hc.unhealthyThreshold s.pool s.outcomes

namespace Tracked

variable {hc : HealthCheckConfig}

theorem congr (h : s.Tracked hc) (hk : v.checker = s.checker) (hp : v.pool = s.pool)
    (ho : v.outcomes = s.outcomes) : v.Tracked hc :=
  ⟨hk ▸ h.config, hp ▸ ho ▸ h.tracks⟩

theorem incrementConnections (h : s.Tracked hc) (i : Nat) :
    (s.incrementConnections i).Tracked hc :=
  ⟨h.config, h.tracks.update i health_incrementConnections⟩

theorem decrementConnections (h : s.Tracked hc) (i : Nat) :
    (s.decrementConnections i).Tracked hc :=
  ⟨h.config, h.tracks.update i health_decrementConnections⟩

theorem setSession (h : s.Tracked hc) (k : Nat) (x : Session) : (s.setSession k x).Tracked hc := by
  have hset : Tracked hc { s with sessions := s.sessions.set k x } := h.congr rfl rfl rfl
  exact setSession_of_cases (P := fun v => v.Tracked hc) hset (hset.decrementConnections _)

theorem accepted {peer : Option Bytes} {fuel : Nat} {ec : ErrorCode} (h : s.Tracked hc)
    (ha : Accepted E s peer fuel ec v) : v.Tracked hc := by
  have hinc := fun i strategy => (h.congr (v := s.setStrategy strategy) rfl rfl
    rfl).incrementConnections i
  cases ha with
  | started hp hs hi hip => exact (hinc _ _).congr rfl rfl rfl
  | @refused _ i _ strategy hp hs hi hip =>
    have hadd : Tracked hc (((s.setStrategy strategy).incrementConnections i).addSession
        (.new i s.connectTimeoutMs s.idleTimeoutMs)) := (hinc i strategy).congr rfl rfl rfl
    exact (hadd.decrementConnections i).congr rfl rfl rfl
  | _ => exact h.congr rfl rfl rfl

theorem step (h : s.Tracked hc) (hs : s.step E e = some v) : v.Tracked hc := by
  cases stepped_of_step hs with
  | tick => exact h.congr rfl rfl rfl
  | complete => exact h.congr rfl rfl rfl
  | @accept ec _ _ _ _ _ ha =>
    have hd : (s.dequeue .accept ec).Tracked hc := h.congr rfl rfl rfl
    exact hd.accepted ha
  | signal =>
    unfold onSignal
    split
    · exact h.congr rfl rfl rfl
    · refine ⟨?_, h.tracks⟩
      intro c hk
      obtain ⟨c', hk', rfl⟩ := Option.map_eq_some_iff.mp hk
      exact h.config c' hk'
  | session => exact h.setSession _ _
  | @checker e c t _ hk ht =>
    obtain ⟨hpool, hconfig⟩ := HealthChecker.step_pool ht
    refine ⟨?_, ?_⟩
    · intro c' hk'
      obtain rfl := Option.some.inj hk'
      exact hconfig.trans (h.config c hk)
    · dsimp only
      rw [hpool, h.config c hk]
      exact h.tracks.step e
  | destroy => exact h.setSession _ _

end Tracked

theorem tracked_of_reaches {now : Nat} {nodes : List ServiceNode} {strategy : Strategy σ}
    {conn : ConnectionConfig} {hc : HealthCheckConfig}
    (h : Reaches (step E) (start now nodes strategy conn hc) s) : s.Tracked hc := by
  refine h.invariant (I := Tracked hc) ?_ fun hi _ hs => hi.step hs
  unfold start
  split
  · refine ⟨?_, tracks_ofNodes _ nodes⟩
    intro c hk
    obtain rfl := Option.some.inj hk
    exact HealthChecker.scheduleNextRound_config _ _
  · exact ⟨fun c hk => (nomatch hk), tracks_ofNodes _ nodes⟩

/-! ### What becomes of a connection -/

/-- The connection is closed, and nothing else has changed for it. -/
structure Dropped (s v : LoadBalancer σ) : Prop where
  sessions : v.sessions = s.sessions
  pool : v.pool = s.pool
  log : v.log = s.log ++ [.dropped, .asyncAccept]

/-- The connection is bound to the service `i`: it has a session there, the
count of `i` is one more, and nothing else of any service has changed. -/
structure Bound (s v : LoadBalancer σ) (i : Nat) : Prop where
  session : ∃ x, v.sessions = s.sessions ++ [x] ∧ x.backend = i ∧ x.pending ≠ []
  pool : ∀ j, v.pool.getService j = (s.pool.getService j).map fun svc =>
    if i = j then { svc with activeConnections := svc.activeConnections + 1 } else svc
  grows : (s.activeConnections i).toNat + 1 < 2 ^ 64 →
    (v.activeConnections i).toNat = (s.activeConnections i).toNat + 1

/-- The service has failed as many probes in a row as it takes to be unhealthy. -/
def Exhausted (hc : HealthCheckConfig) (s : LoadBalancer σ) (i : Nat) : Prop :=
  max 1 hc.unhealthyThreshold.toNat ≤ failedRun s.outcomes i

theorem Dropped.not_bound {i : Nat} (h : Dropped s v) : ¬ Bound s v i := by
  rintro ⟨⟨x, hx, -⟩, -, -⟩
  have hlen := congrArg List.length (h.sessions.symm.trans hx)
  rw [List.length_append, List.length_singleton] at hlen
  exact absurd hlen (Nat.succ_ne_self _).symm

theorem Bound.unique {i j : Nat} (hi : Bound s v i) (hj : Bound s v j) : i = j := by
  obtain ⟨x, hx, rfl, -⟩ := hi.session
  obtain ⟨y, hy, rfl, -⟩ := hj.session
  rw [hx, List.append_cancel_left_eq, List.singleton_inj] at hy
  rw [hy]

section Run

variable {now : Nat} {nodes : List ServiceNode} {strategy : Strategy σ} {conn : ConnectionConfig}
  {hc : HealthCheckConfig}

/-- **The flags and the outcomes.**  A service is healthy while it is not exhausted. -/
theorem healthyAt_iff (h : Reaches (step E) (start now nodes strategy conn hc) s) {i : Nat} :
    s.pool.healthyAt i = true ↔ i < nodes.length ∧ ¬ Exhausted hc s i := by
  have hn := node_of_reaches h i
  rw [ServicePool.healthyAt_eq_true]
  constructor
  · rintro ⟨svc, hi, hh⟩
    rw [hi] at hn
    refine ⟨(List.getElem?_eq_some_iff.mp hn.symm).1, fun hx => ?_⟩
    rw [((tracked_of_reaches h).tracks i svc hi).healthy.mpr hx] at hh
    cases hh
  · rintro ⟨hi, hx⟩
    rw [List.getElem?_eq_getElem hi] at hn
    obtain ⟨svc, hsvc, -⟩ := Option.map_eq_some_iff.mp hn
    refine ⟨svc, hsvc, ?_⟩
    by_contra hh
    exact hx (((tracked_of_reaches h).tracks i svc hsvc).healthy.mp (by simpa using hh))

theorem dropped_or_bound (hb : strategy.BuiltOn (.ofNodes nodes))
    (h : Reaches (step E) (start now nodes strategy conn hc) s) {key : Bytes} {fuel : Nat}
    (hs : s.step E (.accept .success (some key) fuel) = some v)
    (hcan : CanServe E s .success (some key)) :
    (∀ i < nodes.length, Exhausted hc s i) ∧ Dropped s v ∨
      ∃ i < nodes.length, ¬ Exhausted hc s i ∧ Bound s v i := by
  have hbs := builtOn_of_reaches hb h
  cases stepped_of_step hs with
  | accept _ _ ha =>
    cases ha with
    | failed hf => cases hf
    | gone hp => cases hp
    | lost hp hsel hi he => exact (not_lost (s := s) hbs hsel hi he).elim
    | dropped hp hsel =>
      refine .inl ⟨?_, rfl, rfl, List.append_assoc s.log _ _⟩
      intro i hi
      rcases (Strategy.selectService_spec (s := s.strategy) hbs hsel).1 with ⟨i, he, -⟩ | ⟨-, hall⟩
      · cases he
      · by_contra hx
        have := (healthyAt_iff h).mpr ⟨hi, hx⟩
        rw [show s.pool.healthyAt i = false from hall i] at this
        cases this
    | @started _ i svc strategy' hp hsel hi hip =>
      rcases (Strategy.selectService_spec (s := s.strategy) hbs hsel).1 with
        ⟨j, he, hh⟩ | ⟨⟨err, he⟩, -⟩
      · cases he
        obtain ⟨hlt, hx⟩ := (healthyAt_iff h).mp hh
        refine .inr ⟨i, hlt, hx, ⟨_, rfl, rfl, Session.started_ne_nil _ _ _ _⟩,
          fun j => ServicePool.getService_update _ i j _, ?_⟩
        intro hroom
        show ((((s.dequeue .accept .success).setStrategy strategy').incrementConnections
          i).activeConnections i).toNat = _
        rw [activeConnections_increment ((s.dequeue .accept .success).setStrategy strategy')
          (ServicePool.getService_eq_some_lt hi), if_pos rfl, UInt64.toNat_add]
        exact Nat.mod_eq_of_lt hroom
      · cases he
    | refused hp hsel hi hip =>
      cases hp
      exact absurd hcan (not_canServe (s := s) hsel hi hip)

/-- **Health-aware dispatch.**  For a connection that can be served `OnAccept`
returns when the strategy does, and the connection is dropped exactly when every
service is exhausted; else it is bound to exactly one service, and that one is
not.  So two programs with the same outcomes drop the same connections, whatever
their strategies. -/
theorem health_aware_dispatch (hb : strategy.BuiltOn (.ofNodes nodes))
    (h : Reaches (step E) (start now nodes strategy conn hc) s) (hr : s.running = true)
    (hm : ⟨.accept, .queued .success 0⟩ ∈ s.pending) {key : Bytes}
    (hcan : CanServe E s .success (some key)) :
    (s.strategy.Ends E.dist s.pool →
      ∃ fuel v, s.step E (.accept .success (some key) fuel) = some v) ∧
    ∀ fuel v, s.step E (.accept .success (some key) fuel) = some v →
      (Dropped s v ↔ ∀ i < nodes.length, Exhausted hc s i) ∧
      ((¬ ∀ i < nodes.length, Exhausted hc s i) →
        ∃! i, Bound s v i ∧ i < nodes.length ∧ ¬ Exhausted hc s i) ∧
      ∀ (strategy' : Strategy σ) (s' v' : LoadBalancer σ) (key' : Bytes) (fuel' : Nat),
        strategy'.BuiltOn (.ofNodes nodes) →
        Reaches (step E) (start now nodes strategy' conn hc) s' → s'.outcomes = s.outcomes →
        s'.step E (.accept .success (some key') fuel') = some v' →
        CanServe E s' .success (some key') → (Dropped s v ↔ Dropped s' v') := by
  have hiff : ∀ {strategy : Strategy σ} {s v : LoadBalancer σ} {key : Bytes} {fuel : Nat},
      strategy.BuiltOn (.ofNodes nodes) →
      Reaches (step E) (start now nodes strategy conn hc) s →
      s.step E (.accept .success (some key) fuel) = some v →
      CanServe E s .success (some key) →
      (Dropped s v ↔ ∀ i < nodes.length, Exhausted hc s i) := by
    intro strategy s v key fuel hb h hs hcan
    rcases dropped_or_bound hb h hs hcan with ⟨hall, hd⟩ | ⟨i, hi, hx, hbound⟩
    · exact ⟨fun _ => hall, fun _ => hd⟩
    · exact ⟨fun hd => absurd hbound hd.not_bound, fun hall => absurd (hall i hi) hx⟩
  refine ⟨fun hends => exists_step_accept hends hr hm _, ?_⟩
  intro fuel v hs
  refine ⟨hiff hb h hs hcan, ?_, ?_⟩
  · intro hn
    obtain ⟨i, hi, hx, hbd⟩ := (dropped_or_bound hb h hs hcan).resolve_left fun hd => hn hd.1
    exact ⟨i, ⟨hbd, hi, hx⟩, fun j hj => hj.1.unique hbd⟩
  · intro strategy' s' v' key' fuel' hb' h' ho hs' hcan'
    refine (hiff hb h hs hcan).trans (Iff.trans ?_ (hiff hb' h' hs' hcan').symm)
    simp only [Exhausted, ho]

end Run

/-- One failed probe makes a service unhealthy.  While the second of two services
has not failed, a connection is bound to it; once it has, one is dropped. -/
theorem health_aware_dispatch_failed :
    let E : Env Nat := ⟨fun _ => true, P2CStrategy.counting⟩
    let hc : HealthCheckConfig := { intervalMs := 0, unhealthyThreshold := 1 }
    let first : List Event :=
      [.checker (.complete .round .success), .checker (.dispatch .round .success),
        .checker (.complete (.connect 0 0) (.other 111)),
        .checker (.dispatch (.connect 0 0) (.other 111)), .complete .accept .success]
    let second : List Event :=
      [.checker (.complete (.connect 1 1) (.other 111)),
        .checker (.dispatch (.connect 1 1) (.other 111))]
    ∃ (s v t w : LoadBalancer Nat) (fuel fuel' : Nat),
      run (step E) (start 0 [{}, {}] (.p2c ⟨0⟩) {} hc) first = some s ∧
      s.step E (.accept .success (some []) fuel) = some v ∧ Bound s v 1 ∧
      run (step E) s second = some t ∧
      t.step E (.accept .success (some []) fuel') = some w ∧ Dropped t w := by
  intro E hc first second
  have hb : (Strategy.p2c ⟨0⟩ : Strategy Nat).BuiltOn (.ofNodes [{}, {}]) := trivial
  have hrun : ((run (step E) (start 0 [{}, {}] (.p2c ⟨0⟩) {} hc) first).bind fun s =>
      (run (step E) s second).map fun t => decide ((s.running = true ∧ t.running = true) ∧
        (⟨.accept, .queued .success 0⟩ ∈ s.pending ∧ ⟨.accept, .queued .success 0⟩ ∈ t.pending) ∧
        s.outcomes = [⟨0, 0, true⟩] ∧ t.outcomes = [⟨0, 0, true⟩, ⟨1, 1, true⟩])) =
      some true := by decide +kernel
  obtain ⟨s, hs, hrest⟩ := Option.bind_eq_some_iff.mp hrun
  obtain ⟨t, ht, hall⟩ := Option.map_eq_some_iff.mp hrest
  obtain ⟨⟨hrs, hrt⟩, ⟨hms, hmt⟩, hos, hot⟩ := of_decide_eq_true hall
  have hreach := reaches_of_run hs
  have hreach' := hreach.trans (reaches_of_run ht)
  have hstart : Strategy.In (fun _ => True) (Strategy.p2c ⟨0⟩ : Strategy Nat) := trivial
  have hcan : ∀ u : LoadBalancer Nat, CanServe E u .success (some []) :=
    fun _ => .inr ⟨[], rfl, fun _ _ _ _ _ _ => rfl⟩
  obtain ⟨hend, hbound⟩ := health_aware_dispatch hb hreach hrs hms (hcan s)
  obtain ⟨hend', hdrop⟩ := health_aware_dispatch hb hreach' hrt hmt (hcan t)
  obtain ⟨fuel, v, hv⟩ := hend (ends_of_reaches P2CStrategy.varies_counting hstart hreach)
  obtain ⟨fuel', w, hw⟩ := hend' (ends_of_reaches P2CStrategy.varies_counting hstart hreach')
  have hone : ¬ Exhausted hc s 1 := by
    rw [Exhausted, hos]
    decide
  have hall : ∀ i < 2, Exhausted hc t i := by
    intro i hi
    rw [Exhausted, hot]
    revert i
    decide
  obtain ⟨i, ⟨hbd, hi, hx⟩, -⟩ := (hbound fuel v hv).2.1 fun h => hone (h 1 (by decide))
  have h0 : Exhausted hc s 0 := by
    rw [Exhausted, hos]
    decide
  have hi2 : i < 2 := hi
  obtain rfl : i = 1 := by
    have hne : i ≠ 0 := by
      rintro rfl
      exact hx h0
    omega
  exact ⟨s, v, t, w, fuel, fuel', hs, hv, hbd, ht, hw, (hdrop fuel' w hw).1.mpr hall⟩

end BitBridge.LoadBalancer
