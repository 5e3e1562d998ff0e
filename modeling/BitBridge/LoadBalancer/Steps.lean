import BitBridge.LoadBalancer.System

/-!
# What a step of the load balancer can do

* `Accepted`: **the exits of `OnAccept`**, each with what it leaves behind.
* `Stepped`: **the steps**, each with what it asks for and leaves behind
  (`stepped_of_step`).
* `exists_step_accept`: an accept that is queued can be handled.
* `node_step`, `builtOn_of_reaches`: no step changes what a service is, so the
  strategy stays built on the pool.
* `ends_of_reaches`: the strategy returns in every state of a run, if the stream
  of no state that its generator reaches is constant.
-/

namespace BitBridge.LoadBalancer

open Proactor Proxy Health Steps

variable {σ : Type} {E : Env σ} {s v : LoadBalancer σ} {e : Event}

/-! ### The exits of `OnAccept` -/

/-- What `OnAccept` leaves behind, by the exit it takes. -/
inductive Accepted (E : Env σ) (s : LoadBalancer σ) (peer : Option Bytes) (fuel : Nat) :
    ErrorCode → LoadBalancer σ → Prop
  | aborted : Accepted E s peer fuel .operationAborted s
  | failed {ec : ErrorCode} (hec : ec.failed = true) (hne : ec ≠ .operationAborted) :
    Accepted E s peer fuel ec s.acceptNext
  | gone (hp : peer = none) : Accepted E s peer fuel .success s.throw
  | lost {key : Bytes} {r : Option (Except RoutingError Nat)} {strategy : Strategy σ}
    (hp : peer = some key)
    (hs : s.strategy.selectService E.dist fuel s.pool key = some (r, strategy))
    (hr : ∀ i, r = some (.ok i) → s.pool.getService i = none) (he : ∀ err, r ≠ some (.error err)) :
    Accepted E s peer fuel .success (s.setStrategy strategy).throw
  | dropped {key : Bytes} {err : RoutingError} {strategy : Strategy σ} (hp : peer = some key)
    (hs : s.strategy.selectService E.dist fuel s.pool key = some (some (.error err), strategy)) :
    Accepted E s peer fuel .success (s.setStrategy strategy).drop.acceptNext
  | started {key : Bytes} {i : Nat} {svc : ServiceState} {strategy : Strategy σ}
    (hp : peer = some key)
    (hs : s.strategy.selectService E.dist fuel s.pool key = some (some (.ok i), strategy))
    (hi : s.pool.getService i = some svc) (hip : E.isIpLiteral svc.node.ip = true) :
    Accepted E s peer fuel .success
      (((s.setStrategy strategy).incrementConnections i).addSession
        (.started s.now i s.connectTimeoutMs s.idleTimeoutMs)).acceptNext
  | refused {key : Bytes} {i : Nat} {svc : ServiceState} {strategy : Strategy σ}
    (hp : peer = some key)
    (hs : s.strategy.selectService E.dist fuel s.pool key = some (some (.ok i), strategy))
    (hi : s.pool.getService i = some svc) (hip : E.isIpLiteral svc.node.ip = false) :
    Accepted E s peer fuel .success
      ((((s.setStrategy strategy).incrementConnections i).addSession
        (.new i s.connectTimeoutMs s.idleTimeoutMs)).decrementConnections i).throw

theorem accepted_of_onAccept {ec : ErrorCode} {peer : Option Bytes} {fuel : Nat}
    (h : s.onAccept E ec peer fuel = some v) : Accepted E s peer fuel ec v := by
  unfold onAccept at h
  split at h
  · next hec =>
    obtain rfl := Option.some.inj h
    subst hec
    exact .aborted
  · next hne =>
    split at h
    · next hec =>
      obtain rfl := Option.some.inj h
      exact .failed hec hne
    · next hec =>
      obtain rfl : ec = .success := ErrorCode.failed_eq_false.mp (by simpa using hec)
      split at h
      · obtain rfl := Option.some.inj h
        exact .gone rfl
      · next key =>
        obtain ⟨⟨r, strategy⟩, hr, rfl⟩ := Option.map_eq_some_iff.mp h
        rcases r with _ | err | i
        · exact .lost rfl hr (fun i hi => nomatch hi) (fun err he => nomatch he)
        · exact .dropped rfl hr
        · rw [onSelected]
          split
          · next hi =>
            refine .lost rfl hr ?_ (fun err he => nomatch he)
            intro j hj
            cases hj
            exact hi
          · next svc hi =>
            rw [startSession, Session.start_new]
            cases hip : E.isIpLiteral svc.node.ip with
            | true => exact .started rfl hr hi hip
            | false => exact .refused rfl hr hi hip

/-! ### The steps -/

inductive Stepped (E : Env σ) (s : LoadBalancer σ) : Event → LoadBalancer σ → Prop
  | tick (hr : s.running = true) : Stepped E s .tick { s with now := s.now + 1 }
  | complete {op : Op} {ec : ErrorCode} (hr : s.running = true) (hm : ⟨op, .waiting⟩ ∈ s.pending)
    (hmay : mayComplete op ec = true) :
    Stepped E s (.complete op ec) { s with pending := resolve s.pending op ec 0 }
  | accept {ec : ErrorCode} {peer : Option Bytes} {fuel : Nat} {v : LoadBalancer σ}
    (hr : s.running = true) (hm : ⟨.accept, .queued ec 0⟩ ∈ s.pending)
    (ha : Accepted E (s.dequeue .accept ec) peer fuel ec v) : Stepped E s (.accept ec peer fuel) v
  | signal {ec : ErrorCode} (hr : s.running = true) (hm : ⟨.signal, .queued ec 0⟩ ∈ s.pending) :
    Stepped E s (.signal ec) ((s.dequeue .signal ec).onSignal ec)
  | session {k : Nat} {e : Session.Event} {x y : Session} (hr : s.running = true)
    (hx : s.sessions[k]? = some x) (hy : x.step s.now e = some y) :
    Stepped E s (.session k e) (s.setSession k y)
  | checker {e : HealthChecker.Event} {c : HealthChecker} {t : Turn} (hr : s.running = true)
    (hc : s.checker = some c) (ht : c.step E.isIpLiteral s.now s.pool e = some t) :
    Stepped E s (.checker e)
      { s with
        pool := t.pool
        checker := some t.checker
        running := !t.threw
        outcomes := note s.outcomes e }
  | destroy {k : Nat} {p : Pending Proxy.Op} {x : Session} (hr : s.running = false)
    (hx : s.sessions[k]? = some x) (hp : p ∈ x.pending) :
    Stepped E s (.destroy k p) (s.setSession k { x with pending := x.pending.erase p })

theorem stepped_of_turn (hr : s.running = true) (h : s.turn E e = some v) : Stepped E s e v := by
  cases e with
  | tick =>
    obtain rfl := Option.some.inj h
    exact .tick hr
  | complete op ec =>
    rw [turn, Option.ite_none_right_eq_some] at h
    obtain ⟨⟨hm, hmay⟩, h⟩ := h
    obtain rfl := Option.some.inj h
    exact .complete hr hm hmay
  | accept ec peer fuel =>
    rw [turn, Option.ite_none_right_eq_some] at h
    exact .accept hr h.1 (accepted_of_onAccept h.2)
  | signal ec =>
    rw [turn, Option.ite_none_right_eq_some] at h
    obtain ⟨hm, h⟩ := h
    obtain rfl := Option.some.inj h
    exact .signal hr hm
  | session k e =>
    simp only [turn, Option.bind_eq_bind, Option.bind_eq_some_iff, Option.some.injEq] at h
    obtain ⟨x, hx, y, hy, rfl⟩ := h
    exact .session hr hx hy
  | checker e =>
    simp only [turn, Option.bind_eq_bind, Option.bind_eq_some_iff, Option.some.injEq] at h
    obtain ⟨c, hc, t, ht, rfl⟩ := h
    exact .checker hr hc ht
  | destroy k p => cases h

theorem stepped_of_unwind (hr : s.running = false) (h : s.unwind e = some v) :
    Stepped E s e v := by
  cases e with
  | destroy k p =>
    simp only [unwind, Option.bind_eq_bind, Option.bind_eq_some_iff, Option.some.injEq] at h
    obtain ⟨x, hx, x', hx', rfl⟩ := h
    obtain ⟨hp, rfl⟩ := Session.of_discard hx'
    exact .destroy hr hx hp
  | _ => cases h

/-- **The form of every step.** -/
theorem stepped_of_step (h : s.step E e = some v) : Stepped E s e v := by
  unfold step at h
  split at h
  · next hr => exact stepped_of_turn hr h
  · next hr => exact stepped_of_unwind (by simpa using hr) h

/-- **A queued accept is handled**, whoever connects, when the strategy returns. -/
theorem exists_step_accept {ec : ErrorCode} (hends : s.strategy.Ends E.dist s.pool)
    (hr : s.running = true) (hm : ⟨.accept, .queued ec 0⟩ ∈ s.pending) (peer : Option Bytes) :
    ∃ fuel v, s.step E (.accept ec peer fuel) = some v := by
  obtain ⟨fuel, r, hsel⟩ : ∃ fuel r,
      s.strategy.selectService E.dist fuel s.pool (peer.getD []) = some r :=
    Strategy.exists_selectService_iff.mpr hends
  have hsome : ((s.dequeue .accept ec).onAccept E ec peer fuel).isSome := by
    unfold onAccept
    split
    · rfl
    · split
      · rfl
      · cases peer with
        | none => rfl
        | some key =>
          have hsel' : (s.dequeue .accept ec).strategy.selectService E.dist fuel
              (s.dequeue .accept ec).pool key = some r := hsel
          simp only [hsel', Option.map_some, Option.isSome_some]
  obtain ⟨v, hv⟩ := Option.isSome_iff_exists.mp hsome
  exact ⟨fuel, v, by rw [step, if_pos hr, turn, if_pos hm, hv]⟩

theorem pending_ne_nil_of_step {x y : Session} {now : Nat} {e : Session.Event}
    (h : x.step now e = some y) : x.pending ≠ [] := by
  intro hx
  cases e with
  | complete op ec =>
    have := (Session.of_step_complete h).1
    rw [hx] at this
    cases this
  | recv d chunk =>
    have := (Session.of_step_recv h).1
    rw [hx] at this
    cases this
  | send d bytes sent k =>
    have := (Session.of_step_send h).1
    rw [hx] at this
    cases this
  | dispatch op ec n =>
    have := (Session.of_step_dispatch h).1
    rw [hx] at this
    cases this

/-! ### What a session's turn leaves alone -/

/-- After a turn a session is put back, and it is gone with one connection of its
service when nothing holds it: what holds in both cases holds. -/
theorem setSession_of_cases {P : LoadBalancer σ → Prop} {s : LoadBalancer σ} {k : Nat} {x : Session}
    (hset : P { s with sessions := s.sessions.set k x })
    (hdec : P ({ s with sessions := s.sessions.set k x }.decrementConnections x.backend)) :
    P (s.setSession k x) := by
  unfold setSession
  dsimp only
  split
  · exact hdec
  · exact hset

@[simp] theorem setSession_pending (s : LoadBalancer σ) (k : Nat) (x : Session) :
    (s.setSession k x).pending = s.pending :=
  setSession_of_cases (P := fun v => v.pending = s.pending) rfl rfl

@[simp] theorem setSession_checker (s : LoadBalancer σ) (k : Nat) (x : Session) :
    (s.setSession k x).checker = s.checker :=
  setSession_of_cases (P := fun v => v.checker = s.checker) rfl rfl

@[simp] theorem setSession_strategy (s : LoadBalancer σ) (k : Nat) (x : Session) :
    (s.setSession k x).strategy = s.strategy :=
  setSession_of_cases (P := fun v => v.strategy = s.strategy) rfl rfl

@[simp] theorem setSession_running (s : LoadBalancer σ) (k : Nat) (x : Session) :
    (s.setSession k x).running = s.running :=
  setSession_of_cases (P := fun v => v.running = s.running) rfl rfl

@[simp] theorem setSession_acceptorOpen (s : LoadBalancer σ) (k : Nat) (x : Session) :
    (s.setSession k x).acceptorOpen = s.acceptorOpen :=
  setSession_of_cases (P := fun v => v.acceptorOpen = s.acceptorOpen) rfl rfl

@[simp] theorem setSession_now (s : LoadBalancer σ) (k : Nat) (x : Session) :
    (s.setSession k x).now = s.now :=
  setSession_of_cases (P := fun v => v.now = s.now) rfl rfl

@[simp] theorem setSession_sessions (s : LoadBalancer σ) (k : Nat) (x : Session) :
    (s.setSession k x).sessions = s.sessions.set k x :=
  setSession_of_cases (P := fun v => v.sessions = s.sessions.set k x) rfl rfl

@[simp] theorem setSession_connectTimeoutMs (s : LoadBalancer σ) (k : Nat) (x : Session) :
    (s.setSession k x).connectTimeoutMs = s.connectTimeoutMs :=
  setSession_of_cases (P := fun v => v.connectTimeoutMs = s.connectTimeoutMs) rfl rfl

@[simp] theorem setSession_idleTimeoutMs (s : LoadBalancer σ) (k : Nat) (x : Session) :
    (s.setSession k x).idleTimeoutMs = s.idleTimeoutMs :=
  setSession_of_cases (P := fun v => v.idleTimeoutMs = s.idleTimeoutMs) rfl rfl

/-! ### What a service is -/

theorem node_decrement (s : LoadBalancer σ) (i j : Nat) :
    ((s.decrementConnections i).pool.getService j).map ServiceState.node =
      (s.pool.getService j).map ServiceState.node :=
  ServicePool.map_getService_update _ i j ServiceState.decrementConnections_node

theorem node_setSession (s : LoadBalancer σ) (k : Nat) (x : Session) (j : Nat) :
    ((s.setSession k x).pool.getService j).map ServiceState.node =
      (s.pool.getService j).map ServiceState.node :=
  setSession_of_cases (P := fun v => (v.pool.getService j).map ServiceState.node = _) rfl
    (node_decrement _ _ _)

theorem node_accepted {peer : Option Bytes} {fuel : Nat} {ec : ErrorCode}
    (h : Accepted E s peer fuel ec v) (j : Nat) :
    (v.pool.getService j).map ServiceState.node = (s.pool.getService j).map ServiceState.node := by
  have hinc : ∀ i, ((s.pool.update i .incrementConnections).getService j).map ServiceState.node =
      (s.pool.getService j).map ServiceState.node :=
    fun i => ServicePool.map_getService_update _ i j fun _ => rfl
  cases h with
  | started => exact hinc _
  | refused => exact (node_decrement _ _ _).trans (hinc _)
  | _ => rfl

/-- **No step changes what a service is.** -/
theorem node_step (h : s.step E e = some v) (j : Nat) :
    (v.pool.getService j).map ServiceState.node = (s.pool.getService j).map ServiceState.node := by
  cases stepped_of_step h with
  | tick => rfl
  | complete => rfl
  | accept _ _ ha => exact node_accepted ha j
  | signal =>
    unfold onSignal
    split <;> rfl
  | session => exact node_setSession _ _ _ _
  | @checker e _ _ _ _ ht =>
    dsimp only
    rw [(HealthChecker.step_pool ht).1]
    exact map_getService_effect _ e j (node_probed _)
  | destroy => exact node_setSession _ _ _ _

theorem nameAt_step (h : s.step E e = some v) (j : Nat) : v.pool.nameAt j = s.pool.nameAt j := by
  have hn := congrArg (Option.map ServiceNode.name) (node_step h j)
  rwa [Option.map_map, Option.map_map] at hn

theorem node_of_reaches {now : Nat} {nodes : List ServiceNode} {strategy : Strategy σ}
    {conn : ConnectionConfig} {hc : HealthCheckConfig}
    (h : Reaches (step E) (start now nodes strategy conn hc) s) (i : Nat) :
    (s.pool.getService i).map ServiceState.node = nodes[i]? := by
  refine h.invariant (I := fun s => (s.pool.getService i).map ServiceState.node = nodes[i]?) ?_
    fun hi _ hs => (node_step hs i).trans hi
  have hn : ((ServicePool.ofNodes nodes).getService i).map ServiceState.node = nodes[i]? := by
    rw [ServicePool.getService_ofNodes, Option.map_map]
    cases nodes[i]? <;> rfl
  unfold start
  split <;> exact hn

/-! ### The strategy -/

/-- A strategy that was built on the pool never makes `OnAccept` throw. -/
theorem not_lost {fuel : Nat} {key : Bytes} {r : Option (Except RoutingError Nat)}
    {strategy : Strategy σ} (hb : s.strategy.BuiltOn s.pool)
    (hs : s.strategy.selectService E.dist fuel s.pool key = some (r, strategy))
    (hr : ∀ i, r = some (.ok i) → s.pool.getService i = none)
    (he : ∀ err, r ≠ some (.error err)) : False := by
  rcases (Strategy.selectService_spec hb hs).1 with ⟨i, rfl, hh⟩ | ⟨⟨err, rfl⟩, -⟩
  · obtain ⟨svc, hsvc, -⟩ := ServicePool.healthyAt_eq_true.mp hh
    rw [hr i rfl] at hsvc
    cases hsvc
  · exact he err rfl

theorem builtOn_accepted {peer : Option Bytes} {fuel : Nat} {ec : ErrorCode}
    (hb : s.strategy.BuiltOn s.pool) (h : Accepted E s peer fuel ec v) :
    v.strategy.BuiltOn s.pool := by
  cases h with
  | aborted | failed | gone => exact hb
  | lost hp hs => exact (Strategy.selectService_spec hb hs).2
  | dropped hp hs => exact (Strategy.selectService_spec hb hs).2
  | started hp hs => exact (Strategy.selectService_spec hb hs).2
  | refused hp hs => exact (Strategy.selectService_spec hb hs).2

/-- **The strategy stays built on the pool.** -/
theorem builtOn_step (hb : s.strategy.BuiltOn s.pool) (h : s.step E e = some v) :
    v.strategy.BuiltOn v.pool := by
  refine Strategy.BuiltOn.congr (?_ : v.strategy.BuiltOn s.pool) (nameAt_step h)
  cases stepped_of_step h with
  | tick => exact hb
  | complete => exact hb
  | @accept ec _ _ _ _ _ ha => exact builtOn_accepted (s := s.dequeue .accept ec) hb ha
  | signal =>
    unfold onSignal
    split <;> exact hb
  | session => rwa [setSession_strategy]
  | checker => exact hb
  | destroy => rwa [setSession_strategy]

theorem builtOn_of_reaches {now : Nat} {nodes : List ServiceNode} {strategy : Strategy σ}
    {conn : ConnectionConfig} {hc : HealthCheckConfig}
    (hb : strategy.BuiltOn (.ofNodes nodes))
    (h : Reaches (step E) (start now nodes strategy conn hc) s) : s.strategy.BuiltOn s.pool := by
  refine h.invariant (I := fun s => s.strategy.BuiltOn s.pool) ?_
    fun hi _ hs => builtOn_step hi hs
  unfold start
  split <;> exact hb

theorem in_accepted {I : σ → Prop} (hI : P2CStrategy.Varies E.dist I) (h : s.strategy.In I)
    {peer : Option Bytes} {fuel : Nat} {ec : ErrorCode} (ha : Accepted E s peer fuel ec v) :
    v.strategy.In I := by
  cases ha with
  | aborted | failed | gone => exact h
  | lost hp hs => exact Strategy.selectService_keeps hI h hs
  | dropped hp hs => exact Strategy.selectService_keeps hI h hs
  | started hp hs => exact Strategy.selectService_keeps hI h hs
  | refused hp hs => exact Strategy.selectService_keeps hI h hs

theorem in_step {I : σ → Prop} (hI : P2CStrategy.Varies E.dist I) (h : s.strategy.In I)
    (hs : s.step E e = some v) : v.strategy.In I := by
  cases stepped_of_step hs with
  | tick => exact h
  | complete => exact h
  | @accept ec _ _ _ _ _ ha => exact in_accepted (s := s.dequeue .accept ec) hI h ha
  | signal =>
    unfold onSignal
    split <;> exact h
  | session => rwa [setSession_strategy]
  | checker => exact h
  | destroy => rwa [setSession_strategy]

/-- **The strategy always returns**, where the generator starts in `I`. -/
theorem ends_of_reaches {now : Nat} {nodes : List ServiceNode} {strategy : Strategy σ}
    {conn : ConnectionConfig} {hc : HealthCheckConfig} {I : σ → Prop}
    (hI : P2CStrategy.Varies E.dist I) (hin : strategy.In I)
    (h : Reaches (step E) (start now nodes strategy conn hc) s) :
    s.strategy.Ends E.dist s.pool := by
  have hs : s.strategy.In I := by
    refine h.invariant (I := fun s => s.strategy.In I) ?_ fun hi _ hs => in_step hI hi hs
    unfold start
    split <;> exact hin
  exact hs.ends hI s.pool

end BitBridge.LoadBalancer
