import BitBridge.LoadBalancer.Dispatch

/-!
# Where a client goes with a consistent hash

The ring is built once, from the names of the services, and no step of the
program changes it.  The routing key is the address of the client, so what
becomes of two of its connections can differ by the health of the services only,
in one run of the program or in two.

* `ring_of_reaches`: the strategy is the one that the program started with.
* `client_moves`: **a client moves from one service to another only when the
  first is exhausted by then, or the second was before.**
-/

namespace BitBridge.LoadBalancer

open Proactor Proxy Health Steps

variable {σ : Type} {E : Env σ} {s v : LoadBalancer σ} {e : Event} {c : ConsistentHashStrategy}

theorem ring_accepted {peer : Option Bytes} {fuel : Nat} {ec : ErrorCode}
    (hc : s.strategy = .consistentHash c) (h : Accepted E s peer fuel ec v) :
    v.strategy = .consistentHash c := by
  have hsel : ∀ {key : Bytes} {r : Option (Except RoutingError Nat)} {t : Strategy σ},
      s.strategy.selectService E.dist fuel s.pool key = some (r, t) → t = .consistentHash c := by
    intro key r t ht
    rw [hc, Strategy.selectService, Option.some.injEq, Prod.mk.injEq] at ht
    exact ht.2.symm
  cases h with
  | aborted | failed | gone => exact hc
  | lost _ hs | dropped _ hs | started _ hs | refused _ hs => exact hsel hs

theorem ring_step (hc : s.strategy = .consistentHash c) (h : s.step E e = some v) :
    v.strategy = .consistentHash c := by
  cases stepped_of_step h with
  | tick => exact hc
  | complete => exact hc
  | @accept ec _ _ _ _ _ ha => exact ring_accepted (s := s.dequeue .accept ec) hc ha
  | signal =>
    unfold onSignal
    split <;> exact hc
  | session => rwa [setSession_strategy]
  | checker => exact hc
  | destroy => rwa [setSession_strategy]

section Run

variable {now : Nat} {nodes : List ServiceNode} {conn : ConnectionConfig} {hc : HealthCheckConfig}

/-- **The ring stays as it was built.** -/
theorem ring_of_reaches
    (h : Reaches (step E) (start now nodes (.consistentHash c) conn hc) s) :
    s.strategy = .consistentHash c := by
  refine h.invariant (I := fun s => s.strategy = .consistentHash c) ?_
    fun hi _ hs => ring_step hi hs
  unfold start
  split <;> rfl

theorem selected_of_bound (hring : s.strategy = .consistentHash c) {key : Bytes} {fuel i : Nat}
    (hs : s.step E (.accept .success (some key) fuel) = some v) (hb : Bound s v i) :
    c.selectService s.pool key = some (.ok i) := by
  obtain ⟨x, hx, hxi, hpend⟩ := hb.session
  cases stepped_of_step hs with
  | accept _ _ ha =>
    have hsel : ∀ {r : Option (Except RoutingError Nat)} {t : Strategy σ},
        s.strategy.selectService E.dist fuel s.pool key = some (r, t) →
          c.selectService s.pool key = r := by
      intro r t ht
      rw [hring, Strategy.selectService, Option.some.injEq, Prod.mk.injEq] at ht
      exact ht.1
    have hnew : ∀ {y : Session}, s.sessions ++ [y] = s.sessions ++ [x] → y = x := by
      intro y hy
      rw [List.append_cancel_left_eq, List.singleton_inj] at hy
      exact hy
    have hnone : s.sessions ≠ s.sessions ++ [x] := by
      intro hlen
      have hl := congrArg List.length hlen
      rw [List.length_append, List.length_singleton] at hl
      omega
    cases ha with
    | failed hf => cases hf
    | gone => exact absurd hx hnone
    | lost => exact absurd hx hnone
    | dropped => exact absurd hx hnone
    | started hp hsl hi hip =>
      cases hp
      obtain rfl := hnew hx
      exact hxi ▸ hsel hsl
    | refused =>
      obtain rfl := hnew hx
      exact absurd rfl hpend

variable {E' : Env σ} {s' v' : LoadBalancer σ} {now' : Nat} {conn' : ConnectionConfig}
  {hc' : HealthCheckConfig}

/-- **A client moves only with the health of the services.**  Two connections of
one client, in any runs of programs with these services, whatever else they are
configured with, are bound to one service, or the first is exhausted at the
second connection, or the second was at the first. -/
theorem client_moves (hmade : ConsistentHashStrategy.ofPool (.ofNodes nodes) = .ok c)
    (h : Reaches (step E) (start now nodes (.consistentHash c) conn hc) s)
    (h' : Reaches (step E') (start now' nodes (.consistentHash c) conn' hc') s')
    {key : Bytes} {fuel fuel' i k : Nat}
    (hs : s.step E (.accept .success (some key) fuel) = some v)
    (hs' : s'.step E' (.accept .success (some key) fuel') = some v')
    (hb : Bound s v i) (hb' : Bound s' v' k) :
    i = k ∨ Exhausted hc' s' i ∨ Exhausted hc s k := by
  have hbuilt : (Strategy.consistentHash c : Strategy σ).BuiltOn (.ofNodes nodes) :=
    ConsistentHashStrategy.ringOf_ofPool hmade
  have hring := ring_of_reaches h
  have hring' := ring_of_reaches h'
  have hof : c.RingOf s.pool := by
    have hbs := builtOn_of_reaches hbuilt h
    rwa [hring] at hbs
  have hof' : c.RingOf s'.pool := by
    have hbs := builtOn_of_reaches hbuilt h'
    rwa [hring'] at hbs
  obtain ⟨e, he, rfl, hhealthy, hfirst⟩ :=
    (ConsistentHashStrategy.selectService_eq_ok hof).mp (selected_of_bound hring hs hb)
  obtain ⟨e', he', rfl, hhealthy', hfirst'⟩ :=
    (ConsistentHashStrategy.selectService_eq_ok hof').mp (selected_of_bound hring' hs' hb')
  have hlt := ((healthyAt_iff h).mp hhealthy).1
  have hlt' := ((healthyAt_iff h').mp hhealthy').1
  by_contra hno
  rw [not_or, not_or] at hno
  obtain ⟨hik, hi, hk⟩ := hno
  -- Each of the two points was passed before the other.
  have hboth := hfirst e' he' ((healthyAt_iff h).mpr ⟨hlt', hk⟩)
  have hboth' := hfirst' e he ((healthyAt_iff h').mpr ⟨hlt, hi⟩)
  rcases hboth with heq | hbefore
  · exact hik (congrArg Prod.snd heq).symm
  · rcases hboth' with heq | hbefore'
    · exact hik (congrArg Prod.snd heq)
    · exact hbefore.asymm hbefore'

end Run

/-- A client gets its service again from a program that has been started anew, with
another threshold and another idle timeout. -/
theorem client_moves_restart :
    let nodes : List ServiceNode := [{ name := ascii "web-1" }, { name := ascii "web-2" }]
    let E : Env Nat := ⟨fun _ => true, P2CStrategy.counting⟩
    ∃ (c : ConsistentHashStrategy) (s v s' v' : LoadBalancer Nat) (i : Nat),
      Reaches (step E) (start 0 nodes (.consistentHash c) {} {}) s ∧
      Reaches (step E) (start 100 nodes (.consistentHash c) { idleTimeoutMs := 0 }
        { unhealthyThreshold := 1 }) s' ∧ Bound s v i ∧ Bound s' v' i := by
  intro nodes E
  obtain ⟨c, hc⟩ : ∃ c, ConsistentHashStrategy.ofPool (.ofNodes nodes) = .ok c := by
    have hsome : (ConsistentHashStrategy.ofPool (.ofNodes nodes)).toOption.isSome = true := by
      decide +kernel
    obtain ⟨c, hc⟩ := Option.isSome_iff_exists.mp hsome
    exact ⟨c, ConsistentHashStrategy.ofPool_eq_ok hc⟩
  have hb : (Strategy.consistentHash c : Strategy Nat).BuiltOn (.ofNodes nodes) :=
    ConsistentHashStrategy.ringOf_ofPool hc
  have hfresh : ∀ now conn hc (s : LoadBalancer Nat),
      run (step E) (start now nodes (.consistentHash c) conn hc) [.complete .accept .success] =
        some s → s.running = true → ⟨.accept, .queued .success 0⟩ ∈ s.pending → s.outcomes = [] →
      ∃ (v : LoadBalancer Nat) (fuel i : Nat), (∀ i, ¬ Exhausted hc s i) ∧
        Reaches (step E) (start now nodes (.consistentHash c) conn hc) s ∧
        s.step E (.accept .success (some (ascii "10.0.0.7")) fuel) = some v ∧ Bound s v i := by
    intro now conn hc s hr hrun hm ho
    have hex : ∀ i, ¬ Exhausted hc s i := by
      intro i hx
      have hzero : failedRun s.outcomes i = 0 := by rw [ho]; rfl
      rw [Exhausted, hzero] at hx
      omega
    have hends : s.strategy.Ends E.dist s.pool := by
      rw [ring_of_reaches (reaches_of_run hr)]
      trivial
    obtain ⟨fuel, v, hv⟩ := exists_step_accept hends hrun hm (some (ascii "10.0.0.7"))
    have hserve : CanServe E s .success (some (ascii "10.0.0.7")) :=
      .inr ⟨_, rfl, fun _ _ _ _ _ _ => rfl⟩
    rcases dropped_or_bound hb (reaches_of_run hr) hv hserve with ⟨hall, -⟩ | ⟨i, -, -, hbound⟩
    · exact absurd (hall 0 (by decide)) (hex 0)
    · exact ⟨v, fuel, i, hex, reaches_of_run hr, hv, hbound⟩
  obtain ⟨v, fuel, i, hex, hr, hv, hb⟩ := hfresh 0 {} {} _ rfl rfl
    (List.mem_cons_of_mem _ List.mem_cons_self) rfl
  obtain ⟨v', fuel', k, hex', hr', hv', hb'⟩ := hfresh 100 { idleTimeoutMs := 0 }
    { unhealthyThreshold := 1 } _ rfl rfl (List.mem_cons_of_mem _ List.mem_cons_self) rfl
  rcases client_moves hc hr hr' hv hv' hb hb' with rfl | hx | hx
  · exact ⟨c, _, v, _, v', i, hr, hr', hb, hb'⟩
  · exact absurd hx (hex' i)
  · exact absurd hx (hex k)

end BitBridge.LoadBalancer
