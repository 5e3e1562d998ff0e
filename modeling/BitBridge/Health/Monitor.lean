import BitBridge.Lib.Steps
import BitBridge.Health.HealthChecker

/-!
# What the checker makes of its probes

An `Outcome` is noted whenever the connect of a probe is handled, and
`failedRun` counts the failed probes of a service since its last successful one.

* `HealthChecker.step_pool`: a turn changes the pool only when it handles a
  connect, and then it changes the probed service only.
* `Tracks`: the counter and the flag of every service follow from the outcomes.
* `Accounted`: every probe is either pending or noted, once.
* `health_state_machine`: both hold in every run, whatever the order in which
  rounds, connects and timers end, and whoever else uses the pool's counters.
-/

namespace BitBridge.Health

open Proactor Steps

/-- The outcome of a probe of the service `index`. -/
structure Outcome where
  probe : Nat
  index : Nat
  failed : Bool
  deriving DecidableEq, Repr

/-- The failed probes of a service since its last successful one, or since start. -/
def failedRun (outcomes : List Outcome) (i : Nat) : Nat :=
  ((outcomes.filter fun o => o.index = i).reverse.takeWhile fun o => o.failed).length

/-- The record after a turn. -/
def note (outcomes : List Outcome) : HealthChecker.Event → List Outcome
  | .dispatch (.connect probe index) ec => outcomes ++ [⟨probe, index, ec.failed⟩]
  | _ => outcomes

/-! ### One probe result -/

theorem failedRun_append (outcomes : List Outcome) (o : Outcome) (i : Nat) :
    failedRun (outcomes ++ [o]) i =
      if o.index = i then (if o.failed then failedRun outcomes i + 1 else 0)
      else failedRun outcomes i := by
  unfold failedRun
  rw [List.filter_append]
  by_cases hi : o.index = i
  · rw [if_pos hi, List.filter_cons_of_pos (by simpa using hi), List.filter_nil,
      List.reverse_append, List.reverse_singleton, List.singleton_append, List.takeWhile_cons]
    cases ho : o.failed <;> simp
  · rw [if_neg hi, List.filter_cons_of_neg (by simpa using hi), List.filter_nil, List.append_nil]

/-- The counter and the flag of a service after a run of `n` failed probes. -/
structure Follows (unhealthyThreshold : UInt32) (n : Nat) (svc : ServiceState) : Prop where
  failures : svc.consecutiveFailures.toNat = n % 2 ^ 64
  healthy : svc.healthy = false ↔ max 1 unhealthyThreshold.toNat ≤ n

/-- **One probe result** takes a service from one run to the next. -/
theorem Follows.probed {thr : UInt32} {n : Nat} {svc : ServiceState} (h : Follows thr n svc)
    (ec : ErrorCode) : Follows thr (if ec.failed then n + 1 else 0) (probed thr ec svc) := by
  have hthr := thr.toNat_lt
  cases hec : ec.failed with
  | false =>
    rw [Health.probed, hec]
    refine ⟨rfl, ?_⟩
    simp [ServiceState.setHealthy]
  | true =>
    have hf : svc.incrementFailures.consecutiveFailures.toNat = (n + 1) % 2 ^ 64 := by
      rw [ServiceState.incrementFailures, UInt64.toNat_add, h.failures]
      simp
    rw [Health.probed, hec]
    simp only [if_true]
    split
    · next hc =>
      obtain ⟨hle, hhealthy⟩ := hc
      have hn : ¬ max 1 thr.toNat ≤ n := by
        rw [← h.healthy]
        simpa using hhealthy
      rw [UInt64.le_iff_toNat_le, hf, UInt32.toNat_toUInt64] at hle
      refine ⟨hf, ?_⟩
      simp only [ServiceState.setHealthy, true_iff]
      omega
    · next hc =>
      refine ⟨hf, ?_⟩
      rw [UInt64.le_iff_toNat_le, hf, UInt32.toNat_toUInt64] at hc
      have hiff := h.healthy
      show svc.healthy = false ↔ _
      cases hh : svc.healthy with
      | false =>
        rw [hh] at hiff
        have := hiff.mp rfl
        simp only [true_iff]
        omega
      | true =>
        have hn : ¬ max 1 thr.toNat ≤ n := by
          rw [← hiff, hh]
          decide
        have hnot : ¬ thr.toNat ≤ (n + 1) % 2 ^ 64 := fun hle => hc ⟨hle, hh⟩
        simp only [Bool.true_eq_false, false_iff]
        omega

/-! ### What a turn changes -/

def effect (unhealthyThreshold : UInt32) (pool : ServicePool) : HealthChecker.Event → ServicePool
  | .dispatch (.connect _ index) ec => pool.update index (probed unhealthyThreshold ec)
  | _ => pool

/-- What no probe result changes in a service, no turn changes in the pool. -/
theorem map_getService_effect {β : Type} {thr : UInt32} (pool : ServicePool)
    (e : HealthChecker.Event) (i : Nat) {g : ServiceState → β}
    (h : ∀ ec svc, g (probed thr ec svc) = g svc) :
    ((effect thr pool e).getService i).map g = (pool.getService i).map g := by
  rcases e with ⟨op, ec⟩ | ⟨_ | _ | ⟨k, index⟩, ec⟩
  · rfl
  · rfl
  · rfl
  · exact ServicePool.map_getService_update pool index i (h ec)

theorem getSize_effect (thr : UInt32) (pool : ServicePool) (e : HealthChecker.Event) :
    (effect thr pool e).getSize = pool.getSize := by
  rcases e with ⟨op, ec⟩ | ⟨_ | _ | ⟨k, index⟩, ec⟩
  · rfl
  · rfl
  · rfl
  · exact ServicePool.getSize_update pool index _

theorem node_probed (thr : UInt32) (ec : ErrorCode) (svc : ServiceState) :
    (probed thr ec svc).node = svc.node := by
  unfold probed
  split
  · dsimp only
    split <;> rfl
  · rfl

theorem activeConnections_probed (thr : UInt32) (ec : ErrorCode) (svc : ServiceState) :
    (probed thr ec svc).activeConnections = svc.activeConnections := by
  unfold probed
  split
  · dsimp only
    split <;> rfl
  · rfl

def reached : Except HealthChecker HealthChecker → HealthChecker
  | .ok c => c
  | .error c => c

namespace HealthChecker

variable {isIpLiteral : Bytes → Bool} {now : Nat} {pool : ServicePool} {c : HealthChecker}
  {t : Turn}

/-- A launch adds a probe with its timer and its connect, or throws and adds no
connect. -/
theorem probeOne_cases (isIpLiteral : Bytes → Bool) (now : Nat) (pool : ServicePool)
    (c : HealthChecker) (index : Nat) :
    (∃ p, p.index = index ∧ reached (c.probeOne isIpLiteral now pool index) = { c with
      probes := c.probes ++ [p]
      pending := c.pending ++ [⟨.timeout c.probes.length, .waiting⟩,
        ⟨.connect c.probes.length index, .waiting⟩] }) ∨
    reached (c.probeOne isIpLiteral now pool index) = c ∨
    reached (c.probeOne isIpLiteral now pool index) = { c with
      pending := cancel (Op.isTimeout c.probes.length)
        (c.pending ++ [⟨.timeout c.probes.length, .waiting⟩]) } := by
  unfold probeOne
  split
  · exact .inr (.inl rfl)
  · dsimp only
    split
    · exact .inl ⟨⟨index, now + c.config.timeoutMs.toNat⟩, rfl, by simp [reached]⟩
    · exact .inr (.inr rfl)

/-- **What every launch preserves, a round preserves**, thrown out of or not. -/
theorem probeAll_induction (isIpLiteral : Bytes → Bool) (now : Nat) (pool : ServicePool)
    {I : HealthChecker → Prop}
    (hone : ∀ c index, I c → I (reached (probeOne isIpLiteral now pool c index))) (h : I c) :
    I (reached (c.probeAll isIpLiteral now pool)) := by
  unfold probeAll
  generalize List.range pool.getSize = l
  induction l generalizing c with
  | nil => exact h
  | cons index l ih =>
    rw [List.foldlM_cons]
    have hc := hone c index h
    cases hr : c.probeOne isIpLiteral now pool index with
    | error c' =>
      rw [hr] at hc
      exact hc
    | ok c' =>
      rw [hr] at hc
      exact ih hc

@[simp] theorem scheduleNextRound_config (c : HealthChecker) (now : Nat) :
    (c.scheduleNextRound now).config = c.config := by
  unfold scheduleNextRound
  split <;> rfl

theorem config_probeAll : (reached (c.probeAll isIpLiteral now pool)).config = c.config := by
  refine probeAll_induction _ _ _ (I := fun c' => c'.config = c.config) ?_ rfl
  intro c' index h
  rcases probeOne_cases isIpLiteral now pool c' index with ⟨p, -, hr⟩ | hr | hr <;> rw [hr] <;>
    exact h

/-- What the handler of the round timer leaves, when it does not return at once. -/
theorem handle_round (isIpLiteral : Bytes → Bool) (now : Nat) (pool : ServicePool)
    (c : HealthChecker) {ec : ErrorCode} (hec : ec.failed = false) (hs : c.stopped = false) :
    ∃ threw, c.handle isIpLiteral now pool .round ec = ⟨pool,
      if threw then reached (c.probeAll isIpLiteral now pool)
      else (reached (c.probeAll isIpLiteral now pool)).scheduleNextRound now, threw⟩ := by
  rw [handle, if_neg (by simp [hec, hs])]
  cases c.probeAll isIpLiteral now pool with
  | ok c' => exact ⟨false, rfl⟩
  | error c' => exact ⟨true, rfl⟩

theorem round_cases (isIpLiteral : Bytes → Bool) (now : Nat) (pool : ServicePool)
    (c : HealthChecker) (ec : ErrorCode) :
    c.handle isIpLiteral now pool .round ec = ⟨pool, c, false⟩ ∨
      ec.failed = false ∧ c.stopped = false ∧
        ∃ threw, c.handle isIpLiteral now pool .round ec = ⟨pool,
          if threw then reached (c.probeAll isIpLiteral now pool)
          else (reached (c.probeAll isIpLiteral now pool)).scheduleNextRound now, threw⟩ := by
  by_cases hret : ec.failed ∨ c.stopped
  · left
    rw [handle, if_pos hret]
  · right
    rw [not_or, Bool.not_eq_true, Bool.not_eq_true] at hret
    exact ⟨hret.1, hret.2, handle_round isIpLiteral now pool c hret.1 hret.2⟩

/-- The handler of a connect cancels the timer of its probe, and closes the
socket of one that succeeded. -/
theorem connect_checker (isIpLiteral : Bytes → Bool) (now : Nat) (pool : ServicePool)
    (c : HealthChecker) (probe index : Nat) (ec : ErrorCode) :
    (c.handle isIpLiteral now pool (.connect probe index) ec).checker = c.cancelTimer probe ∨
      (c.handle isIpLiteral now pool (.connect probe index) ec).checker =
        (c.cancelTimer probe).closeSocket probe := by
  rw [handle, onProbeResult]
  split
  · exact .inl rfl
  · dsimp only
    split
    · exact .inl rfl
    · exact .inr rfl

theorem of_step_complete {op : Op} {ec : ErrorCode}
    (h : c.step isIpLiteral now pool (.complete op ec) = some t) : ⟨op, .waiting⟩ ∈ c.pending ∧
      t = ⟨pool, { c with pending := resolve c.pending op ec 0 }, false⟩ := by
  rw [step, Option.ite_none_right_eq_some] at h
  exact ⟨h.1.1, (Option.some.inj h.2).symm⟩

theorem of_step_dispatch {op : Op} {ec : ErrorCode}
    (h : c.step isIpLiteral now pool (.dispatch op ec) = some t) :
    ⟨op, .queued ec 0⟩ ∈ c.pending ∧
      t = { c with pending := consume c.pending op ec 0 }.handle isIpLiteral now pool op ec := by
  rw [step, Option.ite_none_right_eq_some] at h
  exact ⟨h.1, (Option.some.inj h.2).symm⟩

/-- **A turn changes the pool only when it handles a connect.** -/
theorem step_pool {e : Event} (h : c.step isIpLiteral now pool e = some t) :
    t.pool = effect c.config.unhealthyThreshold pool e ∧ t.checker.config = c.config := by
  cases e with
  | complete op ec =>
    obtain ⟨-, rfl⟩ := of_step_complete h
    exact ⟨rfl, rfl⟩
  | dispatch op ec =>
    obtain ⟨-, rfl⟩ := of_step_dispatch h
    cases op with
    | round =>
      rcases round_cases isIpLiteral now pool
        { c with pending := consume c.pending .round ec 0 } ec with
        hr | ⟨-, -, threw, hr⟩ <;> rw [hr]
      · exact ⟨rfl, rfl⟩
      · refine ⟨rfl, ?_⟩
        cases threw
        · exact (scheduleNextRound_config _ _).trans config_probeAll
        · exact config_probeAll
    | timeout probe =>
      rw [handle]
      split <;> exact ⟨rfl, rfl⟩
    | connect probe index =>
      rw [handle, onProbeResult]
      split
      · next hnone => exact ⟨(ServicePool.update_of_none hnone _).symm, rfl⟩
      · dsimp only
        split <;> exact ⟨rfl, rfl⟩

end HealthChecker

/-! ### The services follow the outcomes -/

/-- Every service is as the outcomes of its probes say. -/
def Tracks (unhealthyThreshold : UInt32) (pool : ServicePool) (outcomes : List Outcome) : Prop :=
  ∀ i svc, pool.getService i = some svc → Follows unhealthyThreshold (failedRun outcomes i) svc

theorem tracks_ofNodes (thr : UInt32) (nodes : List ServiceNode) :
    Tracks thr (.ofNodes nodes) [] := by
  intro i svc h
  rw [ServicePool.getService_ofNodes] at h
  obtain ⟨node, -, rfl⟩ := Option.map_eq_some_iff.mp h
  refine ⟨rfl, ?_⟩
  simp [ServiceState.ofNode, failedRun]

theorem Tracks.step {thr : UInt32} {pool : ServicePool} {outcomes : List Outcome}
    (h : Tracks thr pool outcomes) (e : HealthChecker.Event) :
    Tracks thr (effect thr pool e) (note outcomes e) := by
  rcases e with ⟨op, ec⟩ | ⟨_ | _ | ⟨k, index⟩, ec⟩
  · exact h
  · exact h
  · exact h
  · intro i svc hi
    rw [effect, ServicePool.getService_update] at hi
    obtain ⟨svc', hi', rfl⟩ := Option.map_eq_some_iff.mp hi
    rw [note, failedRun_append]
    by_cases hidx : index = i
    · rw [if_pos hidx, if_pos hidx]
      exact (h i svc' hi').probed ec
    · rw [if_neg hidx, if_neg hidx]
      exact h i svc' hi'

/-- The part of a service that is about its health. -/
def health (svc : ServiceState) : UInt64 × Bool := (svc.consecutiveFailures, svc.healthy)

theorem health_incrementConnections (svc : ServiceState) :
    health svc.incrementConnections = health svc := rfl

theorem health_decrementConnections (svc : ServiceState) :
    health svc.decrementConnections = health svc := by
  unfold ServiceState.decrementConnections
  split <;> rfl

theorem Follows.congr {thr : UInt32} {n : Nat} {svc svc' : ServiceState} (h : Follows thr n svc)
    (he : health svc' = health svc) : Follows thr n svc' := by
  obtain ⟨hf, hh⟩ := Prod.mk.inj he
  exact ⟨hf ▸ h.failures, hh ▸ h.healthy⟩

theorem Tracks.update {thr : UInt32} {pool : ServicePool} {outcomes : List Outcome}
    (h : Tracks thr pool outcomes) (index : Nat) {f : ServiceState → ServiceState}
    (hf : ∀ svc, health (f svc) = health svc) : Tracks thr (pool.update index f) outcomes := by
  intro i svc hi
  rw [ServicePool.getService_update] at hi
  obtain ⟨svc', hi', rfl⟩ := Option.map_eq_some_iff.mp hi
  split
  · exact (h i svc' hi').congr (hf svc')
  · exact h i svc' hi'

/-! ### Every probe is accounted for -/

/-- Each launched probe is pending or noted, once, under its own service. -/
structure Accounted (c : HealthChecker) (outcomes : List Outcome) : Prop where
  tally : ∀ k, count (Op.isConnect k) c.pending + outcomes.countP (fun o => o.probe = k) =
    if k < c.probes.length then 1 else 0
  bound : ∀ {k i st}, ⟨.connect k i, st⟩ ∈ c.pending →
    (c.probes[k]?).map (fun p => p.index) = some i
  noted : ∀ o ∈ outcomes, (c.probes[o.probe]?).map (fun p => p.index) = some o.index

namespace Accounted

variable {isIpLiteral : Bytes → Bool} {now : Nat} {pool : ServicePool} {c c' : HealthChecker}
  {outcomes : List Outcome}

theorem of_pending (h : Accounted c outcomes) (hp : c'.probes = c.probes)
    (hcount : ∀ k, count (Op.isConnect k) c'.pending = count (Op.isConnect k) c.pending)
    (hmem : ∀ p ∈ c'.pending, (∃ q ∈ c.pending, q.op = p.op) ∨ ∀ k, Op.isConnect k p.op = false) :
    Accounted c' outcomes where
  tally k := by rw [hp, hcount]; exact h.tally k
  bound {k i st} hm := by
    rw [hp]
    rcases hmem _ hm with ⟨⟨op, st'⟩, hq, rfl⟩ | hno
    · exact h.bound hq
    · exact absurd (hno k) (by simp [Op.isConnect])
  noted o ho := by rw [hp]; exact h.noted o ho

theorem cancel (h : Accounted c outcomes) (f : Op → Bool) :
    Accounted { c with pending := Proactor.cancel f c.pending } outcomes :=
  h.of_pending rfl (fun _ => count_cancel _ _ _) fun _ hp => .inl (exists_op_of_mem_cancel hp)

theorem stop (h : Accounted c outcomes) : Accounted c.stop outcomes :=
  h.of_pending rfl (fun _ => count_cancel _ _ _) fun _ hp => .inl (exists_op_of_mem_cancel hp)

theorem scheduleNextRound (h : Accounted c outcomes) (now : Nat) :
    Accounted (c.scheduleNextRound now) outcomes := by
  unfold HealthChecker.scheduleNextRound
  split
  · exact h
  · refine h.of_pending rfl ?_ ?_
    · intro k
      rw [count_append, count_cancel]
      rfl
    · intro p hp
      rcases List.mem_append.mp hp with hp | hp
      · exact .inl (exists_op_of_mem_cancel hp)
      · rw [List.mem_singleton.mp hp]
        exact .inr fun k => rfl

theorem index_append {probes : List Probe} {k i : Nat} (p : Probe)
    (h : (probes[k]?).map (fun p => p.index) = some i) :
    ((probes ++ [p])[k]?).map (fun p => p.index) = some i := by
  obtain ⟨q, hq, rfl⟩ := Option.map_eq_some_iff.mp h
  rw [List.getElem?_append_left (List.getElem?_eq_some_iff.mp hq).1, hq]
  rfl

theorem launch (h : Accounted c outcomes) (p : Probe) :
    Accounted { c with
      probes := c.probes ++ [p]
      pending := c.pending ++ [⟨.timeout c.probes.length, .waiting⟩,
        ⟨.connect c.probes.length p.index, .waiting⟩] } outcomes where
  tally k := by
    have hk := h.tally k
    simp only [count_append, count_cons, count_nil, List.length_append, List.length_singleton,
      Op.isConnect, decide_eq_true_eq, Bool.false_eq_true, if_false]
    split at hk <;> split <;> split <;> omega
  bound {k i st} hm := by
    rcases List.mem_append.mp hm with hm | hm
    · exact index_append p (h.bound hm)
    · simp only [List.mem_cons, Pending.mk.injEq, reduceCtorEq, Op.connect.injEq, List.not_mem_nil,
        or_false, false_and, false_or] at hm
      obtain ⟨⟨rfl, rfl⟩, -⟩ := hm
      simp
  noted o ho := index_append p (h.noted o ho)

theorem probeOne (h : Accounted c outcomes) (index : Nat) :
    Accounted (reached (c.probeOne isIpLiteral now pool index)) outcomes := by
  rcases HealthChecker.probeOne_cases isIpLiteral now pool c index with ⟨p, rfl, hr⟩ | hr | hr <;>
    rw [hr]
  · exact h.launch p
  · exact h
  · have harmed : Accounted
        { c with pending := c.pending ++ [⟨.timeout c.probes.length, .waiting⟩] } outcomes := by
      refine h.of_pending rfl ?_ ?_
      · intro k
        rw [count_append]
        rfl
      · intro p hp
        rcases List.mem_append.mp hp with hp | hp
        · exact .inl ⟨p, hp, rfl⟩
        · rw [List.mem_singleton.mp hp]
          exact .inr fun k => rfl
    exact harmed.cancel _

/-- **A turn keeps the account.** -/
theorem step {e : HealthChecker.Event} {t : Turn} (h : Accounted c outcomes)
    (hs : c.step isIpLiteral now pool e = some t) : Accounted t.checker (note outcomes e) := by
  cases e with
  | complete op ec =>
    obtain ⟨hm, rfl⟩ := HealthChecker.of_step_complete hs
    refine h.of_pending rfl (fun k => count_resolve hm) fun p hp => .inl ?_
    rcases mem_resolve hp with hp | rfl
    · exact ⟨p, hp, rfl⟩
    · exact ⟨_, hm, rfl⟩
  | dispatch op ec =>
    obtain ⟨hm, rfl⟩ := HealthChecker.of_step_dispatch hs
    -- what is left when the handler has been taken off the queue
    have hrest : (∀ k, Op.isConnect k op = false) →
        Accounted { c with pending := consume c.pending op ec 0 } outcomes := by
      intro hno
      refine h.of_pending rfl ?_ fun p hp => .inl ⟨p, mem_of_mem_consume hp, rfl⟩
      intro k
      have hc := count_consume (f := Op.isConnect k) hm
      rwa [hno k, if_neg Bool.false_ne_true, Nat.add_zero] at hc
    cases op with
    | round =>
      have hr := hrest fun k => rfl
      rcases HealthChecker.round_cases isIpLiteral now pool
        { c with pending := consume c.pending .round ec 0 } ec with
        ht | ⟨-, -, threw, ht⟩ <;> rw [ht]
      · exact hr
      · have hall := HealthChecker.probeAll_induction isIpLiteral now pool
          (I := fun c' => Accounted c' outcomes)
          (fun c' index hc => hc.probeOne index) hr
        cases threw
        · exact hall.scheduleNextRound now
        · exact hall
    | timeout probe =>
      have hr := hrest fun k => rfl
      rw [HealthChecker.handle]
      split
      · exact hr
      · exact hr.cancel _
    | connect probe index =>
      have hhandled : Accounted { c with pending := consume c.pending (.connect probe index) ec 0 }
          (outcomes ++ [⟨probe, index, ec.failed⟩]) := by
        refine ⟨?_, fun {k i st} hp => h.bound (mem_of_mem_consume hp), ?_⟩
        · intro k
          have hc := count_consume (f := Op.isConnect k) hm
          rw [← h.tally k, List.countP_append, ← hc, List.countP_singleton]
          simp only [Op.isConnect, decide_eq_true_eq]
          omega
        · intro o ho
          rcases List.mem_append.mp ho with ho | ho
          · exact h.noted o ho
          · rw [List.mem_singleton.mp ho]
            exact h.bound hm
      rcases HealthChecker.connect_checker isIpLiteral now pool
        { c with pending := consume c.pending (.connect probe index) ec 0 } probe index ec with
        ht | ht <;> rw [ht]
      · exact hhandled.cancel _
      · exact (hhandled.cancel _).cancel _

end Accounted

/-! ### A stopped checker -/

namespace HealthChecker

theorem plain_scheduleNextRound {c : HealthChecker} (h : Plain c.pending) (now : Nat) :
    Plain (c.scheduleNextRound now).pending := by
  unfold scheduleNextRound
  split
  · exact h
  · exact plain_append (plain_cancel h) (plain_waiting _)

theorem plain_step {isIpLiteral : Bytes → Bool} {now : Nat} {pool : ServicePool}
    {c : HealthChecker} {e : Event} {t : Turn} (h : Plain c.pending)
    (hs : c.step isIpLiteral now pool e = some t) : Plain t.checker.pending := by
  cases e with
  | complete op ec =>
    obtain ⟨-, rfl⟩ := HealthChecker.of_step_complete hs
    exact plain_resolve h op ec
  | dispatch op ec =>
    obtain ⟨-, rfl⟩ := HealthChecker.of_step_dispatch hs
    have hc : Plain (consume c.pending op ec 0) := plain_consume h op ec 0
    cases op with
    | round =>
      rcases round_cases isIpLiteral now pool
        { c with pending := consume c.pending .round ec 0 } ec with
        ht | ⟨-, -, threw, ht⟩ <;> rw [ht]
      · exact hc
      · have hall := probeAll_induction isIpLiteral now pool
          (I := fun c' => Plain c'.pending) (fun c' index hp => ?_)
          (c := { c with pending := consume c.pending .round ec 0 }) hc
        · cases threw
          · exact plain_scheduleNextRound hall now
          · exact hall
        · rcases probeOne_cases isIpLiteral now pool c' index with ⟨p, -, hr⟩ | hr | hr <;> rw [hr]
          · exact plain_append hp (plain_append (plain_waiting _) (plain_waiting _))
          · exact hp
          · exact plain_cancel (plain_append hp (plain_waiting _))
    | timeout probe =>
      rw [handle]
      split
      · exact hc
      · exact plain_cancel hc
    | connect probe index =>
      rcases connect_checker isIpLiteral now pool
        { c with pending := consume c.pending (.connect probe index) ec 0 } probe index ec with
        ht | ht <;> rw [ht]
      · exact plain_cancel hc
      · exact plain_cancel (plain_cancel hc)

def Event.isRound : Event → Bool
  | .dispatch .round _ => true
  | _ => false

/-- `Stop` was called: the round timer does not wait. -/
structure Stopped (c : HealthChecker) : Prop where
  stopped : c.stopped = true
  noRound : ⟨.round, .waiting⟩ ∉ c.pending

theorem stopped_stop (c : HealthChecker) : c.stop.Stopped where
  stopped := rfl
  noRound hm := not_waiting_of_mem_cancel hm rfl rfl

/-- **A stopped checker schedules no round and launches no probe.** -/
theorem Stopped.step {isIpLiteral : Bytes → Bool} {now : Nat} {pool : ServicePool}
    {c : HealthChecker} {e : Event} {t : Turn} (h : c.Stopped)
    (hs : c.step isIpLiteral now pool e = some t) :
    t.checker.Stopped ∧ t.checker.probes = c.probes ∧
      count Op.isRound t.checker.pending + (if e.isRound then 1 else 0) =
        count Op.isRound c.pending := by
  cases e with
  | complete op ec =>
    obtain ⟨hm, rfl⟩ := HealthChecker.of_step_complete hs
    refine ⟨⟨h.stopped, ?_⟩, rfl, count_resolve hm⟩
    intro hr
    rcases mem_resolve hr with hr | hr
    · exact h.noRound hr
    · cases hr
  | dispatch op ec =>
    obtain ⟨hm, rfl⟩ := HealthChecker.of_step_dispatch hs
    have hc := count_consume (f := Op.isRound) hm
    have hrest : ⟨.round, .waiting⟩ ∉ consume c.pending op ec 0 :=
      fun hr => h.noRound (mem_of_mem_consume hr)
    have hcancel : ∀ f : Op → Bool, ⟨.round, .waiting⟩ ∉ cancel f (consume c.pending op ec 0) :=
      fun f hr => hrest (mem_of_waiting_cancel hr)
    cases op with
    | round =>
      rw [handle, if_pos (.inr h.stopped)]
      exact ⟨⟨h.stopped, hrest⟩, rfl, hc⟩
    | timeout probe =>
      rw [handle]
      split
      · exact ⟨⟨h.stopped, hrest⟩, rfl, hc⟩
      · exact ⟨⟨h.stopped, hcancel _⟩, rfl, (count_cancel _ _ _).trans hc⟩
    | connect probe index =>
      rcases connect_checker isIpLiteral now pool
        { c with pending := consume c.pending (.connect probe index) ec 0 } probe index ec with
        ht | ht <;> rw [ht]
      · exact ⟨⟨h.stopped, hcancel _⟩, rfl, (count_cancel _ _ _).trans hc⟩
      · refine ⟨⟨h.stopped, fun hr => hcancel _ (mem_of_waiting_cancel hr)⟩, rfl, ?_⟩
        exact (count_cancel _ _ _).trans ((count_cancel _ _ _).trans hc)

end HealthChecker

/-! ### Runs -/

/-- The checker with its pool, and whoever else uses the pool's counters. -/
structure Monitor where
  now : Nat
  pool : ServicePool
  checker : HealthChecker
  threw : Bool
  outcomes : List Outcome

namespace Monitor

inductive Event
  | tick
  | stop
  | incrementConnections (index : Nat)
  | decrementConnections (index : Nat)
  | checker (e : HealthChecker.Event)
  deriving DecidableEq, Repr

def act (isIpLiteral : Bytes → Bool) (m : Monitor) : Event → Option Monitor
  | .tick => some { m with now := m.now + 1 }
  | .stop => some { m with checker := m.checker.stop }
  | .incrementConnections i => some { m with pool := m.pool.update i .incrementConnections }
  | .decrementConnections i => some { m with pool := m.pool.update i .decrementConnections }
  | .checker e => (m.checker.step isIpLiteral m.now m.pool e).map fun t =>
      { m with pool := t.pool, checker := t.checker, threw := t.threw,
               outcomes := note m.outcomes e }

/-- A handler that throws ends the run. -/
def step (isIpLiteral : Bytes → Bool) (m : Monitor) (e : Event) : Option Monitor :=
  if m.threw then none else m.act isIpLiteral e

def start (now : Nat) (nodes : List ServiceNode) (config : HealthCheckConfig) : Monitor :=
  ⟨now, .ofNodes nodes, (HealthChecker.new config).start now, false, []⟩

variable {isIpLiteral : Bytes → Bool} {m m' : Monitor} {e : Event}

theorem act_of_step (h : m.step isIpLiteral e = some m') : m.act isIpLiteral e = some m' := by
  unfold step at h
  split at h
  · cases h
  · exact h

theorem of_step_checker {e : HealthChecker.Event} (h : m.step isIpLiteral (.checker e) = some m') :
    ∃ t, m.checker.step isIpLiteral m.now m.pool e = some t ∧
      m' = { m with pool := t.pool, checker := t.checker, threw := t.threw,
                    outcomes := note m.outcomes e } := by
  obtain ⟨t, ht, rfl⟩ := Option.map_eq_some_iff.mp (act_of_step h)
  exact ⟨t, ht, rfl⟩

structure Sound (config : HealthCheckConfig) (m : Monitor) : Prop where
  config_eq : m.checker.config = config
  tracks : Tracks config.unhealthyThreshold m.pool m.outcomes
  accounted : Accounted m.checker m.outcomes

theorem sound_start (now : Nat) (nodes : List ServiceNode) (config : HealthCheckConfig) :
    (start now nodes config).Sound config where
  config_eq := HealthChecker.scheduleNextRound_config _ _
  tracks := tracks_ofNodes _ nodes
  accounted := by
    have hnew : Accounted (.new config) [] :=
      ⟨fun k => rfl, fun hm => (nomatch hm), fun o ho => (nomatch ho)⟩
    exact hnew.scheduleNextRound now

theorem Sound.step {config : HealthCheckConfig} (h : m.Sound config)
    (hs : m.step isIpLiteral e = some m') : m'.Sound config := by
  cases e with
  | checker e =>
    obtain ⟨t, ht, rfl⟩ := of_step_checker hs
    obtain ⟨hpool, hconfig⟩ := HealthChecker.step_pool ht
    refine ⟨hconfig.trans h.config_eq, ?_, h.accounted.step ht⟩
    rw [hpool, h.config_eq]
    exact h.tracks.step e
  | tick =>
    obtain rfl := Option.some.inj (act_of_step hs)
    exact ⟨h.config_eq, h.tracks, h.accounted⟩
  | stop =>
    obtain rfl := Option.some.inj (act_of_step hs)
    exact ⟨h.config_eq, h.tracks, h.accounted.stop⟩
  | incrementConnections i =>
    obtain rfl := Option.some.inj (act_of_step hs)
    exact ⟨h.config_eq, h.tracks.update i health_incrementConnections, h.accounted⟩
  | decrementConnections i =>
    obtain rfl := Option.some.inj (act_of_step hs)
    exact ⟨h.config_eq, h.tracks.update i health_decrementConnections, h.accounted⟩

theorem sound_of_reaches {now : Nat} {nodes : List ServiceNode} {config : HealthCheckConfig}
    (h : Reaches (Monitor.step isIpLiteral) (start now nodes config) m) : m.Sound config :=
  h.invariant (sound_start now nodes config) fun hi _ hs => hi.step hs

end Monitor

/-- **The health state machine.**  In every state of every run: the counter of a
service is the run of failed probes since its last success, and the service is
unhealthy exactly when the counter has reached the threshold, at least 1; every
launched probe has one connect pending and no outcome, or none and one outcome,
and both are of the service it was launched for; and a step changes the health
of a service only when it handles a connect, which it notes, and then it applies
one result to the service of that connect. -/
theorem health_state_machine {isIpLiteral : Bytes → Bool} {now : Nat} {nodes : List ServiceNode}
    {config : HealthCheckConfig} {m : Monitor}
    (h : Reaches (Monitor.step isIpLiteral) (Monitor.start now nodes config) m) :
    (∀ i svc, m.pool.getService i = some svc → failedRun m.outcomes i < 2 ^ 64 →
      svc.consecutiveFailures.toNat = failedRun m.outcomes i ∧
      (svc.healthy = false ↔
        max 1 config.unhealthyThreshold.toNat ≤ svc.consecutiveFailures.toNat)) ∧
    (∀ k p, m.checker.probes[k]? = some p →
      count (Op.isConnect k) m.checker.pending + m.outcomes.countP (fun o => o.probe = k) = 1 ∧
      (∀ i st, ⟨.connect k i, st⟩ ∈ m.checker.pending → i = p.index) ∧
      ∀ o ∈ m.outcomes, o.probe = k → o.index = p.index) ∧
    ∀ e m', m.step isIpLiteral e = some m' →
      (∃ k i ec, e = .checker (.dispatch (.connect k i) ec) ∧
        m'.pool = m.pool.update i (probed config.unhealthyThreshold ec) ∧
        m'.outcomes = m.outcomes ++ [⟨k, i, ec.failed⟩]) ∨
      m'.outcomes = m.outcomes ∧
        ∀ i, (m'.pool.getService i).map health = (m.pool.getService i).map health := by
  have hm := Monitor.sound_of_reaches h
  refine ⟨?_, fun k p hp => ⟨?_, ?_, ?_⟩, ?_⟩
  · intro i svc hi hlt
    have hf := hm.tracks i svc hi
    have hn : svc.consecutiveFailures.toNat = failedRun m.outcomes i := by
      rw [hf.failures, Nat.mod_eq_of_lt hlt]
    exact ⟨hn, hn ▸ hf.healthy⟩
  · rw [hm.accounted.tally k, if_pos (List.getElem?_eq_some_iff.mp hp).1]
  · intro i st hc
    have := hm.accounted.bound hc
    rw [hp] at this
    exact (Option.some.inj this).symm
  · intro o ho hk
    have := hm.accounted.noted o ho
    rw [hk, hp] at this
    exact (Option.some.inj this).symm
  · intro e m' he
    cases e with
    | tick =>
      obtain rfl := Option.some.inj (Monitor.act_of_step he)
      exact .inr ⟨rfl, fun i => rfl⟩
    | stop =>
      obtain rfl := Option.some.inj (Monitor.act_of_step he)
      exact .inr ⟨rfl, fun i => rfl⟩
    | incrementConnections j =>
      obtain rfl := Option.some.inj (Monitor.act_of_step he)
      exact .inr ⟨rfl, fun i => ServicePool.map_getService_update _ j i health_incrementConnections⟩
    | decrementConnections j =>
      obtain rfl := Option.some.inj (Monitor.act_of_step he)
      exact .inr ⟨rfl, fun i => ServicePool.map_getService_update _ j i health_decrementConnections⟩
    | checker e =>
      obtain ⟨t, ht, rfl⟩ := Monitor.of_step_checker he
      have hpool := (HealthChecker.step_pool ht).1
      rw [hm.config_eq] at hpool
      rcases e with ⟨op, ec⟩ | ⟨_ | _ | ⟨k, i⟩, ec⟩
      · exact .inr ⟨rfl, fun i => congrArg (fun p => (p.getService i).map health) hpool⟩
      · exact .inr ⟨rfl, fun i => congrArg (fun p => (p.getService i).map health) hpool⟩
      · exact .inr ⟨rfl, fun i => congrArg (fun p => (p.getService i).map health) hpool⟩
      · exact .inl ⟨k, i, ec, rfl, hpool, rfl⟩

/-- One probe of one service fails, and a threshold of 0 counts as 1. -/
theorem health_state_machine_refused : ∃ m svc, run (Monitor.step fun _ => true)
      (Monitor.start 0 [{}] { intervalMs := 0, unhealthyThreshold := 0 })
      [.checker (.complete .round .success), .checker (.dispatch .round .success),
        .checker (.complete (.connect 0 0) (.other 111)),
        .checker (.dispatch (.connect 0 0) (.other 111))] = some m ∧
    m.pool.getService 0 = some svc ∧ svc.consecutiveFailures.toNat = 1 ∧ svc.healthy = false := by
  have hrun : (run (Monitor.step fun _ => true)
      (Monitor.start 0 [{}] { intervalMs := 0, unhealthyThreshold := 0 })
      [.checker (.complete .round .success), .checker (.dispatch .round .success),
        .checker (.complete (.connect 0 0) (.other 111)),
        .checker (.dispatch (.connect 0 0) (.other 111))]).map (fun m =>
      (failedRun m.outcomes 0, (m.pool.getService 0).isSome)) = some (1, true) := by decide
  obtain ⟨m, hm, hv⟩ := Option.map_eq_some_iff.mp hrun
  obtain ⟨hn, hsome⟩ := Prod.mk.inj hv
  obtain ⟨svc, hsvc⟩ := Option.isSome_iff_exists.mp hsome
  obtain ⟨hc, hh⟩ := (health_state_machine (reaches_of_run hm)).1 0 svc hsvc (by rw [hn]; decide)
  rw [hn] at hc
  exact ⟨m, svc, hm, hsvc, hc, hh.mpr (by rw [hc]; decide)⟩

end BitBridge.Health
