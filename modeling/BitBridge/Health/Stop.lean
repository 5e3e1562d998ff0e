import BitBridge.Health.Monitor

/-!
# After `Stop`

`Stop` sets `m_stopped` and cancels the round timer.  The handler of the round
looks at `m_stopped`; `OnProbeResult` does not, and no probe is closed.

* `health_probed_eq_iff`: the one probe result that changes nothing.
* `stop_freezes`: **no probe is launched after `Stop`**, and the health of the
  services is frozen exactly when no probe in flight can still change it.
* `failed_after_stop`: a probe in flight at `Stop` that fails afterwards.
-/

namespace BitBridge.Health

open Proactor Steps

variable {isIpLiteral : Bytes → Bool}

theorem failures_probed (thr : UInt32) {ec : ErrorCode} (h : ec.failed = true)
    (svc : ServiceState) :
    (probed thr ec svc).consecutiveFailures = svc.consecutiveFailures + 1 := by
  rw [probed, if_pos h]
  dsimp only
  split <;> rfl

/-- **The result that changes nothing** is a success of a service that is
healthy and has no failures. -/
theorem health_probed_eq_iff {thr : UInt32} {ec : ErrorCode} {svc : ServiceState} :
    health (probed thr ec svc) = health svc ↔ ec = .success ∧ health svc = (0, true) := by
  cases hec : ec.failed with
  | true =>
    have hne : ec ≠ .success := by
      rintro rfl
      cases hec
    simp only [hne, false_and, iff_false]
    intro h
    have h1 := (failures_probed thr hec svc).symm.trans (congrArg Prod.fst h)
    exact absurd (UInt64.add_eq_left.mp h1) (by decide)
  | false =>
    obtain rfl := ErrorCode.failed_eq_false.mp hec
    simp only [true_and]
    exact eq_comm

namespace HealthChecker

variable {now : Nat} {pool : ServicePool} {c : HealthChecker} {t : Turn} {e : Event}

theorem Stopped.connect_step (h : c.Stopped) (hs : c.step isIpLiteral now pool e = some t)
    {k i : Nat} {st : Status} (hm : ⟨.connect k i, st⟩ ∈ t.checker.pending) :
    ⟨.connect k i, st⟩ ∈ c.pending ∨ ⟨.connect k i, .waiting⟩ ∈ c.pending := by
  have hcancel : ∀ {f : Op → Bool} {l : List (Pending Op)}, ⟨.connect k i, st⟩ ∈ cancel f l →
      ⟨.connect k i, st⟩ ∈ l ∨ ⟨.connect k i, .waiting⟩ ∈ l := by
    intro f l hl
    rcases mem_cancel hl with ⟨hl, -⟩ | ⟨⟨op, st'⟩, hq, rfl, -, rfl, -⟩
    · exact .inl hl
    · exact .inr hq
  cases e with
  | complete op ec =>
    obtain ⟨hw, rfl⟩ := of_step_complete hs
    rcases mem_resolve hm with hm | hm
    · exact .inl hm
    · cases hm
      exact .inr hw
  | dispatch op ec =>
    obtain ⟨-, rfl⟩ := of_step_dispatch hs
    have hrest : ∀ st', ⟨.connect k i, st'⟩ ∈ consume c.pending op ec 0 →
        ⟨.connect k i, st'⟩ ∈ c.pending := fun _ hp => mem_of_mem_consume hp
    cases op with
    | round =>
      rw [handle, if_pos (.inr h.stopped)] at hm
      exact .inl (hrest _ hm)
    | timeout probe =>
      rw [handle] at hm
      split at hm
      · exact .inl (hrest _ hm)
      · exact (hcancel hm).imp (hrest _) (hrest _)
    | connect probe index =>
      rcases connect_checker isIpLiteral now pool
        { c with pending := consume c.pending (.connect probe index) ec 0 } probe index ec with
        ht | ht <;> rw [ht] at hm
      · exact (hcancel hm).imp (hrest _) (hrest _)
      · rw [closeSocket, cancelTimer, cancel_cancel] at hm
        exact (hcancel hm).imp (hrest _) (hrest _)

end HealthChecker

namespace Monitor

variable {m u v : Monitor} {e : Event}

/-- Each connect that is pending has succeeded, at a service that is healthy and
has no failures. -/
def Settled (m : Monitor) : Prop :=
  ∀ k i st svc, ⟨.connect k i, st⟩ ∈ m.checker.pending → m.pool.getService i = some svc →
    st = .queued .success 0 ∧ health svc = (0, true)

/-- No step that is left changes the health of a service. -/
def Frozen (isIpLiteral : Bytes → Bool) (v : Monitor) : Prop :=
  ∀ u, Reaches (step isIpLiteral) v u →
    ∀ i, (u.pool.getService i).map health = (v.pool.getService i).map health

theorem of_step_stop (h : m.step isIpLiteral .stop = some v) :
    v = { m with checker := m.checker.stop } ∧ m.threw = false := by
  unfold step at h
  split at h
  · cases h
  · next ht => exact ⟨(Option.some.inj h).symm, by simpa using ht⟩

theorem plain_step (h : Plain m.checker.pending) (hs : m.step isIpLiteral e = some u) :
    Plain u.checker.pending := by
  cases e with
  | checker e =>
    obtain ⟨t, ht, rfl⟩ := of_step_checker hs
    exact HealthChecker.plain_step h ht
  | stop =>
    obtain rfl := Option.some.inj (act_of_step hs)
    exact plain_cancel h
  | tick | incrementConnections | decrementConnections =>
    obtain rfl := Option.some.inj (act_of_step hs)
    exact h

theorem plain_of_reaches {now : Nat} {nodes : List ServiceNode} {config : HealthCheckConfig}
    (h : Reaches (step isIpLiteral) (start now nodes config) m) : Plain m.checker.pending := by
  refine h.invariant (I := fun m => Plain m.checker.pending) ?_ fun hi _ hs => plain_step hi hs
  refine HealthChecker.plain_scheduleNextRound (fun op ec n hm => ?_) now
  cases hm

/-! ### The checker rests -/

theorem stopped_step (h : m.checker.Stopped) (hs : m.step isIpLiteral e = some u) :
    u.checker.Stopped ∧ u.checker.probes = m.checker.probes := by
  cases e with
  | checker e =>
    obtain ⟨t, ht, rfl⟩ := of_step_checker hs
    obtain ⟨hstop, hprobes, -⟩ := h.step ht
    exact ⟨hstop, hprobes⟩
  | stop =>
    obtain rfl := Option.some.inj (act_of_step hs)
    exact ⟨HealthChecker.stopped_stop _, rfl⟩
  | tick | incrementConnections | decrementConnections =>
    obtain rfl := Option.some.inj (act_of_step hs)
    exact ⟨h, rfl⟩

theorem probes_of_stopped (h : v.checker.Stopped) (hu : Reaches (step isIpLiteral) v u) :
    u.checker.probes = v.checker.probes :=
  (hu.invariant (I := fun u => u.checker.Stopped ∧ u.checker.probes = v.checker.probes) ⟨h, rfl⟩
    fun hi _ hs => ⟨(stopped_step hi.1 hs).1, (stopped_step hi.1 hs).2.trans hi.2⟩).2

/-! ### The health rests -/

theorem Settled.congr (h : m.Settled)
    (hc : ∀ {k i st}, ⟨.connect k i, st⟩ ∈ u.checker.pending →
      ⟨.connect k i, st⟩ ∈ m.checker.pending ∨ ⟨.connect k i, .waiting⟩ ∈ m.checker.pending)
    (hp : ∀ i, (u.pool.getService i).map health = (m.pool.getService i).map health) :
    u.Settled := by
  intro k i st svc hm hi
  have hmap := hp i
  rw [hi] at hmap
  obtain ⟨svc', hi', hh⟩ := Option.map_eq_some_iff.mp hmap.symm
  rcases hc hm with hm | hm
  · obtain ⟨hst, hhealth⟩ := h k i st svc' hm hi'
    exact ⟨hst, hh ▸ hhealth⟩
  · cases (h k i _ svc' hm hi').1

/-- **A step from a settled state** changes no health and leaves it settled. -/
theorem Settled.step (h : m.Settled) (hstop : m.checker.Stopped)
    (hs : m.step isIpLiteral e = some u) :
    u.Settled ∧ ∀ i, (u.pool.getService i).map health = (m.pool.getService i).map health := by
  cases e with
  | tick =>
    obtain rfl := Option.some.inj (act_of_step hs)
    exact ⟨h, fun i => rfl⟩
  | stop =>
    obtain rfl := Option.some.inj (act_of_step hs)
    refine ⟨h.congr (fun hm => ?_) fun i => rfl, fun i => rfl⟩
    rcases mem_cancel hm with ⟨hm, -⟩ | ⟨_, -, -, hr, -⟩
    · exact .inl hm
    · cases hr
  | incrementConnections j =>
    obtain rfl := Option.some.inj (act_of_step hs)
    have hp := fun i => ServicePool.map_getService_update m.pool j i health_incrementConnections
    exact ⟨h.congr .inl hp, hp⟩
  | decrementConnections j =>
    obtain rfl := Option.some.inj (act_of_step hs)
    have hp := fun i => ServicePool.map_getService_update m.pool j i health_decrementConnections
    exact ⟨h.congr .inl hp, hp⟩
  | checker e =>
    obtain ⟨t, ht, rfl⟩ := of_step_checker hs
    have hpool := (HealthChecker.step_pool ht).1
    have hp : ∀ i, (t.pool.getService i).map health = (m.pool.getService i).map health := by
      intro j
      rw [hpool]
      rcases e with ⟨op, ec⟩ | ⟨_ | _ | ⟨k, i⟩, ec⟩
      · rfl
      · rfl
      · rfl
      · rw [effect, ServicePool.getService_update, Option.map_map]
        split
        · next hij =>
          subst hij
          cases hi : m.pool.getService i with
          | none => rfl
          | some svc =>
            obtain ⟨hst, hhealth⟩ := h k i _ svc (HealthChecker.of_step_dispatch ht).1 hi
            cases hst
            exact congrArg some (health_probed_eq_iff.mpr ⟨rfl, hhealth⟩)
        · rfl
    exact ⟨h.congr (fun hm => hstop.connect_step ht hm) hp, hp⟩

theorem frozen_of_settled (h : v.Settled) (hstop : v.checker.Stopped) : v.Frozen isIpLiteral := by
  intro u hu
  refine (hu.invariant (I := fun u => u.checker.Stopped ∧ u.Settled ∧
    ∀ i, (u.pool.getService i).map health = (v.pool.getService i).map health)
    ⟨hstop, h, fun i => rfl⟩ ?_).2.2
  rintro s t e ⟨hst, hset, hp⟩ - hs
  obtain ⟨hset', hp'⟩ := hset.step hst hs
  exact ⟨(stopped_step hst hs).1, hset', fun i => (hp' i).trans (hp i)⟩

/-! ### What can still happen -/

/-- A result that is queued is applied, if the run goes on with its handler. -/
theorem exists_dispatch (isIpLiteral : Bytes → Bool) {k i : Nat} {ec : ErrorCode}
    (ht : v.threw = false) (hm : ⟨.connect k i, .queued ec 0⟩ ∈ v.checker.pending) :
    ∃ u, v.step isIpLiteral (.checker (.dispatch (.connect k i) ec)) = some u ∧
      u.pool = v.pool.update i (probed v.checker.config.unhealthyThreshold ec) := by
  obtain ⟨t, ht'⟩ : ∃ t, v.checker.step isIpLiteral v.now v.pool (.dispatch (.connect k i) ec) =
      some t := ⟨_, if_pos hm⟩
  refine ⟨{ v with pool := t.pool, checker := t.checker, threw := t.threw,
                   outcomes := note v.outcomes (.dispatch (.connect k i) ec) }, ?_,
    (HealthChecker.step_pool ht').1⟩
  rw [step, if_neg (by simp [ht]), act, ht', Option.map_some]

theorem eq_success_of_frozen (h : v.Frozen isIpLiteral) (ht : v.threw = false) {k i : Nat}
    {ec : ErrorCode} {svc : ServiceState} (hi : v.pool.getService i = some svc)
    (hm : ⟨.connect k i, .queued ec 0⟩ ∈ v.checker.pending) :
    ec = .success ∧ health svc = (0, true) := by
  obtain ⟨u, hu, hp⟩ := exists_dispatch isIpLiteral ht hm
  have hf := h u (.single trivial hu) i
  simp only [hp, ServicePool.getService_update, if_true, hi, Option.map_some] at hf
  exact health_probed_eq_iff.mp (Option.some.inj hf)

/-- A connect that waits can fail. -/
theorem not_frozen_of_waiting (ht : v.threw = false) {k i : Nat} {svc : ServiceState}
    (hi : v.pool.getService i = some svc) (hm : ⟨.connect k i, .waiting⟩ ∈ v.checker.pending) :
    ¬v.Frozen isIpLiteral := by
  intro h
  let u : Monitor := { v with
    checker := { v.checker with
      pending := resolve v.checker.pending (.connect k i) .eof 0 }
    outcomes := v.outcomes }
  have hu : v.step isIpLiteral (.checker (.complete (.connect k i) .eof)) = some u := by
    rw [step, if_neg (by simp [ht]), act, HealthChecker.step, if_pos ⟨hm, rfl⟩]
    simp only [Option.map_some, note, u, ht]
  have hf : u.Frozen isIpLiteral := fun w hw => h w ((ReachesIn.single trivial hu).trans hw)
  have hq : ⟨.connect k i, .queued .eof 0⟩ ∈ u.checker.pending :=
    List.mem_append_right _ (List.mem_singleton_self _)
  cases (eq_success_of_frozen hf ht hi hq).1

theorem settled_of_frozen (h : v.Frozen isIpLiteral) (ht : v.threw = false)
    (hplain : Plain v.checker.pending) : v.Settled := by
  rintro k i (_ | ⟨ec, n⟩) svc hm hi
  · exact absurd h (not_frozen_of_waiting ht hi hm)
  · obtain rfl := hplain _ _ _ hm
    obtain ⟨rfl, hhealth⟩ := eq_success_of_frozen h ht hi hm
    exact ⟨rfl, hhealth⟩

theorem settled_stop_iff : Settled { m with checker := m.checker.stop } ↔ m.Settled := by
  have hiff : ∀ {k i st}, ⟨.connect k i, st⟩ ∈ m.checker.stop.pending ↔
      ⟨.connect k i, st⟩ ∈ m.checker.pending := by
    intro k i st
    refine ⟨fun hm => ?_, fun hm => List.mem_map.mpr ⟨_, hm, if_neg fun hc => nomatch hc.1⟩⟩
    rcases mem_cancel hm with ⟨hm, -⟩ | ⟨_, -, -, hr, -⟩
    · exact hm
    · cases hr
  exact forall₄_congr fun k i st svc => imp_congr_left hiff

end Monitor

/-- **`Stop` and the health of the services.**  From the state that `Stop` leaves
in any run, no later step launches a probe; and no later step, in any order,
changes the failure counter or the flag of a service if and only if every
connect that was pending had succeeded already, at a service that was healthy
and had no failures. -/
theorem stop_freezes {now : Nat} {nodes : List ServiceNode} {config : HealthCheckConfig}
    {m v : Monitor} (h : Reaches (Monitor.step isIpLiteral) (Monitor.start now nodes config) m)
    (hs : m.step isIpLiteral .stop = some v) :
    (∀ u, Reaches (Monitor.step isIpLiteral) v u → u.checker.probes = v.checker.probes) ∧
      (v.Frozen isIpLiteral ↔ m.Settled) := by
  have hplain := Monitor.plain_step (Monitor.plain_of_reaches h) hs
  obtain ⟨rfl, ht⟩ := Monitor.of_step_stop hs
  have hstop := HealthChecker.stopped_stop m.checker
  refine ⟨fun u hu => Monitor.probes_of_stopped hstop hu, ?_⟩
  rw [← Monitor.settled_stop_iff]
  exact ⟨fun hf => Monitor.settled_of_frozen hf ht hplain,
    fun hset => Monitor.frozen_of_settled hset hstop⟩

/-- The connect of a probe is queued with success when the checker is stopped. -/
theorem stop_freezes_connected : ∃ m v, run (Monitor.step fun _ => true)
      (Monitor.start 0 [{}] { intervalMs := 0 })
      [.checker (.complete .round .success), .checker (.dispatch .round .success),
        .checker (.complete (.connect 0 0) .success)] = some m ∧
    m.step (fun _ => true) .stop = some v ∧
    ⟨.connect 0 0, .queued .success 0⟩ ∈ v.checker.pending ∧ v.Frozen fun _ => true := by
  obtain ⟨m, v, hm, hv, hp, hhealth, hq⟩ : ∃ m v : Monitor, run (Monitor.step fun _ => true)
        (Monitor.start 0 [{}] { intervalMs := 0 })
        [.checker (.complete .round .success), .checker (.dispatch .round .success),
          .checker (.complete (.connect 0 0) .success)] = some m ∧
      m.step (fun _ => true) .stop = some v ∧
      m.checker.pending = [⟨.timeout 0, .waiting⟩, ⟨.round, .waiting⟩,
        ⟨.connect 0 0, .queued .success 0⟩] ∧
      (m.pool.getService 0).map health = some (0, true) ∧
      ⟨.connect 0 0, .queued .success 0⟩ ∈ v.checker.pending :=
    ⟨_, _, rfl, rfl, rfl, rfl, by decide⟩
  refine ⟨m, v, hm, hv, hq, (stop_freezes (reaches_of_run hm) hv).2.mpr ?_⟩
  intro k i st svc hmem hsvc
  obtain ⟨⟨rfl, rfl⟩, rfl⟩ : (k = 0 ∧ i = 0) ∧ st = .queued .success 0 := by
    simpa [hp] using hmem
  rw [hsvc] at hhealth
  exact ⟨rfl, Option.some.inj hhealth⟩

/-- A probe that is in flight at `Stop` and fails afterwards is counted. -/
theorem failed_after_stop : ¬∀ (isIpLiteral : Bytes → Bool) (now : Nat) (nodes : List ServiceNode)
    (config : HealthCheckConfig) (m v u : Monitor),
    Reaches (Monitor.step isIpLiteral) (Monitor.start now nodes config) m →
      m.step isIpLiteral .stop = some v → Reaches (Monitor.step isIpLiteral) v u →
        u.checker.probes = v.checker.probes ∧
          ∀ i, (u.pool.getService i).map health = (v.pool.getService i).map health := by
  intro h
  obtain ⟨m, v, u, hm, hv, hu, hne⟩ : ∃ m v u : Monitor,
      run (Monitor.step fun _ => true) (Monitor.start 0 [{}] { intervalMs := 0 })
        [.checker (.complete .round .success), .checker (.dispatch .round .success)] = some m ∧
      m.step (fun _ => true) .stop = some v ∧
      run (Monitor.step fun _ => true) v [.checker (.complete (.connect 0 0) (.other 111)),
        .checker (.dispatch (.connect 0 0) (.other 111))] = some u ∧
      (u.pool.getService 0).map health ≠ (v.pool.getService 0).map health :=
    ⟨_, _, _, rfl, rfl, rfl, by decide⟩
  exact hne ((h _ 0 [{}] { intervalMs := 0 } m v u (reaches_of_run hm) hv (reaches_of_run hu)).2 0)

end BitBridge.Health
