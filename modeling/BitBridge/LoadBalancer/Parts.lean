import BitBridge.LoadBalancer.Steps
import BitBridge.Proxy.World

/-!
# The parts of a running program

`Proxy.World` is one session with a clock, and `Health.Monitor` the health
checker with a pool whose counters others use.  Both are parts of the load
balancer: what is proved of their runs holds inside it.

* `exists_world`: **every session of a running program is in a run of its own.**
* `monitor_of_reaches`: **and so is the health checker**, whose pool the
  sessions and the proxy see.
-/

namespace BitBridge.LoadBalancer

open Proactor Proxy Health Steps

variable {σ : Type} {E : Env σ} {s v : LoadBalancer σ} {e : Event}

/-! ### The sessions -/

/-- The session has come to where it is at `now` by a run of its own. -/
def InRun (conn : ConnectionConfig) (now : Nat) (x : Session) : Prop :=
  ∃ t i tr, Reaches World.step (World.start t i conn.connectTimeoutMs conn.idleTimeoutMs)
    ⟨now, x, tr⟩

theorem InRun.tick {conn : ConnectionConfig} {now : Nat} {x : Session} (h : InRun conn now x) :
    InRun conn (now + 1) x := by
  obtain ⟨t, i, tr, hx⟩ := h
  exact ⟨t, i, tr, .tail (e := .tick) hx trivial rfl⟩

theorem InRun.step {conn : ConnectionConfig} {now : Nat} {x y : Session} {e : Session.Event}
    (h : InRun conn now x) (hy : x.step now e = some y) : InRun conn now y := by
  obtain ⟨t, i, tr, hx⟩ := h
  refine ⟨t, i, tr.record now x e, .tail (e := .session e) hx trivial ?_⟩
  rw [World.step, hy]
  rfl

/-- While the program runs, each of its sessions is in a run of its own. -/
structure Hosts (conn : ConnectionConfig) (s : LoadBalancer σ) : Prop where
  connectTimeoutMs : s.connectTimeoutMs = conn.connectTimeoutMs
  idleTimeoutMs : s.idleTimeoutMs = conn.idleTimeoutMs
  inRun : s.running = true → ∀ x ∈ s.sessions, InRun conn s.now x

namespace Hosts

variable {conn : ConnectionConfig}

theorem congr (h : s.Hosts conn) (hct : v.connectTimeoutMs = s.connectTimeoutMs)
    (hit : v.idleTimeoutMs = s.idleTimeoutMs)
    (hin : v.running = true → ∀ x ∈ v.sessions, InRun conn v.now x) : v.Hosts conn :=
  ⟨hct.trans h.connectTimeoutMs, hit.trans h.idleTimeoutMs, hin⟩

theorem accepted {peer : Option Bytes} {fuel : Nat} {ec : ErrorCode} (h : s.Hosts conn)
    (ha : Accepted E s peer fuel ec v) : v.Hosts conn := by
  cases ha with
  | aborted => exact h
  | failed => exact h.congr rfl rfl h.inRun
  | gone => exact h.congr rfl rfl fun hr => nomatch hr
  | lost => exact h.congr rfl rfl fun hr => nomatch hr
  | dropped => exact h.congr rfl rfl h.inRun
  | @started _ i _ strategy =>
    refine h.congr rfl rfl ?_
    intro hr x hx
    rcases List.mem_append.mp hx with hx | hx
    · exact h.inRun hr x hx
    · rw [List.mem_singleton.mp hx, h.connectTimeoutMs, h.idleTimeoutMs]
      exact ⟨s.now, i, .empty, .refl⟩
  | refused => exact h.congr rfl rfl fun hr => nomatch hr

theorem step (h : s.Hosts conn) (hs : s.step E e = some v) : v.Hosts conn := by
  cases stepped_of_step hs with
  | tick => exact h.congr rfl rfl fun hr x hx => (h.inRun hr x hx).tick
  | complete => exact h.congr rfl rfl h.inRun
  | @accept ec _ _ _ _ _ ha =>
    have hd : (s.dequeue .accept ec).Hosts conn := h.congr rfl rfl h.inRun
    exact hd.accepted ha
  | signal =>
    unfold onSignal
    split <;> exact h.congr rfl rfl h.inRun
  | @session k e x y hr hx hy =>
    refine h.congr (setSession_connectTimeoutMs s k y) (setSession_idleTimeoutMs s k y) ?_
    intro _ z hz
    rw [setSession_now]
    rw [setSession_sessions] at hz
    rcases List.mem_or_eq_of_mem_set hz with hz | rfl
    · exact h.inRun hr z hz
    · exact (h.inRun hr x (List.mem_of_getElem? hx)).step hy
  | checker hr => exact h.congr rfl rfl fun _ => h.inRun hr
  | destroy hr =>
    refine h.congr (setSession_connectTimeoutMs _ _ _) (setSession_idleTimeoutMs _ _ _) ?_
    intro hv
    rw [setSession_running, hr] at hv
    cases hv

end Hosts

/-! ### The health checker -/

/-- While the program runs, its checker and its pool are in a run of the monitor. -/
def Monitored (E : Env σ) (m : Monitor) (s : LoadBalancer σ) : Prop :=
  s.running = true → ∃ c, s.checker = some c ∧
    Reaches (Monitor.step E.isIpLiteral) m ⟨s.now, s.pool, c, false, s.outcomes⟩

namespace Monitored

variable {m : Monitor}

theorem congr (h : s.Monitored E m) (hr : v.running = true → s.running = true)
    (hc : v.checker = s.checker) (hn : v.now = s.now) (hp : v.pool = s.pool)
    (ho : v.outcomes = s.outcomes) : v.Monitored E m := by
  intro hv
  obtain ⟨c, hcs, hm⟩ := h (hr hv)
  exact ⟨c, hc.trans hcs, by rw [hn, hp, ho]; exact hm⟩

theorem incrementConnections (h : s.Monitored E m) (i : Nat) :
    (s.incrementConnections i).Monitored E m := by
  intro hr
  obtain ⟨c, hc, hm⟩ := h hr
  exact ⟨c, hc, .tail (e := .incrementConnections i) hm trivial rfl⟩

theorem decrementConnections (h : s.Monitored E m) (i : Nat) :
    (s.decrementConnections i).Monitored E m := by
  intro hr
  obtain ⟨c, hc, hm⟩ := h hr
  exact ⟨c, hc, .tail (e := .decrementConnections i) hm trivial rfl⟩

theorem setSession (h : s.Monitored E m) (k : Nat) (x : Session) :
    (s.setSession k x).Monitored E m := by
  have hset : Monitored E m { s with sessions := s.sessions.set k x } :=
    h.congr id rfl rfl rfl rfl
  exact setSession_of_cases (P := fun v => v.Monitored E m) hset (hset.decrementConnections _)

theorem accepted {peer : Option Bytes} {fuel : Nat} {ec : ErrorCode} (h : s.Monitored E m)
    (ha : Accepted E s peer fuel ec v) : v.Monitored E m := by
  cases ha with
  | aborted => exact h
  | failed => exact h.congr id rfl rfl rfl rfl
  | gone => exact fun hr => nomatch hr
  | lost => exact fun hr => nomatch hr
  | dropped => exact h.congr id rfl rfl rfl rfl
  | @started _ i _ strategy =>
    have hset : (s.setStrategy strategy).Monitored E m := h.congr id rfl rfl rfl rfl
    exact (hset.incrementConnections i).congr id rfl rfl rfl rfl
  | refused => exact fun hr => nomatch hr

theorem step (h : s.Monitored E m) (hs : s.step E e = some v) : v.Monitored E m := by
  cases stepped_of_step hs with
  | tick =>
    intro hr
    obtain ⟨c, hc, hm⟩ := h hr
    exact ⟨c, hc, .tail (e := .tick) hm trivial rfl⟩
  | complete => exact h.congr id rfl rfl rfl rfl
  | @accept ec _ _ _ _ _ ha =>
    have hd : (s.dequeue .accept ec).Monitored E m := h.congr id rfl rfl rfl rfl
    exact hd.accepted ha
  | signal =>
    unfold onSignal
    split
    · exact h.congr id rfl rfl rfl rfl
    · intro hr
      obtain ⟨c, hc, hm⟩ := h hr
      exact ⟨c.stop, congrArg (Option.map _) hc, .tail (e := .stop) hm trivial rfl⟩
  | session => exact h.setSession _ _
  | @checker e c t hr hc ht =>
    intro hv
    obtain ⟨c', hc', hm⟩ := h hr
    obtain rfl := Option.some.inj (hc.symm.trans hc')
    have hthrew : t.threw = false := by simpa using hv
    refine ⟨t.checker, rfl, .tail (e := .checker e) hm trivial ?_⟩
    rw [Monitor.step, if_neg Bool.false_ne_true, Monitor.act, ht, Option.map_some, hthrew]
  | destroy => exact h.setSession _ _

end Monitored

/-! ### Every run -/

section Run

variable {now : Nat} {nodes : List ServiceNode} {strategy : Strategy σ} {conn : ConnectionConfig}
  {hc : HealthCheckConfig}

/-- **A session of a running program** is in a run of its own, with the timeouts
of the configuration. -/
theorem exists_world (h : Reaches (step E) (start now nodes strategy conn hc) s)
    (hr : s.running = true) {x : Session} (hx : x ∈ s.sessions) :
    ∃ t i tr, Reaches World.step (World.start t i conn.connectTimeoutMs conn.idleTimeoutMs)
      ⟨s.now, x, tr⟩ := by
  have hosts : s.Hosts conn := by
    refine h.invariant (I := Hosts conn) ?_ fun hi _ hs => hi.step hs
    unfold start
    split <;> exact ⟨rfl, rfl, fun _ x hx => nomatch hx⟩
  exact hosts.inRun hr x hx

/-- **The checker of a running program** is in a run of the monitor. -/
theorem monitor_of_reaches (henabled : hc.enabled = true)
    (h : Reaches (step E) (start now nodes strategy conn hc) s) (hr : s.running = true) :
    ∃ c, s.checker = some c ∧ Reaches (Monitor.step E.isIpLiteral) (Monitor.start now nodes hc)
      ⟨s.now, s.pool, c, false, s.outcomes⟩ := by
  refine h.invariant (I := Monitored E (Monitor.start now nodes hc)) ?_
    (fun hi _ hs => hi.step hs) hr
  intro _
  rw [start, if_pos henabled]
  exact ⟨_, rfl, .refl⟩

end Run

end BitBridge.LoadBalancer
