import BitBridge.LoadBalancer.AcceptLoop

/-!
# Graceful shutdown

The signal handler stops the health checker, which sets a flag, and the proxy,
which closes its acceptor and sets none.  An accept that was queued by then with
anything but an abortion still runs `OnAccept`, which serves the connection and
calls `AcceptNext`; on the closed acceptor that accept fails at once, and its
handler calls `AcceptNext` again.

The operations of `main`, of the proxy and of the round timer are the program's
`control` operations; the others belong to sessions and probes.

* `Drains`: after the stop there is no new session, accept or round, and what
  control operations there are can be delivered, each of them for good.
* `shutdown_drains`: **the stop drains exactly when no accept is queued with
  another result than `operationAborted`.**
* `session_after_stop`: a connection that was queued by then is served.
-/

namespace BitBridge.LoadBalancer

open Proactor Proxy Health Steps

variable {σ : Type} {E : Env σ} {s u v w : LoadBalancer σ} {e : Event}

def Op.isSignal : Op → Bool
  | .signal => true
  | .accept => false

def rounds (s : LoadBalancer σ) : Nat :=
  match s.checker with
  | some c => count Health.Op.isRound c.pending
  | none => 0

def control (s : LoadBalancer σ) : Nat := s.pending.length + s.rounds

def Event.isControl : Event → Bool
  | .accept _ _ _ => true
  | .signal _ => true
  | .checker e => e.isRound
  | _ => false

/-! ### Before the stop -/

/-- What holds of the control operations in every state. -/
structure Tame (s : LoadBalancer σ) : Prop where
  plain : Plain s.pending
  checker : ∀ c, s.checker = some c → Plain c.pending
  signal : count Op.isSignal s.pending ≤ 1

namespace Tame

theorem congr (h : s.Tame) (hp : v.pending = s.pending) (hc : v.checker = s.checker) : v.Tame :=
  ⟨hp ▸ h.plain, hc ▸ h.checker, hp ▸ h.signal⟩

theorem acceptNext (h : s.Tame) : s.acceptNext.Tame where
  plain := by
    refine plain_append h.plain ?_
    intro op ec n hm
    cases ho : s.acceptorOpen <;> simp [ho] at hm
    exact hm.2.2
  checker := h.checker
  signal := by
    rw [LoadBalancer.acceptNext, count_append]
    exact h.signal

theorem dequeue (h : s.Tame) (op : Op) (ec : ErrorCode) : (s.dequeue op ec).Tame where
  plain := plain_consume h.plain op ec 0
  checker := h.checker
  signal := (List.Sublist.countP_le List.erase_sublist).trans h.signal

theorem accepted {peer : Option Bytes} {fuel : Nat} {ec : ErrorCode} (h : s.Tame)
    (ha : Accepted E s peer fuel ec v) : v.Tame := by
  cases ha with
  | aborted => exact h
  | failed => exact h.acceptNext
  | gone => exact h.congr rfl rfl
  | lost => exact h.congr rfl rfl
  | dropped => exact Tame.acceptNext (h.congr rfl rfl)
  | started => exact Tame.acceptNext (h.congr rfl rfl)
  | refused => exact h.congr rfl rfl

theorem setSession (h : s.Tame) (k : Nat) (x : Session) : (s.setSession k x).Tame :=
  h.congr (setSession_pending s k x) (setSession_checker s k x)

theorem stop (h : s.Tame) : s.stop.Tame where
  plain := plain_cancel h.plain
  checker := h.checker
  signal := (count_cancel _ _ _).le.trans h.signal

theorem onSignal (h : s.Tame) (ec : ErrorCode) : (s.onSignal ec).Tame := by
  unfold LoadBalancer.onSignal
  split
  · exact h
  · refine Tame.stop ⟨h.plain, ?_, h.signal⟩
    intro c hc
    obtain ⟨c', hc', rfl⟩ := Option.map_eq_some_iff.mp hc
    exact plain_cancel (h.checker c' hc')

theorem step (h : s.Tame) (hs : s.step E e = some v) : v.Tame := by
  cases stepped_of_step hs with
  | tick => exact h.congr rfl rfl
  | @complete op ec _ hm =>
    exact ⟨plain_resolve h.plain op ec, h.checker, (count_resolve hm).le.trans h.signal⟩
  | accept _ _ ha => exact (h.dequeue _ _).accepted ha
  | signal => exact (h.dequeue _ _).onSignal _
  | session => exact h.setSession _ _
  | checker _ hc ht =>
    refine ⟨h.plain, ?_, h.signal⟩
    intro c' hc'
    obtain rfl := Option.some.inj hc'
    exact HealthChecker.plain_step (h.checker _ hc) ht
  | destroy => exact h.setSession _ _

end Tame

theorem tame_of_reaches {now : Nat} {nodes : List ServiceNode} {strategy : Strategy σ}
    {conn : ConnectionConfig} {hc : HealthCheckConfig}
    (h : Reaches (step E) (start now nodes strategy conn hc) s) : s.Tame := by
  refine h.invariant (I := Tame) ?_ fun hi _ hs => hi.step hs
  have hi : (initial now nodes strategy conn).acceptNext.Tame :=
    Tame.acceptNext ⟨plain_waiting _, fun c hc => (nomatch hc), le_rfl⟩
  unfold start
  split
  · refine ⟨hi.plain, ?_, hi.signal⟩
    intro c hc'
    obtain rfl := Option.some.inj hc'
    have hnew : Plain (HealthChecker.new hc).pending := fun _ _ _ hm => nomatch hm
    exact HealthChecker.plain_scheduleNextRound hnew now
  · exact hi

/-! ### After the stop -/

/-- The program was stopped in `v`, with no accept to serve, and is now in `u`. -/
structure Stopping (v u : LoadBalancer σ) : Prop where
  closed : u.acceptorOpen = false
  aborted : ∀ p ∈ u.pending, p = ⟨.accept, .queued .operationAborted 0⟩
  checker : ∀ c, u.checker = some c → c.Stopped ∧ Plain c.pending
  sessions : u.sessions.length = v.sessions.length
  accepts : u.log.count .asyncAccept = v.log.count .asyncAccept

namespace Stopping

theorem congr (h : Stopping v u) (ho : w.acceptorOpen = u.acceptorOpen)
    (hp : w.pending = u.pending) (hc : w.checker = u.checker)
    (hs : w.sessions.length = u.sessions.length)
    (hl : w.log.count .asyncAccept = u.log.count .asyncAccept) : Stopping v w :=
  ⟨ho.trans h.closed, hp ▸ h.aborted, hc ▸ h.checker, hs.trans h.sessions, hl.trans h.accepts⟩

theorem setSession (h : Stopping v u) (k : Nat) (x : Session) : Stopping v (u.setSession k x) := by
  refine h.congr (setSession_acceptorOpen u k x) (setSession_pending u k x)
    (setSession_checker u k x) ?_ ?_
  · rw [setSession_sessions, List.length_set]
  · refine setSession_of_cases (P := fun v => v.log.count .asyncAccept = _) rfl ?_
    rw [decrementConnections, List.count_append]
    rfl

theorem control_setSession (u : LoadBalancer σ) (k : Nat) (x : Session) :
    (u.setSession k x).control = u.control := by
  rw [control, control, rounds, rounds, setSession_pending, setSession_checker]

/-- **What one step does after the stop**: the control operations stay as they
are, or one of them is gone. -/
theorem step (h : Stopping v u) (hs : u.step E e = some w) :
    Stopping v w ∧ w.control + (if e.isControl then 1 else 0) = u.control := by
  cases stepped_of_step hs with
  | tick => exact ⟨h.congr rfl rfl rfl rfl rfl, rfl⟩
  | complete _ hm => cases h.aborted _ hm
  | accept _ hm ha =>
    cases h.aborted _ hm
    cases ha with
    | failed _ hne => exact absurd rfl hne
    | aborted =>
      refine ⟨⟨h.closed, fun p hp => h.aborted p (mem_of_mem_consume hp), h.checker, h.sessions,
        h.accepts⟩, ?_⟩
      have hpos := List.length_pos_of_mem hm
      show (u.pending.erase _).length + u.rounds + 1 = u.pending.length + u.rounds
      rw [List.length_erase_of_mem hm]
      omega
  | signal _ hm => cases h.aborted _ hm
  | session => exact ⟨h.setSession _ _, control_setSession _ _ _⟩
  | @checker e c t _ hc ht =>
    obtain ⟨hst, hplain⟩ := h.checker c hc
    obtain ⟨hst', -, hcount⟩ := hst.step ht
    refine ⟨⟨h.closed, h.aborted, ?_, h.sessions, h.accepts⟩, ?_⟩
    · intro c' hc'
      obtain rfl := Option.some.inj hc'
      exact ⟨hst', HealthChecker.plain_step hplain ht⟩
    · rw [control, control, rounds, rounds, hc]
      dsimp only
      rw [Event.isControl, ← hcount]
      omega
  | destroy => exact ⟨h.setSession _ _, control_setSession _ _ _⟩

theorem of_reaches (h : Stopping v u) (hr : Reaches (LoadBalancer.step E) u w) : Stopping v w :=
  hr.invariant (I := Stopping v) h fun hi _ hs => (hi.step hs).1

end Stopping

/-! ### Draining -/

/-- What a stop in `v` promises of the state `u`: no session, accept or round is
new, no control operation waits, every step takes one away or leaves them as
they are, and as long as there is one the loop can run the handler of one. -/
structure Drained (E : Env σ) (v u : LoadBalancer σ) : Prop where
  sessions : u.sessions.length = v.sessions.length
  accepts : u.log.count .asyncAccept = v.log.count .asyncAccept
  settled : ∀ op, ⟨op, .waiting⟩ ∉ u.pending
  noRound : ∀ c, u.checker = some c → ⟨.round, .waiting⟩ ∉ c.pending
  shrinks : ∀ e w, u.step E e = some w →
    w.control + (if e.isControl then 1 else 0) = u.control
  ends : u.running = true → 0 < u.control → ∃ e w, e.isControl = true ∧ u.step E e = some w

/-- The stop in `v` is kept in every run from there. -/
def Drains (E : Env σ) (v : LoadBalancer σ) : Prop :=
  ∀ u, Reaches (step E) v u → Drained E v u

theorem Stopping.drained (h : Stopping v u) : Drained E v u where
  sessions := h.sessions
  accepts := h.accepts
  settled op hm := nomatch h.aborted _ hm
  noRound c hc := (h.checker c hc).1.noRound
  shrinks e w hs := (h.step hs).2
  ends hr hpos := by
    cases hp : u.pending with
    | cons p l =>
      have hm : p ∈ u.pending := by
        rw [hp]
        exact List.mem_cons_self
      rw [h.aborted p hm] at hm
      refine ⟨.accept .operationAborted none 0, u.dequeue .accept .operationAborted, rfl, ?_⟩
      rw [LoadBalancer.step, if_pos hr, turn, if_pos hm]
      rfl
    | nil =>
      rw [control, hp, List.length_nil, Nat.zero_add, rounds] at hpos
      split at hpos
      · next c hc =>
        obtain ⟨⟨op, st⟩, hm, hop⟩ := List.countP_pos_iff.mp hpos
        obtain ⟨hst, hplain⟩ := h.checker c hc
        obtain rfl : op = .round := by cases op <;> first | rfl | cases hop
        cases st with
        | waiting => exact absurd hm hst.noRound
        | queued ec n =>
          obtain rfl := hplain _ _ _ hm
          obtain ⟨t, ht⟩ : ∃ t, c.step E.isIpLiteral u.now u.pool (.dispatch .round ec) = some t :=
            ⟨_, if_pos hm⟩
          have hsome : (u.step E (.checker (.dispatch .round ec))).isSome := by
            rw [LoadBalancer.step, if_pos hr, turn, hc, Option.bind_eq_bind, Option.bind_some, ht]
            rfl
          obtain ⟨w, hw⟩ := Option.isSome_iff_exists.mp hsome
          exact ⟨.checker (.dispatch .round ec), w, rfl, hw⟩
      · exact absurd hpos (Nat.lt_irrefl 0)

/-- No accept is queued with another result than `operationAborted`. -/
def AcceptSettled (s : LoadBalancer σ) : Prop :=
  ∀ ec, ⟨.accept, .queued ec 0⟩ ∈ s.pending → ec = .operationAborted

/-- **The stop**, where no accept is left to serve. -/
theorem Tame.stopping (h : s.Tame) (hq : s.AcceptSettled)
    (hm : ⟨.signal, .queued .success 0⟩ ∈ s.pending) :
    Stopping ((s.dequeue .signal .success).onSignal .success)
      ((s.dequeue .signal .success).onSignal .success) := by
  refine ⟨rfl, ?_, ?_, rfl, rfl⟩
  · intro p hp
    have hc := count_consume (f := Op.isSignal) hm
    have hzero : count Op.isSignal (consume s.pending .signal .success 0) = 0 := by
      have := h.signal
      simp only [Op.isSignal, if_true] at hc
      omega
    change p ∈ cancel Op.isAccept (consume s.pending .signal .success 0) at hp
    obtain ⟨⟨op, st⟩, hq', hop⟩ := exists_op_of_mem_cancel hp
    have hop' : op = .accept := by
      cases op with
      | accept => rfl
      | signal => exact absurd (not_mem_of_count_eq_zero hzero hq') (by simp [Op.isSignal])
    rcases mem_cancel hp with ⟨hp, hw⟩ | ⟨q, -, -, -, -, hst⟩
    · obtain ⟨op, st⟩ := p
      obtain rfl : op = .accept := hop.symm.trans hop'
      cases st with
      | waiting => exact absurd rfl (hw rfl)
      | queued ec n =>
        have hp := mem_of_mem_consume hp
        obtain rfl := h.plain _ _ _ hp
        rw [hq ec hp]
    · obtain ⟨op, st⟩ := p
      obtain rfl : op = .accept := hop.symm.trans hop'
      cases hst
      rfl
  · intro c hc
    obtain ⟨c', hc', rfl⟩ := Option.map_eq_some_iff.mp hc
    exact ⟨HealthChecker.stopped_stop c', plain_cancel (h.checker c' hc')⟩

/-- **An accept that is queued is served.**  What its handler starts is what the
stop was to prevent. -/
theorem not_drains_of_queued {ec : ErrorCode} (hb : s.strategy.BuiltOn s.pool)
    (hends : s.strategy.Ends E.dist s.pool) (hr : s.running = true)
    (hm : ⟨.accept, .queued ec 0⟩ ∈ s.pending) (hec : ec ≠ .operationAborted) : ¬ Drains E s := by
  obtain ⟨fuel, w, hstep⟩ := exists_step_accept hends hr hm (some [])
  intro h
  have hdw := h w (.single trivial hstep)
  have hacc : ∀ t : LoadBalancer σ, t.acceptNext.log.count .asyncAccept =
      t.log.count .asyncAccept + 1 := fun t => by
    rw [acceptNext, List.count_append]
    rfl
  have hwl := hdw.accepts
  have hws := hdw.sessions
  cases stepped_of_step hstep with
  | accept _ _ ha =>
    cases ha with
    | aborted => exact hec rfl
    | failed =>
      rw [hacc] at hwl
      exact absurd hwl (Nat.succ_ne_self _)
    | gone hp => cases hp
    | lost hp hs hi he => exact not_lost (s := s) hb hs hi he
    | dropped =>
      rw [hacc, drop, List.count_append] at hwl
      exact absurd hwl (Nat.succ_ne_self _)
    | started => exact absurd (hws.symm.trans List.length_append) (Nat.succ_ne_self _).symm
    | refused => exact absurd (hws.symm.trans List.length_append) (Nat.succ_ne_self _).symm

section Run

variable {now : Nat} {nodes : List ServiceNode} {strategy : Strategy σ} {conn : ConnectionConfig}
  {hc : HealthCheckConfig}

/-- **Graceful shutdown.**  In every run that stops where no accept is queued
with another result than `operationAborted`, nothing new is started from the
stop on and what is left of the control operations can be delivered.  Where one
is queued, the stop does not drain, if the strategy returns for it. -/
theorem shutdown_drains (hb : strategy.BuiltOn (.ofNodes nodes))
    (h : Reaches (step E) (start now nodes strategy conn hc) s)
    (hs : s.step E (.signal .success) = some v) :
    (AcceptSettled s → Drains E v) ∧
      (s.strategy.Ends E.dist s.pool → Drains E v → AcceptSettled s) := by
  have hbv := builtOn_of_reaches hb (h.tail trivial hs)
  cases stepped_of_step hs with
  | signal hr hm =>
    refine ⟨fun hq u hu => (((tame_of_reaches h).stopping hq hm).of_reaches hu).drained, ?_⟩
    intro hends hdr ec hmq
    by_contra hec
    have hm' : ⟨.accept, .queued ec 0⟩ ∈ (s.dequeue .signal .success).pending :=
      (List.mem_erase_of_ne (by simp)).mpr hmq
    exact not_drains_of_queued hbv hends hr (mem_cancel_of_queued hm') hec hdr

end Run

/-- When the signal comes, a session connects to its service, the next accept waits
and the handler of a round is queued. -/
theorem shutdown_drains_session :
    let E : Env Unit := ⟨fun _ => true, fun _ rng => (0, rng)⟩
    ∃ s v : LoadBalancer Unit, run (step E) (start 0 [{}] (.p2c ⟨()⟩) {} { intervalMs := 0 })
      [.complete .accept .success, .accept .success (some []) 0,
        .checker (.complete .round .success), .complete .signal .success] = some s ∧
    s.sessions.length = 1 ∧
    (s.checker.map fun c => c.pending) = some [⟨.round, .queued .success 0⟩] ∧
    s.step E (.signal .success) = some v ∧ Drains E v := by
  intro E
  have hb : (Strategy.p2c ⟨()⟩ : Strategy Unit).BuiltOn (.ofNodes [{}]) := trivial
  obtain ⟨s, v, hs, hlen, hround, hv, hp⟩ : ∃ s v : LoadBalancer Unit,
      run (step E) (start 0 [{}] (.p2c ⟨()⟩) {} { intervalMs := 0 })
        [.complete .accept .success, .accept .success (some []) 0,
          .checker (.complete .round .success), .complete .signal .success] = some s ∧
      s.sessions.length = 1 ∧
      (s.checker.map fun c => c.pending) = some [⟨.round, .queued .success 0⟩] ∧
      s.step E (.signal .success) = some v ∧
      s.pending = [⟨.accept, .waiting⟩, ⟨.signal, .queued .success 0⟩] :=
    ⟨_, _, rfl, rfl, rfl, rfl, rfl⟩
  refine ⟨s, v, hs, hlen, hround, hv, (shutdown_drains hb (reaches_of_run hs) hv).1 ?_⟩
  intro ec hm
  rw [hp] at hm
  simp at hm

/-- **A connection is served after the stop.**  Its accept is queued with
success when the signal handler runs. -/
theorem session_after_stop : ¬ ∀ (E : Env Unit) (nodes : List ServiceNode)
    (s v u : LoadBalancer Unit), Reaches (step E) (start 0 nodes (.p2c ⟨()⟩) {} {}) s →
      s.step E (.signal .success) = some v → Reaches (step E) v u →
        u.sessions.length = v.sessions.length ∧
          u.log.count .asyncAccept = v.log.count .asyncAccept := by
  intro h
  let E : Env Unit := ⟨fun _ => true, fun _ rng => (0, rng)⟩
  obtain ⟨s, v, u, hs, hv, hu, hl⟩ : ∃ s v u : LoadBalancer Unit,
      run (step E) (start 0 [{}] (.p2c ⟨()⟩) {} {})
        [.complete .accept .success, .complete .signal .success] = some s ∧
      s.step E (.signal .success) = some v ∧
      run (step E) v [.accept .success (some []) 0] = some u ∧
      u.sessions.length ≠ v.sessions.length := ⟨_, _, _, rfl, rfl, rfl, by decide⟩
  exact hl (h E [{}] s v u (reaches_of_run hs) hv (reaches_of_run hu)).1

end BitBridge.LoadBalancer
