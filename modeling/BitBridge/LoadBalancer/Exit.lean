import BitBridge.Health.Rest
import BitBridge.LoadBalancer.Drain
import BitBridge.LoadBalancer.Parts
import BitBridge.Proxy.Liveness

/-!
# The program ends

`io_context::run` returns, and `main` with it, when nothing is pending any more.
Nothing that the signal handler does closes a session or a probe: they have to
end by their own timers.  Each of them can, alone (`World.exists_drain`,
`Monitor.exists_rest`), and what one of them does in a run of its own it also
does inside the program.

* `exists_lift_session`, `exists_lift_checker`: a silent run of a part is one of
  the program.
* `Stuck`: an accept that is queued at the stop keeps the loop busy for good.
* `can_exit`: **a signal can end the program without its peers exactly when no
  accept is queued with another result than `operationAborted`.**
-/

namespace BitBridge.LoadBalancer

open Proactor Proxy Health Steps

variable {σ : Type} {E : Env σ} {s u v w : LoadBalancer σ} {e : Event}

/-- Time passes, timers expire and handlers run; no peer does anything. -/
def Silent (_ : LoadBalancer σ) : Event → Prop
  | .tick => True
  | .accept ec _ _ => ec = .operationAborted
  | .session _ e => e.Silent
  | .checker e => e.Silent
  | _ => False

/-- Nothing is pending: `io_context::run` returns. -/
structure Finished (s : LoadBalancer σ) : Prop where
  running : s.running = true
  pending : s.pending = []
  sessions : ∀ x ∈ s.sessions, x.pending = []
  checker : ∀ c, s.checker = some c → c.pending = []

/-! ### The parts run inside the program -/

theorem step_session {k : Nat} {x y : Session} {e : Session.Event} (hr : s.running = true)
    (hx : s.sessions[k]? = some x) (hy : x.step s.now e = some y) :
    s.step E (.session k e) = some (s.setSession k y) := by
  rw [step, if_pos hr, turn, hx, Option.bind_eq_bind, Option.bind_some, hy]
  rfl

theorem step_checker {c : HealthChecker} {t : Turn} {e : HealthChecker.Event}
    (hr : s.running = true) (hc : s.checker = some c)
    (ht : c.step E.isIpLiteral s.now s.pool e = some t) :
    s.step E (.checker e) = some { s with
      pool := t.pool
      checker := some t.checker
      running := !t.threw
      outcomes := note s.outcomes e } := by
  rw [step, if_pos hr, turn, hc, Option.bind_eq_bind, Option.bind_some, ht]
  rfl

/-- **A session's silent run**, with nothing else happening. -/
theorem exists_lift_session {k : Nat} {a b : World} (h : ReachesIn World.step World.Quiet a b)
    (hr : s.running = true) (hn : s.now = a.now) (hx : s.sessions[k]? = some a.session) :
    ∃ v, ReachesIn (step E) Silent s v ∧ v.running = true ∧ v.now = b.now ∧
      v.sessions = s.sessions.set k b.session ∧ v.pending = s.pending ∧
      v.checker = s.checker := by
  induction h with
  | refl =>
    obtain ⟨hk, hget⟩ := List.getElem?_eq_some_iff.mp hx
    refine ⟨s, .refl, hr, hn, ?_, rfl, rfl⟩
    rw [← hget, List.set_getElem_self]
  | @tail b c e _ hq hs ih =>
    obtain ⟨v, hv, hvr, hvn, hvs, hvp, hvc⟩ := ih
    cases e with
    | tick =>
      obtain rfl := Option.some.inj hs
      refine ⟨{ v with now := v.now + 1 }, hv.tail (e := .tick) trivial (if_pos hvr), hvr,
        congrArg (· + 1) hvn, hvs, hvp, hvc⟩
    | session e =>
      obtain ⟨y, hy, rfl⟩ := World.of_step_session hs
      have hk := (List.getElem?_eq_some_iff.mp hx).1
      have hvx : v.sessions[k]? = some b.session := by
        rw [hvs, List.getElem?_set_self hk]
      refine ⟨v.setSession k y, hv.tail (e := .session k e) hq (step_session hvr hvx (hvn ▸ hy)),
        ?_, ?_, ?_, ?_, ?_⟩
      · rw [setSession_running, hvr]
      · rw [setSession_now, hvn]
      · rw [setSession_sessions, hvs, List.set_set]
      · rw [setSession_pending, hvp]
      · rw [setSession_checker, hvc]

/-- **The checker's silent run**, with nothing else happening. -/
theorem exists_lift_checker {a b : Monitor}
    (h : ReachesIn (Monitor.step E.isIpLiteral) Monitor.Quiet a b) (hup : b.threw = false)
    (hr : s.running = true) (hn : s.now = a.now) (hp : s.pool = a.pool)
    (hc : s.checker = some a.checker) :
    ∃ v, ReachesIn (step E) Silent s v ∧ v.running = true ∧ v.now = b.now ∧ v.pool = b.pool ∧
      v.checker = some b.checker ∧ v.pending = s.pending := by
  induction h with
  | refl => exact ⟨s, .refl, hr, hn, hp, hc, rfl⟩
  | @tail b c e _ hq hs ih =>
    have hb : b.threw = false := by
      rw [Monitor.step] at hs
      split at hs
      · cases hs
      · next ht => simpa using ht
    obtain ⟨v, hv, hvr, hvn, hvp, hvc, hvl⟩ := ih hb
    cases e with
    | tick =>
      obtain rfl := Option.some.inj (Monitor.act_of_step hs)
      exact ⟨{ v with now := v.now + 1 }, hv.tail (e := .tick) trivial (if_pos hvr), hvr,
        congrArg (· + 1) hvn, hvp, hvc, hvl⟩
    | checker e =>
      obtain ⟨t, ht, rfl⟩ := Monitor.of_step_checker hs
      rw [← hvn, ← hvp] at ht
      refine ⟨_, hv.tail (e := .checker e) hq (step_checker hvr hvc ht), ?_, hvn, rfl, rfl, hvl⟩
      show (!t.threw) = true
      rw [show t.threw = false from hup, Bool.not_false]
    | stop | incrementConnections | decrementConnections => cases hq

/-! ### One part after the other -/

theorem exists_unaccepted (h : Stopping v u) (hr : u.running = true) :
    ∃ w, ReachesIn (step E) Silent u w ∧ Stopping v w ∧ w.running = true ∧ w.pending = [] := by
  have hprogress : ∀ u, Stopping v u ∧ u.running = true → u.pending ≠ [] →
      ∃ w, ReachesIn (step E) Silent u w ∧ (Stopping v w ∧ w.running = true) ∧
        w.pending.length < u.pending.length := by
    rintro u ⟨hu, hr⟩ hne
    obtain ⟨p, hp⟩ := List.exists_mem_of_ne_nil _ hne
    obtain rfl := hu.aborted p hp
    have hs : u.step E (.accept .operationAborted none 0) =
        some (u.dequeue .accept .operationAborted) := by
      rw [LoadBalancer.step, if_pos hr, turn, if_pos hp]
      rfl
    have hpos := List.length_pos_of_mem hp
    refine ⟨_, .single (e := .accept .operationAborted none 0) rfl hs, ⟨(hu.step hs).1, hr⟩, ?_⟩
    show (u.pending.erase _).length < _
    rw [List.length_erase_of_mem hp]
    omega
  obtain ⟨w, hw, ⟨hstop, hrun⟩, hend⟩ := exists_goal _ hprogress ⟨h, hr⟩
  exact ⟨w, hw, hstop, hrun, hend⟩

section Run

variable {now : Nat} {nodes : List ServiceNode} {strategy : Strategy σ} {conn : ConnectionConfig}
  {hc : HealthCheckConfig}

theorem checker_eq_none (hdisabled : hc.enabled = false)
    (h : Reaches (step E) (start now nodes strategy conn hc) s) : s.checker = none := by
  refine h.invariant (I := fun s => s.checker = none) ?_ ?_
  · rw [start, if_neg (by simp [hdisabled])]
    rfl
  · intro s v e hi _ hs
    cases stepped_of_step hs with
    | tick => exact hi
    | complete => exact hi
    | accept _ _ ha => cases ha <;> exact hi
    | signal =>
      unfold onSignal
      split
      · exact hi
      · exact congrArg (Option.map _) hi
    | session => rwa [setSession_checker]
    | checker _ hc' =>
      rw [hi] at hc'
      cases hc'
    | destroy => rwa [setSession_checker]

theorem exists_unchecked (h : Reaches (step E) (start now nodes strategy conn hc) s)
    (hr : s.running = true) (hstop : ∀ c, s.checker = some c → c.Stopped) :
    ∃ v, ReachesIn (step E) Silent s v ∧ v.running = true ∧ v.pending = s.pending ∧
      ∀ c, v.checker = some c → c.pending = [] := by
  cases henabled : hc.enabled with
  | false =>
    refine ⟨s, .refl, hr, rfl, ?_⟩
    intro c hcs
    rw [checker_eq_none henabled h] at hcs
    cases hcs
  | true =>
    obtain ⟨c, hcs, hm⟩ := monitor_of_reaches henabled h hr
    obtain ⟨b, hb, hup, hend⟩ := Monitor.exists_rest hm rfl (hstop c hcs)
    obtain ⟨v, hv, hvr, -, -, hvc, hvl⟩ := exists_lift_checker (s := s) hb hup hr rfl rfl hcs
    refine ⟨v, hv, hvr, hvl, ?_⟩
    intro c' hc'
    rw [hvc] at hc'
    obtain rfl := Option.some.inj hc'
    exact hend

theorem exists_released (h : Reaches (step E) (start now nodes strategy conn hc) s)
    (hr : s.running = true) (hidle : 0 < conn.idleTimeoutMs) : ∀ n, n ≤ s.sessions.length →
      ∃ v, ReachesIn (step E) Silent s v ∧ v.running = true ∧ v.pending = s.pending ∧
        v.checker = s.checker ∧ v.sessions.length = s.sessions.length ∧
        ∀ k x, k < n → v.sessions[k]? = some x → x.pending = []
  | 0, _ => ⟨s, .refl, hr, rfl, rfl, rfl, fun k x hk => absurd hk (Nat.not_lt_zero k)⟩
  | n + 1, hn => by
    obtain ⟨v, hv, hvr, hvp, hvc, hvl, hdone⟩ := exists_released h hr hidle n (Nat.le_of_succ_le hn)
    have hlt : n < v.sessions.length := by omega
    have hreach := h.trans hv.toReaches
    obtain ⟨t, i, tr, hw⟩ := exists_world hreach hvr (List.getElem_mem hlt)
    obtain ⟨a, ha, hdown⟩ := World.exists_down hw hidle
    obtain ⟨b, hb, hend⟩ :=
      World.exists_drain (World.sound_of_reaches (hw.trans ha.toReaches)).tidy hdown
    obtain ⟨u, hu, hur, -, hus, hup, huc⟩ := exists_lift_session (s := v) (ha.trans hb) hvr rfl
      (List.getElem?_eq_getElem hlt)
    refine ⟨u, hv.trans hu, hur, hup.trans hvp, huc.trans hvc, ?_, ?_⟩
    · rw [hus, List.length_set, hvl]
    · intro k x hk hx
      rw [hus] at hx
      by_cases hkn : k = n
      · subst hkn
        rw [List.getElem?_set_self hlt] at hx
        obtain rfl := Option.some.inj hx
        exact hend
      · rw [List.getElem?_set_ne (Ne.symm hkn)] at hx
        exact hdone k x (by omega) hx

/-- **A program that was stopped, with no accept to serve, can end.** -/
theorem exists_finished (hstop : Stopping v s)
    (h : Reaches (step E) (start now nodes strategy conn hc) s) (hr : s.running = true)
    (hidle : 0 < conn.idleTimeoutMs) : ∃ u, ReachesIn (step E) Silent s u ∧ u.Finished := by
  obtain ⟨a, ha, hstopa, har, hap⟩ := exists_unaccepted (E := E) hstop hr
  have hra := h.trans ha.toReaches
  obtain ⟨b, hb, hbr, hbp, hbc⟩ := exists_unchecked hra har fun c hc => (hstopa.checker c hc).1
  obtain ⟨u, hu, hur, hup, huc, hul, hdone⟩ :=
    exists_released (hra.trans hb.toReaches) hbr hidle _ (Nat.le_refl _)
  refine ⟨u, (ha.trans hb).trans hu, hur, ?_, ?_, ?_⟩
  · rw [hup, hbp, hap]
  · intro x hx
    obtain ⟨k, hk, hget⟩ := List.mem_iff_getElem.mp hx
    exact hdone k x (hul ▸ hk) (List.getElem?_eq_some_iff.mpr ⟨hk, hget⟩)
  · rw [huc]
    exact hbc

end Run

/-! ### The loop that does not end -/

/-- `OnAccept` is to run on the closed acceptor, and will call `AcceptNext`. -/
def Stuck (s : LoadBalancer σ) : Prop :=
  s.running = true → s.acceptorOpen = false ∧
    ∃ ec, ec ≠ .operationAborted ∧ ⟨.accept, .queued ec 0⟩ ∈ s.pending

theorem stuck_acceptNext (h : s.acceptorOpen = false) : s.acceptNext.Stuck := by
  refine fun _ => ⟨h, .badDescriptor, ErrorCode.noConfusion, List.mem_append_right _ ?_⟩
  rw [h, if_neg Bool.false_ne_true]
  exact List.mem_singleton_self _

theorem Stuck.congr (h : s.Stuck) (hr : v.running = true → s.running = true)
    (ho : v.acceptorOpen = s.acceptorOpen) (hp : v.pending = s.pending) : v.Stuck := by
  intro hv
  rw [ho, hp]
  exact h (hr hv)

/-- **The accept that fails at once starts the next one.** -/
theorem Stuck.step (h : s.Stuck) (hs : s.step E e = some v) : v.Stuck := by
  cases stepped_of_step hs with
  | tick => exact h.congr id rfl rfl
  | @complete op ec hr hm =>
    obtain ⟨ho, ec', hec, hq⟩ := h hr
    exact fun _ => ⟨ho, ec', hec, mem_resolve_of_mem hq fun hp => by cases hp⟩
  | @accept ec _ _ _ hr hm ha =>
    obtain ⟨ho, ec', hec, hq⟩ := h hr
    cases ha with
    | aborted =>
      refine fun _ => ⟨ho, ec', hec, (List.mem_erase_of_ne ?_).mpr hq⟩
      rintro ⟨⟩
      exact hec rfl
    | failed | dropped | started => exact stuck_acceptNext ho
    | gone | lost | refused =>
      intro hv
      cases hv
  | @signal ec hr hm =>
    obtain ⟨ho, ec', hec, hq⟩ := h hr
    have hq' : ⟨.accept, .queued ec' 0⟩ ∈ (s.dequeue .signal ec).pending :=
      (List.mem_erase_of_ne (by rintro ⟨⟩)).mpr hq
    unfold onSignal
    split
    · exact fun _ => ⟨ho, ec', hec, hq'⟩
    · exact fun _ => ⟨rfl, ec', hec, mem_cancel_of_queued hq'⟩
  | session hr =>
    exact h.congr (fun _ => hr) (setSession_acceptorOpen _ _ _) (setSession_pending _ _ _)
  | checker hr => exact h.congr (fun _ => hr) rfl rfl
  | destroy hr =>
    intro hv
    rw [setSession_running, hr] at hv
    cases hv

section Run

variable {now : Nat} {nodes : List ServiceNode} {strategy : Strategy σ} {conn : ConnectionConfig}
  {hc : HealthCheckConfig}

/-- **A signal ends the program.**  From the state that its handler leaves in
any run: where no accept is queued with another result than `operationAborted`,
time, timers and the loop alone can bring the program to the point at which
`io_context::run` returns, if there is an idle timeout; where one is queued, no
run of any kind gets there. -/
theorem can_exit (h : Reaches (step E) (start now nodes strategy conn hc) s)
    (hs : s.step E (.signal .success) = some v) :
    (AcceptSettled s → 0 < conn.idleTimeoutMs →
        ∃ u, ReachesIn (step E) Silent v u ∧ u.Finished) ∧
      ((∃ u, Reaches (step E) v u ∧ u.Finished) → AcceptSettled s) := by
  have hv := h.tail trivial hs
  cases stepped_of_step hs with
  | signal hr hm =>
    refine ⟨fun hq hidle => ?_, ?_⟩
    · exact exists_finished ((tame_of_reaches h).stopping hq hm) hv hr hidle
    · rintro ⟨u, hu, hend⟩ ec hmq
      by_contra hec
      have hq : ⟨.accept, .queued ec 0⟩ ∈ (s.dequeue .signal .success).pending :=
        (List.mem_erase_of_ne (by rintro ⟨⟩)).mpr hmq
      have hstuck : Stuck ((s.dequeue .signal .success).onSignal .success) :=
        fun _ => ⟨rfl, ec, hec, mem_cancel_of_queued hq⟩
      obtain ⟨-, _, -, hleft⟩ :=
        hu.invariant (I := Stuck) hstuck (fun hi _ hs => hi.step hs) hend.running
      rw [hend.pending] at hleft
      cases hleft

end Run

/-- One connection is relayed when the signal comes. -/
theorem can_exit_relaying : ∃ s v u : LoadBalancer Unit,
    run (step ⟨fun _ => true, fun _ rng => (0, rng)⟩) (start 0 [{}] (.p2c ⟨()⟩) {} {})
      [.complete .accept .success, .accept .success (some []) 0, .complete .signal .success] =
        some s ∧
    step ⟨fun _ => true, fun _ rng => (0, rng)⟩ s (.signal .success) = some v ∧
      ReachesIn (step ⟨fun _ => true, fun _ rng => (0, rng)⟩) Silent v u ∧ u.Finished := by
  let E : Env Unit := ⟨fun _ => true, fun _ rng => (0, rng)⟩
  obtain ⟨s, v, hs, hv, hp⟩ : ∃ s v : LoadBalancer Unit,
      run (step E) (start 0 [{}] (.p2c ⟨()⟩) {} {})
        [.complete .accept .success, .accept .success (some []) 0, .complete .signal .success] =
          some s ∧
        s.step E (.signal .success) = some v ∧
          s.pending = [⟨.accept, .waiting⟩, ⟨.signal, .queued .success 0⟩] :=
    ⟨_, _, rfl, rfl, rfl⟩
  have hq : AcceptSettled s := by
    intro ec hm
    rw [hp] at hm
    simp at hm
  obtain ⟨u, hu, hend⟩ := (can_exit (reaches_of_run hs) hv).1 hq (by decide)
  exact ⟨s, v, u, hs, hv, hu, hend⟩

end BitBridge.LoadBalancer
