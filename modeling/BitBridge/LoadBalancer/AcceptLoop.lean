import BitBridge.LoadBalancer.Steps

/-!
# The accept loop

Every exit of `OnAccept` but the aborted one calls `AcceptNext`, so one accept
is pending as long as `OnAccept` returns.  It does not return when
`remote_endpoint` finds the peer gone, or when `Session::Start` cannot parse the
address of the selected service: nothing catches these exceptions, and
`io_context::run` ends with them.

* `Listening`: while the program runs and was not stopped, exactly one accept is
  pending, and it will not be told of an abortion.
* `accept_loop`: **a connection is served, and the next one accepted, exactly
  when neither exception is thrown.**
* `gone_ends_loop`: a client that has already disconnected ends the program.
-/

namespace BitBridge.LoadBalancer

open Proactor Proxy Health Steps

variable {σ : Type} {E : Env σ} {s v : LoadBalancer σ} {e : Event}

structure Listening (s : LoadBalancer σ) : Prop where
  one : count Op.isAccept s.pending = 1
  notAborted : ∀ n, ⟨.accept, .queued .operationAborted n⟩ ∉ s.pending

def ListensOn (s : LoadBalancer σ) : Prop :=
  s.running = true → s.acceptorOpen = true → s.Listening

theorem Listening.congr (h : s.Listening) (hp : v.pending = s.pending) : v.Listening :=
  ⟨by rw [hp]; exact h.one, by rw [hp]; exact h.notAborted⟩

theorem count_acceptNext (s : LoadBalancer σ) :
    count Op.isAccept s.acceptNext.pending = count Op.isAccept s.pending + 1 := by
  rw [acceptNext, count_append]
  rfl

/-- **`AcceptNext` on an open acceptor** leaves the only accept pending. -/
theorem listening_acceptNext (ho : s.acceptorOpen = true)
    (h0 : count Op.isAccept s.pending = 0) : s.acceptNext.Listening := by
  refine ⟨?_, ?_⟩
  · rw [count_acceptNext, h0]
  · intro n hn
    rcases List.mem_append.mp hn with hn | hn
    · exact Bool.noConfusion (not_mem_of_count_eq_zero h0 hn)
    · rw [ho, if_pos rfl, List.mem_singleton] at hn
      cases hn

theorem Listening.dequeue (h : s.Listening) {ec : ErrorCode}
    (hm : ⟨.accept, .queued ec 0⟩ ∈ s.pending) :
    count Op.isAccept (s.dequeue .accept ec).pending = 0 ∧ ec ≠ .operationAborted := by
  refine ⟨?_, ?_⟩
  · have hc := count_consume (f := Op.isAccept) hm
    rw [h.one] at hc
    exact Nat.add_right_cancel hc
  · rintro rfl
    exact h.notAborted 0 hm

theorem listensOn_accepted {peer : Option Bytes} {fuel : Nat} {ec : ErrorCode}
    (h0 : s.acceptorOpen = true → count Op.isAccept s.pending = 0 ∧ ec ≠ .operationAborted)
    (ha : Accepted E s peer fuel ec v) : v.ListensOn := by
  cases ha with
  | aborted => exact fun _ ho => absurd rfl (h0 ho).2
  | failed => exact fun _ ho => listening_acceptNext ho (h0 ho).1
  | gone => exact fun hr => nomatch hr
  | lost => exact fun hr => nomatch hr
  | dropped => exact fun _ ho => listening_acceptNext ho (h0 ho).1
  | started => exact fun _ ho => listening_acceptNext ho (h0 ho).1
  | refused => exact fun hr => nomatch hr

theorem ListensOn.step (h : s.ListensOn) (hs : s.step E e = some v) : v.ListensOn := by
  cases stepped_of_step hs with
  | tick hr => exact fun _ ho => (h hr ho).congr rfl
  | complete hr hm hmay =>
    refine fun _ ho => ⟨(count_resolve hm).trans (h hr ho).one, ?_⟩
    intro n hn
    rcases mem_resolve hn with hn | hn
    · exact (h hr ho).notAborted n hn
    · cases hn
      exact absurd hmay (by decide)
  | @accept ec _ _ _ hr hm ha =>
    exact listensOn_accepted (s := s.dequeue .accept ec) (fun ho => (h hr ho).dequeue hm) ha
  | signal hr hm =>
    unfold onSignal
    split
    · refine fun _ ho => ⟨?_, fun n hn => (h hr ho).notAborted n (mem_of_mem_consume hn)⟩
      have hc := count_consume (f := Op.isAccept) hm
      exact hc.trans (h hr ho).one
    · exact fun _ ho => nomatch ho
  | session hr hx hy =>
    intro _ ho
    rw [setSession_acceptorOpen] at ho
    exact (h hr ho).congr (setSession_pending _ _ _)
  | checker hr => exact fun _ ho => (h hr ho).congr rfl
  | destroy hr =>
    intro hv
    rw [setSession_running, hr] at hv
    cases hv

/-! ### What an accept comes to -/

/-- `OnAccept` has returned: one accept is pending on the open acceptor, and a
connection was closed or handed to a session with something pending. -/
structure Served (s v : LoadBalancer σ) (ec : ErrorCode) : Prop where
  running : v.running = true
  acceptorOpen : v.acceptorOpen = true
  one : count Op.isAccept v.pending = 1
  connection : ec.failed = false →
    (v.sessions = s.sessions ∧ v.log = s.log ++ [.dropped, .asyncAccept]) ∨
      ∃ x, v.sessions = s.sessions ++ [x] ∧ x.pending ≠ []

theorem served_dequeue {op : Op} {ec ec' : ErrorCode} :
    Served (s.dequeue op ec) v ec' ↔ Served s v ec' :=
  ⟨fun h => ⟨h.running, h.acceptorOpen, h.one, h.connection⟩,
    fun h => ⟨h.running, h.acceptorOpen, h.one, h.connection⟩⟩

/-- The accept failed, or the client is still there and the address of the
service that the strategy selects for it is an IP literal. -/
def CanServe (E : Env σ) (s : LoadBalancer σ) (ec : ErrorCode) (peer : Option Bytes) : Prop :=
  ec.failed = true ∨ ∃ key, peer = some key ∧ ∀ fuel i strategy svc,
    s.strategy.selectService E.dist fuel s.pool key = some (some (.ok i), strategy) →
      s.pool.getService i = some svc → E.isIpLiteral svc.node.ip = true

theorem not_canServe {fuel : Nat} {key : Bytes} {i : Nat} {strategy : Strategy σ}
    {svc : ServiceState}
    (hs : s.strategy.selectService E.dist fuel s.pool key = some (some (.ok i), strategy))
    (hi : s.pool.getService i = some svc) (hip : E.isIpLiteral svc.node.ip = false) :
    ¬ CanServe E s .success (some key) := by
  rintro (hf | ⟨key', hkey, hall⟩)
  · cases hf
  · cases hkey
    rw [hall _ _ _ _ hs hi] at hip
    cases hip

theorem not_canServe_gone : ¬ CanServe E s .success none := by
  rintro (hf | ⟨key, hkey, -⟩)
  · cases hf
  · cases hkey

theorem served_iff {peer : Option Bytes} {fuel : Nat} {ec : ErrorCode}
    (hb : s.strategy.BuiltOn s.pool) (ho : s.acceptorOpen = true) (hr : s.running = true)
    (h0 : count Op.isAccept s.pending = 0) (hec : ec ≠ .operationAborted)
    (ha : Accepted E s peer fuel ec v) : Served s v ec ↔ CanServe E s ec peer := by
  cases ha with
  | aborted => exact absurd rfl hec
  | failed hf =>
    refine ⟨fun _ => .inl hf, fun _ => ⟨hr, ho, (listening_acceptNext ho h0).one, ?_⟩⟩
    intro hn
    rw [hf] at hn
    cases hn
  | gone hp =>
    subst hp
    exact ⟨fun h => (nomatch h.running), fun h => absurd h not_canServe_gone⟩
  | lost hp hs hi he => exact (not_lost hb hs hi he).elim
  | dropped hp hs =>
    refine ⟨fun _ => .inr ⟨_, hp, ?_⟩, fun _ =>
      ⟨hr, ho, ?_, fun _ => .inl ⟨rfl, ?_⟩⟩⟩
    · intro k i strategy svc hs'
      cases Strategy.selectService_unique hs hs'
    · rw [count_acceptNext]
      exact congrArg (· + 1) h0
    · exact List.append_assoc s.log _ _
  | started hp hs hi hip =>
    refine ⟨fun _ => .inr ⟨_, hp, ?_⟩, fun _ =>
      ⟨hr, ho, ?_, fun _ => .inr ⟨_, rfl, Session.started_ne_nil _ _ _ _⟩⟩⟩
    · intro k i' strategy' svc' hs' hi'
      cases Strategy.selectService_unique hs hs'
      rw [hi] at hi'
      cases hi'
      exact hip
    · rw [count_acceptNext]
      exact congrArg (· + 1) h0
  | refused hp hs hi hip =>
    subst hp
    exact ⟨fun h => (nomatch h.running), fun h => absurd h (not_canServe hs hi hip)⟩

/-! ### Every run -/

theorem threw_accepted {peer : Option Bytes} {fuel : Nat} {ec : ErrorCode}
    (hb : s.strategy.BuiltOn s.pool) (hcan : CanServe E s ec peer)
    (ha : Accepted E s peer fuel ec v) (h : .threw ∈ v.log) : .threw ∈ s.log := by
  cases ha with
  | aborted => exact h
  | failed => simpa [acceptNext] using h
  | gone hp =>
    subst hp
    exact absurd hcan not_canServe_gone
  | lost hp hs hi he => exact (not_lost hb hs hi he).elim
  | dropped => simpa [acceptNext, drop, setStrategy] using h
  | started => simpa [acceptNext, addSession, incrementConnections, setStrategy] using h
  | refused hp hs hi hip =>
    subst hp
    exact absurd hcan (not_canServe hs hi hip)

theorem threw_setSession {k : Nat} {x : Session} (h : .threw ∈ (s.setSession k x).log) :
    .threw ∈ s.log := by
  unfold setSession at h
  dsimp only at h
  split at h
  · simpa [decrementConnections] using h
  · exact h

def ServesAccept (E : Env σ) (s : LoadBalancer σ) : Event → Prop
  | .accept ec peer _ => CanServe E s ec peer
  | _ => True

theorem threw_step (hb : s.strategy.BuiltOn s.pool) (hok : ServesAccept E s e)
    (hs : s.step E e = some v) (h : .threw ∈ v.log) : .threw ∈ s.log := by
  cases stepped_of_step hs with
  | tick => exact h
  | complete => exact h
  | @accept ec _ _ _ _ _ ha => exact threw_accepted (s := s.dequeue .accept ec) hb hok ha h
  | signal =>
    unfold onSignal at h
    split at h <;> exact h
  | session => exact threw_setSession h
  | checker => exact h
  | destroy => exact threw_setSession h

section Run

variable {now : Nat} {nodes : List ServiceNode} {strategy : Strategy σ} {conn : ConnectionConfig}
  {hc : HealthCheckConfig}

theorem listensOn_of_reaches (h : Reaches (step E) (start now nodes strategy conn hc) s) :
    s.ListensOn := by
  refine h.invariant (I := ListensOn) ?_ fun hi _ hs => hi.step hs
  have hl : (initial now nodes strategy conn).acceptNext.Listening := listening_acceptNext rfl rfl
  unfold start
  split
  · exact fun _ _ => hl.congr rfl
  · exact fun _ _ => hl

/-- **The accept loop.**  In every run whose accepts can be served, `OnAccept`
never throws, and while the program runs and was not stopped exactly one accept
is pending.  And in every state before the stop that any run reaches, `OnAccept`
returns for a queued accept where the strategy does, and the accept is served,
and the next one started, exactly when it can be served. -/
theorem accept_loop (hb : strategy.BuiltOn (.ofNodes nodes)) :
    (∀ s, ReachesIn (step E) (ServesAccept E) (start now nodes strategy conn hc) s →
      .threw ∉ s.log ∧
        (s.running = true → s.acceptorOpen = true → count Op.isAccept s.pending = 1)) ∧
    ∀ s ec peer, Reaches (step E) (start now nodes strategy conn hc) s → s.running = true →
      s.acceptorOpen = true → ⟨.accept, .queued ec 0⟩ ∈ s.pending →
        (s.strategy.Ends E.dist s.pool → ∃ fuel v, s.step E (.accept ec peer fuel) = some v) ∧
        ∀ fuel v, s.step E (.accept ec peer fuel) = some v →
          (Served s v ec ↔ CanServe E s ec peer) := by
  constructor
  · intro s h
    refine ⟨?_, fun hr ho => (listensOn_of_reaches h.toReaches hr ho).one⟩
    have hinv : s.strategy.BuiltOn s.pool ∧ .threw ∉ s.log := by
      refine h.invariant (I := fun s => s.strategy.BuiltOn s.pool ∧ .threw ∉ s.log) ?_
        fun hi hok hs => ⟨builtOn_step hi.1 hs, fun hm => hi.2 (threw_step hi.1 hok hs hm)⟩
      unfold start
      split <;> exact ⟨hb, by simp [initial, acceptNext]⟩
    exact hinv.2
  · intro s ec peer h hr ho hm
    refine ⟨fun hends => exists_step_accept hends hr hm peer, ?_⟩
    intro fuel v hs
    cases stepped_of_step hs with
    | accept _ _ ha =>
      obtain ⟨h0, hec⟩ := (listensOn_of_reaches h hr ho).dequeue hm
      have hbs := builtOn_of_reaches hb h
      exact served_dequeue.symm.trans
        (served_iff (s := s.dequeue .accept ec) hbs ho hr h0 hec ha)

end Run

/-- Two services whose addresses parse, and a client that is there. -/
theorem accept_loop_two : ∃ (s v : LoadBalancer Nat) (fuel : Nat),
    run (step ⟨fun _ => true, P2CStrategy.counting⟩) (start 0 [{}, {}] (.p2c ⟨0⟩) {} {})
      [.complete .accept .success] = some s ∧
    step ⟨fun _ => true, P2CStrategy.counting⟩ s (.accept .success (some []) fuel) = some v ∧
      Served s v .success := by
  let E : Env Nat := ⟨fun _ => true, P2CStrategy.counting⟩
  obtain ⟨s, hs, hr, ho, hm⟩ : ∃ s : LoadBalancer Nat,
      run (step E) (start 0 [{}, {}] (.p2c ⟨0⟩) {} {}) [.complete .accept .success] = some s ∧
        s.running = true ∧ s.acceptorOpen = true ∧ ⟨.accept, .queued .success 0⟩ ∈ s.pending :=
    ⟨_, rfl, rfl, rfl, by decide⟩
  have hb : (Strategy.p2c ⟨0⟩ : Strategy Nat).BuiltOn (.ofNodes [{}, {}]) := trivial
  obtain ⟨hend, hiff⟩ := (accept_loop hb).2 s .success (some []) (reaches_of_run hs) hr ho hm
  have hends := ends_of_reaches P2CStrategy.varies_counting (by trivial) (reaches_of_run hs)
  obtain ⟨fuel, v, hv⟩ := hend hends
  exact ⟨s, v, fuel, hs, hv, (hiff fuel v hv).mpr (.inr ⟨[], rfl, fun _ _ _ _ _ _ => rfl⟩)⟩

/-- **A client that is gone ends the program.**  It disconnects between the
completion of the accept and its handler, and `remote_endpoint` throws. -/
theorem gone_ends_loop : ¬ ∀ (E : Env Unit) (nodes : List ServiceNode) (s v : LoadBalancer Unit)
    (ec : ErrorCode) (peer : Option Bytes) (fuel : Nat),
    Reaches (step E) (start 0 nodes (.p2c ⟨()⟩) {} {}) s → s.acceptorOpen = true →
      s.step E (.accept ec peer fuel) = some v → Served s v ec := by
  intro h
  let E : Env Unit := ⟨fun _ => true, fun _ rng => (0, rng)⟩
  obtain ⟨s, v, hs, ho, hv, hr⟩ : ∃ s v : LoadBalancer Unit,
      run (step E) (start 0 [{}] (.p2c ⟨()⟩) {} {}) [.complete .accept .success] = some s ∧
        s.acceptorOpen = true ∧ s.step E (.accept .success none 0) = some v ∧
          v.running = false := ⟨_, _, rfl, rfl, rfl, rfl⟩
  have hserved := (h E [{}] s v .success none 0 (reaches_of_run hs) ho hv).running
  rw [hr] at hserved
  cases hserved

end BitBridge.LoadBalancer
