import BitBridge.Proxy.ShutdownFinal

/-!
# A connect timeout that comes late

`OnConnected` cancels the connect timer before it starts the relay loops.  A
wait whose expiry is queued by then is not cancelled any more: its handler is
told of success, and it calls `Shutdown` on the connected session.

* `connectWaits_handle`: what a handler does to the connect timer's waits.
* `Connecting`: until the connect's handler has run, nothing is pending but the
  connect and the wait of its timer.
* `connect_timeout_spent`: **the connect timer is spent exactly when its expiry
  is not queued when `OnConnected` runs.**
* `late_connect_timeout`: a session that is shut down after it has connected.
-/

namespace BitBridge.Proxy

open Proactor Steps

namespace Op

def isConnect : Op → Bool
  | .connect => true
  | _ => false

/-- The operations that only a connected session starts. -/
def relays : Op → Bool
  | .connectWait => false
  | .connect => false
  | _ => true

end Op

namespace Session

variable {s t : Session} {now : Nat} {op : Op} {ec : ErrorCode} {n : Nat}

/-! ### The waits of the connect timer -/

def connectWaits (s : Session) : List (Pending Op) := s.pending.filter fun p => p.op.isConnectWait

theorem mem_connectWaits {p : Pending Op} :
    p ∈ s.connectWaits ↔ p ∈ s.pending ∧ p.op = .connectWait := by
  rw [connectWaits, List.mem_filter]
  refine and_congr_right fun _ => ?_
  cases p.op <;> simp [Op.isConnectWait]

theorem filter_cancel (f g : Op → Bool) (l : List (Pending Op)) :
    (cancel f l).filter (fun p => g p.op) = cancel f (l.filter fun p => g p.op) := by
  rw [cancel, List.filter_map, cancel]
  congr 2
  funext p
  exact congrArg g (abort_op f p)

/-- A cancellation of the connect timer reaches its waits, of the idle timer none of them. -/
theorem cancel_connectWaits {f : Op → Bool} {b : Bool} (hf : f .connectWait = b) (s : Session) :
    cancel f s.connectWaits =
      if b then cancel (fun _ => true) s.connectWaits else s.connectWaits := by
  have hop : ∀ p ∈ s.connectWaits, f p.op = b := fun p hp => by rw [(mem_connectWaits.mp hp).2, hf]
  cases b with
  | false =>
    refine (List.map_congr_left fun p hp => ?_).trans (List.map_id _)
    exact if_neg fun h => by rw [hop p hp] at h; cases h.1
  | true =>
    refine List.map_congr_left fun p hp => ?_
    rw [Pending.abort, Pending.abort, hop p hp]

theorem connectWaits_shutdown (s : Session) : s.shutdown.connectWaits = s.connectWaits ∨
    s.shutdown.connectWaits = cancel (fun _ => true) s.connectWaits := by
  rw [connectWaits, shutdown_pending]
  split
  · exact Or.inl rfl
  · exact Or.inr (filter_cancel _ _ _)

theorem connectWaits_cancelConnectTimer (s : Session) :
    s.cancelConnectTimer.connectWaits = cancel (fun _ => true) s.connectWaits := by
  rw [connectWaits, cancelConnectTimer_pending, filter_cancel]
  exact cancel_connectWaits (b := true) rfl s

theorem connectWaits_postOn (s : Session) (side : Side) (h : op.isConnectWait = false) :
    (s.postOn side op).connectWaits = s.connectWaits := by
  rw [connectWaits, postOn_pending, List.filter_append, List.filter_singleton]
  simp [h, connectWaits]

theorem connectWaits_readNext (s : Session) (now : Nat) (d : Dir) :
    (s.readNext now d).connectWaits = s.connectWaits := by
  cases d with
  | down => exact connectWaits_postOn s _ rfl
  | up =>
    rw [readNext, readFromClient]
    split
    · rw [asyncReadSome, connectWaits_postOn _ _ rfl, connectWaits, armIdleTimer_pending,
        List.filter_append, filter_cancel]
      exact (List.append_nil _).trans (cancel_connectWaits (b := false) rfl s)
    · exact connectWaits_postOn s _ rfl

/-- **A handler starts no wait of the connect timer**: it leaves them as they are
or cancels them. -/
theorem connectWaits_handle (s : Session) (now : Nat) (op : Op) (ec : ErrorCode) (n : Nat) :
    (s.handle now op ec n).connectWaits = s.connectWaits ∨
      (s.handle now op ec n).connectWaits = cancel (fun _ => true) s.connectWaits := by
  cases op with
  | connectWait | idleWait =>
    rw [handle]
    split
    · exact Or.inl rfl
    · exact connectWaits_shutdown s
  | connect =>
    refine Or.inr ?_
    rw [handle, onConnected]
    split
    · rcases connectWaits_shutdown s.cancelConnectTimer with h | h
      · rw [h, connectWaits_cancelConnectTimer]
      · rw [h, connectWaits_cancelConnectTimer, cancel_cancel]
        rfl
    · rw [readFromBackend, asyncReadSome, connectWaits_postOn _ _ rfl]
      exact (connectWaits_readNext s.cancelConnectTimer now .up).trans
        (connectWaits_cancelConnectTimer s)
  | read d =>
    rw [handle]
    split
    · exact connectWaits_shutdown s
    · exact Or.inl (connectWaits_postOn s _ rfl)
  | write d bytes sent =>
    rw [handle]
    split
    · exact connectWaits_shutdown s
    · exact Or.inl (connectWaits_readNext s now d)

theorem length_connectWaits (s : Session) :
    s.connectWaits.length = count Op.isConnectWait s.pending :=
  List.countP_eq_length_filter.symm

theorem count_connectWait_handle (s : Session) (now : Nat) (op : Op) (ec : ErrorCode) (n : Nat) :
    count Op.isConnectWait (s.handle now op ec n).pending = count Op.isConnectWait s.pending := by
  rw [← length_connectWaits, ← length_connectWaits]
  rcases connectWaits_handle s now op ec n with h | h
  · rw [h]
  · rw [h, cancel, List.length_map]

/-! ### Before the connect's handler -/

structure Connecting (s : Session) : Prop where
  once : count Op.isConnectWait s.pending ≤ 1
  alone : 0 < count Op.isConnect s.pending → count Op.relays s.pending = 0
  expired : 0 < count Op.isConnect s.pending → s.shuttingDown = true →
    count Op.isConnectWait s.pending = 0

theorem Connecting.of_count (h : s.Connecting) (hd : t.shuttingDown = s.shuttingDown)
    (hc : ∀ f : Op → Bool, (∀ d b x y, f (.write d b x) = f (.write d b y)) →
      count f t.pending = count f s.pending) : t.Connecting := by
  have h1 := hc Op.isConnectWait fun _ _ _ _ => rfl
  have h2 := hc Op.isConnect fun _ _ _ _ => rfl
  have h3 := hc Op.relays fun _ _ _ _ => rfl
  refine ⟨?_, ?_, ?_⟩
  · rw [h1]
    exact h.once
  · rw [h2, h3]
    exact h.alone
  · rw [h1, h2, hd]
    exact h.expired

theorem connect_of_handle (h : 0 < count Op.isConnect (s.handle now op ec n).pending) :
    ∃ p ∈ s.pending, p.op = .connect := by
  obtain ⟨p, hp, hop⟩ := List.countP_pos_iff.mp h
  rcases mem_handle hp with ⟨q, hq, hqp, -⟩ | ⟨-, -, hi | ⟨d, -, hi⟩ | ⟨d, -, hi⟩⟩
  · refine ⟨q, hq, ?_⟩
    rw [hqp]
    cases hpo : p.op with
    | connect => rfl
    | _ => rw [hpo] at hop; cases hop
  all_goals rw [hi] at hop; cases hop

theorem Connecting.dispatch (h : s.Connecting) (hl : count (Op.inLoop .up) s.pending ≤ 1)
    (hm : ⟨op, .queued ec n⟩ ∈ s.pending) :
    ((s.dequeue op ec n).handle now op ec n).Connecting := by
  have hwait := count_connectWait_handle (s.dequeue op ec n) now op ec n
  have hc := count_consume (f := Op.isConnectWait) hm
  rw [dequeue_pending] at hwait
  have honce := h.once
  -- where a connect is still pending, the handler was the timer's
  have hkey : 0 < count Op.isConnect ((s.dequeue op ec n).handle now op ec n).pending →
      op = .connectWait ∧ 0 < count Op.isConnect s.pending := by
    intro hpos
    obtain ⟨p, hp, hop⟩ := connect_of_handle hpos
    have hps : p ∈ s.pending := mem_of_mem_consume hp
    have hs : 0 < count Op.isConnect s.pending := count_pos hps (by rw [hop]; rfl)
    refine ⟨?_, hs⟩
    have halone := h.alone hs
    cases op with
    | connectWait => rfl
    | connect =>
      have hcl := count_consume (f := Op.inLoop .up) hm
      rw [if_pos (show Op.inLoop .up .connect = true from rfl)] at hcl
      have hzero : count (Op.inLoop .up) (consume s.pending .connect ec n) = 0 := by omega
      have := not_mem_of_count_eq_zero hzero hp
      rw [hop] at this
      cases this
    | _ => cases not_mem_of_count_eq_zero halone hm
  refine ⟨by omega, ?_, ?_⟩
  · intro hpos
    obtain ⟨rfl, hs⟩ := hkey hpos
    have hcr := count_consume (f := Op.relays) hm
    have halone := h.alone hs
    rw [handle]
    split
    · rw [dequeue_pending]
      omega
    · rw [count_shutdown, dequeue_pending]
      omega
  · intro hpos _
    obtain ⟨rfl, -⟩ := hkey hpos
    rw [if_pos (show Op.isConnectWait .connectWait = true from rfl)] at hc
    omega

theorem Connecting.step {e : Event} (h : s.Connecting)
    (hl : count (Op.inLoop .up) s.pending ≤ 1) (he : step now s e = some t) : t.Connecting := by
  cases e with
  | complete op ec =>
    obtain ⟨hm, -, rfl⟩ := of_step_complete he
    exact h.of_count rfl fun f _ => count_resolve hm
  | recv d chunk =>
    obtain ⟨hm, -, -, rfl⟩ := of_step_recv he
    exact h.of_count (by cases d <;> rfl) fun f _ => count_resolve hm
  | send d bytes sent k =>
    obtain ⟨hm, -, -, rfl⟩ := of_step_send he
    refine h.of_count rfl fun f hf => ?_
    rw [count_append, count_cons, count_nil, Nat.zero_add, hf d bytes _ sent]
    exact count_erase hm
  | dispatch op ec n =>
    obtain ⟨hm, rfl⟩ := of_step_dispatch he
    exact h.dispatch hl hm

/-- No wait of the connect timer can tell its handler of success any more. -/
def Spent (s : Session) : Prop := ∀ p ∈ s.connectWaits, ∃ ec n, p.status = .queued ec n ∧ ec.failed

theorem Spent.of_cancel (h : ∀ m, ⟨.connectWait, .queued .success m⟩ ∉ s.pending)
    (ht : t.connectWaits = cancel (fun _ => true) s.connectWaits) : t.Spent := by
  intro p hp
  rw [ht] at hp
  rcases mem_cancel hp with ⟨hm, hw⟩ | ⟨q, -, -, -, -, hst⟩
  · obtain ⟨hps, hop⟩ := mem_connectWaits.mp hm
    obtain ⟨op, st⟩ := p
    cases hop
    cases st with
    | waiting => exact absurd rfl (hw rfl)
    | queued ec n =>
      refine ⟨ec, n, rfl, ?_⟩
      by_contra hec
      obtain rfl := ErrorCode.failed_eq_false.mp (by simpa using hec)
      exact h n hps
  · exact ⟨_, _, hst, rfl⟩

theorem Spent.step {e : Event} (h : s.Spent) (he : step now s e = some t) : t.Spent := by
  have hsub : (∀ p ∈ t.connectWaits, p ∈ s.connectWaits) → t.Spent := fun hs p hp => h p (hs p hp)
  cases e with
  | complete op ec =>
    obtain ⟨hm, -, rfl⟩ := of_step_complete he
    refine hsub fun p hp => ?_
    obtain ⟨hp, hop⟩ := mem_connectWaits.mp hp
    rcases mem_resolve hp with hp | rfl
    · exact mem_connectWaits.mpr ⟨hp, hop⟩
    · obtain ⟨_, _, hst, -⟩ := h _ (mem_connectWaits.mpr ⟨hm, hop⟩)
      cases hst
  | recv d chunk =>
    obtain ⟨hm, -, -, rfl⟩ := of_step_recv he
    refine hsub fun p hp => ?_
    obtain ⟨hp, hop⟩ := mem_connectWaits.mp hp
    rcases mem_resolve hp with hp | rfl
    · exact mem_connectWaits.mpr ⟨hp, hop⟩
    · cases hop
  | send d bytes sent k =>
    obtain ⟨hm, -, -, rfl⟩ := of_step_send he
    refine hsub fun p hp => ?_
    obtain ⟨hp, hop⟩ := mem_connectWaits.mp hp
    rcases List.mem_append.mp hp with hp | hp
    · exact mem_connectWaits.mpr ⟨List.mem_of_mem_erase hp, hop⟩
    · obtain rfl := List.mem_singleton.mp hp
      cases hop
  | dispatch op ec n =>
    obtain ⟨hm, rfl⟩ := of_step_dispatch he
    have hdeq : ∀ p ∈ (s.dequeue op ec n).connectWaits, p ∈ s.connectWaits := by
      intro p hp
      obtain ⟨hp, hop⟩ := mem_connectWaits.mp hp
      exact mem_connectWaits.mpr ⟨mem_of_mem_consume hp, hop⟩
    rcases connectWaits_handle (s.dequeue op ec n) now op ec n with hw | hw
    · exact hsub fun p hp => hdeq p (hw ▸ hp)
    · have hnil : ∀ p ∈ (s.dequeue op ec n).connectWaits, p.status ≠ .waiting := by
        intro p hp hst
        obtain ⟨_, _, hst', -⟩ := h p (hdeq p hp)
        rw [hst] at hst'
        cases hst'
      rw [cancel_eq_self hnil] at hw
      exact hsub fun p hp => hdeq p (hw ▸ hp)

theorem Spent.handle_connectWait (h : s.Spent) (hm : ⟨.connectWait, .queued ec n⟩ ∈ s.pending)
    (t : Session) : t.handle now .connectWait ec n = t := by
  obtain ⟨_, _, hst, hec⟩ := h _ (mem_connectWaits.mpr ⟨hm, rfl⟩)
  cases hst
  exact if_pos hec

/-- **`OnConnected` spends the connect timer**, unless its expiry is queued. -/
theorem spent_onConnected {m : Nat}
    (h : ∀ m, ⟨.connectWait, .queued .success m⟩ ∉ s.pending) :
    ((s.dequeue .connect .success m).handle now .connect .success m).Spent := by
  refine Spent.of_cancel (s := s.dequeue .connect .success m)
    (fun k hk => h k (mem_of_mem_consume hk)) ?_
  exact (connectWaits_readNext ((s.dequeue .connect .success m).cancelConnectTimer.readFromClient
    now) now .down).trans ((connectWaits_readNext _ now .up).trans
      (connectWaits_cancelConnectTimer _))

theorem connecting_started (now b : Nat) (ct it : UInt32) : (started now b ct it).Connecting :=
  ⟨le_rfl, fun _ => rfl, fun _ h => nomatch h⟩

end Session

/-! ### Runs -/

namespace World

theorem connecting_of_reaches {now b : Nat} {ct it : UInt32} {w : World}
    (h : Reaches step (start now b ct it) w) : w.session.Connecting := by
  suffices hw : w.Sound ∧ w.session.Connecting from hw.2
  refine h.invariant (I := fun w => w.Sound ∧ w.session.Connecting)
    ⟨sound_start now b ct it, Session.connecting_started now b ct it⟩ ?_
  rintro t u e ⟨hs, hc⟩ _ he
  refine ⟨hs.step he, ?_⟩
  cases e with
  | tick =>
    obtain rfl := Option.some.inj he
    exact hc
  | session e =>
    obtain ⟨s, ht, rfl⟩ := of_step_session he
    exact hc.step (hs.loop .up) ht

theorem spent_of_reaches {v u : World} (h : Reaches step v u) (hv : v.session.Spent) :
    u.session.Spent := by
  refine h.invariant (I := fun u => u.session.Spent) hv fun {t _ e} hi _ he => ?_
  cases e with
  | tick =>
    obtain rfl := Option.some.inj he
    exact hi
  | session e =>
    obtain ⟨s, hs, rfl⟩ := of_step_session he
    exact hi.step hs

end World

namespace World

def onConnected (n : Nat) : World.Event := .session (.dispatch .connect .success n)

def NotExpired (w : World) : Prop := ∀ m, ⟨.connectWait, .queued .success m⟩ ∉ w.session.pending

/-- `OnConnected` runs before the connect timer's expiry is queued, if it runs. -/
def OnTime (w : World) (e : World.Event) : Prop := ∀ n, e = onConnected n → w.NotExpired

def KeepsConnection (w : World) : Prop :=
  ∀ ec n v, w.step (.session (.dispatch .connectWait ec n)) = some v →
    v.session.shuttingDown = w.session.shuttingDown

theorem keepsConnection_of_spent {w : World} (h : w.session.Spent) : w.KeepsConnection := by
  intro ec n v hv
  obtain ⟨s, hs, rfl⟩ := of_step_session hv
  obtain ⟨hm, rfl⟩ := Session.of_step_dispatch hs
  rw [h.handle_connectWait hm]
  rfl

theorem spent_of_onConnected {w v : World} {n : Nat} (h : w.NotExpired)
    (he : w.step (onConnected n) = some v) : v.session.Spent := by
  obtain ⟨s, hs, rfl⟩ := of_step_session he
  obtain ⟨-, rfl⟩ := Session.of_step_dispatch hs
  exact Session.spent_onConnected h

/-- An expiry that is queued when `OnConnected` runs shuts the session down. -/
theorem notExpired_of_keepsConnection {w v : World} {n : Nat} (hw : w.session.Connecting)
    (he : w.step (onConnected n) = some v) (h : v.KeepsConnection) : w.NotExpired := by
  intro m hm
  obtain ⟨s, hs, rfl⟩ := of_step_session he
  obtain ⟨hc, rfl⟩ := Session.of_step_dispatch hs
  have h0 : w.session.shuttingDown = false := by
    by_contra hd
    have hz := hw.expired (count_pos hc rfl) (by simpa using hd)
    cases not_mem_of_count_eq_zero hz hm
  have hm' : ⟨.connectWait, .queued .success m⟩ ∈
      ((w.session.dequeue .connect .success n).handle w.now .connect .success n).pending :=
    Session.mem_handle_of_queued ((List.mem_erase_of_ne (by simp)).mpr hm)
  have hv : ((w.session.dequeue .connect .success n).handle w.now .connect .success
      n).shuttingDown = false :=
    (Session.shuttingDown_handle_success (w.session.dequeue .connect .success n) w.now n rfl).trans
      h0
  have hdown := h .success m _ (Option.map_eq_some_iff.mpr ⟨_, if_pos hm', rfl⟩)
  exact absurd ((Session.shuttingDown_shutdown _).symm.trans (hdown.trans hv)) (by decide)

end World

/-- **When a connected session is safe from its connect timeout.**  In every run
in which `OnConnected` runs on time, no handler of the connect timer shuts the
session down once it has connected.  In every run at all, `OnConnected` makes
this so exactly when the expiry is not queued yet. -/
theorem connect_timeout_spent (now b : Nat) (ct it : UInt32) :
    (∀ w v u n, ReachesIn World.step World.OnTime (World.start now b ct it) w →
      w.OnTime (World.onConnected n) → w.step (World.onConnected n) = some v →
        ReachesIn World.step World.OnTime v u → u.KeepsConnection) ∧
    ∀ w v n, Reaches World.step (World.start now b ct it) w →
      w.step (World.onConnected n) = some v →
        ((∀ u, Reaches World.step v u → u.KeepsConnection) ↔ w.NotExpired) := by
  have hsafe : ∀ {w v u : World} {n}, w.NotExpired → w.step (World.onConnected n) = some v →
      Reaches World.step v u → u.KeepsConnection := fun hok he hu =>
    World.keepsConnection_of_spent (World.spent_of_reaches hu (World.spent_of_onConnected hok he))
  refine ⟨fun w v u n _ hok he hu => hsafe (hok n rfl) he hu.toReaches, fun w v n h he => ?_⟩
  refine ⟨fun hu => ?_, fun hok u hu => hsafe hok he hu⟩
  exact World.notExpired_of_keepsConnection (World.connecting_of_reaches h) he (hu v .refl)

/-- A connect that is answered before the timer expires. -/
theorem connect_timeout_spent_on_time : ∃ v, run World.step (World.start 0 0 5000 1000)
      [.session (.complete .connect .success), World.onConnected 0] = some v ∧
      ∀ u, Reaches World.step v u → u.KeepsConnection := by
  have hw : run World.step (World.start 0 0 5000 1000) [.session (.complete .connect .success)] =
      some ⟨0, { Session.started 0 0 5000 1000 with
        pending := [⟨.connectWait, .waiting⟩, ⟨.connect, .queued .success 0⟩] },
        { Trace.empty with connected := true }⟩ := rfl
  exact ⟨_, rfl, ((connect_timeout_spent 0 0 5000 1000).2 _ _ 0 (reaches_of_run hw) rfl).mpr
    fun m hm => by simp at hm⟩

/-- **A connected session is shut down.**  The connect succeeds as its time is
up, both completions are queued, and `OnConnected` runs first. -/
theorem late_connect_timeout : ¬ ∀ (now b : Nat) (ct it : UInt32) (w v u : World) (n : Nat),
    Reaches World.step (World.start now b ct it) w → w.step (World.onConnected n) = some v →
      Reaches World.step v u → u.KeepsConnection := by
  intro h
  let w : World := ⟨1, { Session.started 0 0 1 1000 with
    pending := [⟨.connect, .queued .success 0⟩, ⟨.connectWait, .queued .success 0⟩] },
    { Trace.empty with connected := true }⟩
  have hw : run World.step (World.start 0 0 1 1000) [.tick, .session (.complete .connect .success),
      .session (.complete .connectWait .success)] = some w := rfl
  have hdown := h 0 0 1 1000 w _ _ 0 (reaches_of_run hw) rfl .refl .success 0 _ rfl
  exact absurd hdown (by decide)

end BitBridge.Proxy
