import BitBridge.Proxy.ConnectTimeout

/-!
# A session goes on, or it can end

A relay loop is never dropped and never runs twice: until `Shutdown` has run,
each direction has one operation, and its handler starts the next.  When the
peers are silent nothing but a timer can end a session, so the code has to keep
one armed.

* `Alive`: what a session that has not shut down keeps pending.
* `one_operation_each`: **until `Shutdown` each direction has exactly one
  operation**, and a timer is armed that can end the session.
* `exists_end`: with an idle timeout, or before it has connected, **a session
  can end by its own timers**, whatever its peers do not send.
-/

namespace BitBridge.Proxy

open Proactor Steps

namespace Session

variable {s t : Session} {now : Nat}

/-- The operation's handler will be told of success if nobody cancels it. -/
def Hopeful (p : Pending Op) : Prop :=
  p.status = .waiting ∨ ∃ n, p.status = .queued .success n

/-- A wait of this kind can still shut the session down. -/
def Expires (f : Op → Bool) (s : Session) : Prop := ∃ p ∈ s.pending, f p.op ∧ Hopeful p

/-- What a session keeps pending until it shuts down: one operation for each
direction, with the connect timer while it connects, and the idle timer then. -/
structure Alive (s : Session) : Prop where
  loop : ∀ d, count (Op.inLoop d) s.pending = 1
  connecting : 0 < count Op.isConnect s.pending → s.Expires Op.isConnectWait
  connected : count Op.isConnect s.pending = 0 → 0 < s.idleTimeoutMs → s.Expires Op.isIdleWait

theorem inLoop_of_isConnect {op : Op} (d : Dir) (h : op.isConnect) : op.inLoop d := by
  cases op <;> first | rfl | cases h

theorem alive_started (now b : Nat) (ct it : UInt32) : (started now b ct it).Alive where
  loop d := count_started now b ct it d
  connecting _ := ⟨⟨.connectWait, .waiting⟩, List.mem_cons_self, rfl, .inl rfl⟩
  connected h := nomatch h

theorem success_of_mayComplete {op : Op} {ec : ErrorCode} (hop : op.isTimer)
    (h : s.mayComplete now op ec) : ec = .success := by
  cases op with
  | connectWait | idleWait =>
    rw [mayComplete, decide_eq_true_eq] at h
    exact h.1
  | _ => cases hop

theorem handle_timer {op : Op} (hop : op.isTimer) (n : Nat) :
    (s.handle now op .success n).shuttingDown = true := by
  cases op with
  | connectWait | idleWait => exact shuttingDown_shutdown s
  | _ => cases hop

namespace Expires

variable {f : Op → Bool}

theorem complete (hf : ∀ op, f op → op.isTimer) (h : s.Expires f) {op : Op} {ec : ErrorCode}
    (hs : step now s (.complete op ec) = some t) : t.Expires f := by
  obtain ⟨-, hmay, rfl⟩ := of_step_complete hs
  obtain ⟨p, hp, hfp, hst⟩ := h
  by_cases hpo : p = ⟨op, .waiting⟩
  · subst hpo
    obtain rfl := success_of_mayComplete (hf op hfp) hmay
    exact ⟨_, List.mem_append_right _ (List.mem_singleton_self _), hfp, .inr ⟨0, rfl⟩⟩
  · exact ⟨p, mem_resolve_of_mem hp hpo, hfp, hst⟩

theorem recv (hf : ∀ op, f op → op.isTimer) (h : s.Expires f) {d : Dir} {chunk : Bytes}
    (hs : step now s (.recv d chunk) = some t) : t.Expires f := by
  obtain ⟨-, -, -, rfl⟩ := of_step_recv hs
  obtain ⟨p, hp, hfp, hst⟩ := h
  refine ⟨p, mem_resolve_of_mem hp ?_, hfp, hst⟩
  rintro rfl
  exact Bool.noConfusion (hf _ hfp)

theorem send (hf : ∀ op, f op → op.isTimer) (h : s.Expires f) {d : Dir} {bytes k : Nat}
    {sent : Bytes} (hs : step now s (.send d bytes sent k) = some t) : t.Expires f := by
  obtain ⟨-, -, -, rfl⟩ := of_step_send hs
  obtain ⟨p, hp, hfp, hst⟩ := h
  refine ⟨p, List.mem_append_left _ ((List.mem_erase_of_ne ?_).mpr hp), hfp, hst⟩
  rintro rfl
  exact Bool.noConfusion (hf _ hfp)

theorem dequeue (hf : ∀ op, f op → op.isTimer) (h : s.Expires f) {op : Op} {ec : ErrorCode}
    {n : Nat} (hup : ((s.dequeue op ec n).handle now op ec n).shuttingDown = false) :
    (s.dequeue op ec n).Expires f := by
  obtain ⟨p, hp, hfp, hst⟩ := h
  refine ⟨p, (List.mem_erase_of_ne ?_).mpr hp, hfp, hst⟩
  rintro rfl
  rcases hst with hst | ⟨m, hst⟩
  · cases hst
  · cases hst
    rw [handle_timer (hf op hfp)] at hup
    cases hup

end Expires

theorem expires_readFromClient (s : Session) (now : Nat) (h : 0 < s.idleTimeoutMs) :
    (s.readFromClient now).Expires Op.isIdleWait := by
  rw [readFromClient, if_pos h]
  exact ⟨⟨.idleWait, .waiting⟩,
    List.mem_append_left _ (List.mem_append_right _ (List.mem_singleton_self _)), rfl, .inl rfl⟩

theorem Expires.append {f : Op → Bool} (h : s.Expires f) (side : Side) (op : Op) :
    (s.postOn side op).Expires f := by
  obtain ⟨p, hp, hfp, hst⟩ := h
  exact ⟨p, List.mem_append_left _ hp, hfp, hst⟩

theorem count_isConnect_le (s : Session) (d : Dir) :
    count Op.isConnect s.pending ≤ count (Op.inLoop d) s.pending :=
  count_mono (fun _ h => inLoop_of_isConnect d h) s.pending

namespace Alive

/-- A handler that is told of an error, and does not shut the session down, is a
cancelled timer's; it does nothing. -/
theorem timer (h : s.Alive) {op : Op} {ec : ErrorCode} {n : Nat} (hop : op.isTimer)
    (hm : ⟨op, .queued ec n⟩ ∈ s.pending)
    (hup : ((s.dequeue op ec n).handle now op ec n).shuttingDown = false) :
    ((s.dequeue op ec n).handle now op ec n).Alive := by
  have hec : ec.failed = true := by
    by_contra hne
    obtain rfl := ErrorCode.failed_eq_false.mp (by simpa using hne)
    rw [handle_timer hop] at hup
    cases hup
  have hsame : (s.dequeue op ec n).handle now op ec n = s.dequeue op ec n := by
    cases op with
    | connectWait | idleWait => rw [handle, if_pos hec]
    | _ => cases hop
  have hcount : ∀ f : Op → Bool, f op = false →
      count f (consume s.pending op ec n) = count f s.pending := by
    intro f hf
    have hc := count_consume (f := f) hm
    rwa [hf, if_neg Bool.false_ne_true, Nat.add_zero] at hc
  have hloop : ∀ d, op.inLoop d = false := by
    intro d
    cases op <;> first | rfl | cases hop
  have hconn : op.isConnect = false := by cases op <;> first | rfl | cases hop
  rw [hsame]
  have hup' : ((s.dequeue op ec n).handle now op ec n).shuttingDown = false := hup
  refine ⟨fun d => (hcount _ (hloop d)).trans (h.loop d), fun hc => ?_, fun hc hT => ?_⟩
  · rw [dequeue_pending, hcount _ hconn] at hc
    exact (h.connecting hc).dequeue (fun _ => Op.isTimer_of_isConnectWait) hup'
  · rw [dequeue_pending, hcount _ hconn] at hc
    exact (h.connected hc hT).dequeue (fun _ => Op.isTimer_of_isIdleWait) hup'

theorem onConnected (h : s.Alive) {n : Nat} (hm : ⟨.connect, .queued .success n⟩ ∈ s.pending) :
    ((s.dequeue .connect .success n).handle now .connect .success n).Alive := by
  have hgone : ∀ d, count (Op.inLoop d) (consume s.pending .connect .success n) = 0 := by
    intro d
    have hc := count_consume (f := Op.inLoop d) hm
    rw [h.loop d] at hc
    have hone : (if (Op.connect.inLoop d) = true then 1 else 0) = 1 := rfl
    omega
  have hpost : ∀ f : Op → Bool, f .idleWait = false →
      count f ((s.dequeue .connect .success n).handle now .connect .success n).pending =
        count f (consume s.pending .connect .success n) + (if f (.read .up) then 1 else 0) +
          if f (.read .down) then 1 else 0 := by
    intro f hf
    rw [handle, Session.onConnected, if_neg (by simp), count_readFromBackend,
      count_readFromClient _ _ _ hf, cancelConnectTimer_pending, count_cancel, dequeue_pending]
  refine ⟨fun d => ?_, fun hc => ?_, fun _ hT => ?_⟩
  · rw [hpost _ rfl, hgone d]
    cases d <;> rfl
  · have hle := count_isConnect_le (s.dequeue .connect .success n) .up
    rw [dequeue_pending, hgone .up] at hle
    rw [hpost _ rfl] at hc
    have h0 : (if Op.isConnect (.read .up) = true then 1 else 0) = 0 := rfl
    have h1 : (if Op.isConnect (.read .down) = true then 1 else 0) = 0 := rfl
    omega
  · have hT' := (sameObject_handle (s.dequeue .connect .success n) now .connect .success n)
    rw [hT'.idleTimeoutMs] at hT
    exact (expires_readFromClient (s.dequeue .connect .success n).cancelConnectTimer now hT).append
      _ _

theorem onRead (h : s.Alive) {d : Dir} {n : Nat} (hm : ⟨.read d, .queued .success n⟩ ∈ s.pending)
    (hup : ((s.dequeue (.read d) .success n).handle now (.read d) .success n).shuttingDown =
      false) : ((s.dequeue (.read d) .success n).handle now (.read d) .success n).Alive := by
  have hpost : ∀ f : Op → Bool, (f (.read d) = f (.write d n [])) →
      count f ((s.dequeue (.read d) .success n).handle now (.read d) .success n).pending =
        count f s.pending := by
    intro f hf
    have hc := count_consume (f := f) hm
    rw [handle, if_neg (by simp), asyncWrite, count_postOn, dequeue_pending, ← hf]
    exact hc
  refine ⟨fun d' => ?_, fun hc => ?_, fun hc hT => ?_⟩
  · rw [hpost _ rfl]
    exact h.loop d'
  · rw [hpost _ rfl] at hc
    exact ((h.connecting hc).dequeue (fun _ => Op.isTimer_of_isConnectWait) hup).append _ _
  · rw [hpost _ rfl] at hc
    exact ((h.connected hc hT).dequeue (fun _ => Op.isTimer_of_isIdleWait) hup).append _ _

theorem onWrite (h : s.Alive) {d : Dir} {bytes n : Nat} {sent : Bytes}
    (hm : ⟨.write d bytes sent, .queued .success n⟩ ∈ s.pending)
    (hup : ((s.dequeue (.write d bytes sent) .success n).handle now (.write d bytes sent) .success
      n).shuttingDown = false) :
    ((s.dequeue (.write d bytes sent) .success n).handle now (.write d bytes sent) .success
      n).Alive := by
  have hcons : ∀ f : Op → Bool, f .idleWait = false → f (.write d bytes sent) = f (.read d) →
      count f ((s.dequeue (.write d bytes sent) .success n).handle now (.write d bytes sent)
        .success n).pending = count f s.pending := by
    intro f hidle hf
    have hc := count_consume (f := f) hm
    rw [handle, if_neg (by simp), count_readNext _ _ _ hidle, dequeue_pending, ← hf]
    exact hc
  -- The loop of this write has no connect.
  have hnone : count Op.isConnect s.pending = 0 := by
    have hc := count_consume (f := Op.inLoop d) hm
    have hone : (if (Op.write d bytes sent).inLoop d = true then 1 else 0) = 1 :=
      if_pos (by simp [Op.inLoop])
    have hcc := count_consume (f := Op.isConnect) hm
    have hzero : (if (Op.write d bytes sent).isConnect = true then 1 else 0) = 0 := rfl
    have hle := count_isConnect_le (s.dequeue (.write d bytes sent) .success n) d
    rw [dequeue_pending] at hle
    have hloop := h.loop d
    omega
  refine ⟨fun d' => ?_, fun hc => ?_, fun _ hT => ?_⟩
  · rw [hcons _ rfl rfl]
    exact h.loop d'
  · rw [hcons _ rfl rfl, hnone] at hc
    exact absurd hc (Nat.lt_irrefl 0)
  · have hsame := sameObject_handle (s.dequeue (.write d bytes sent) .success n) now
      (.write d bytes sent) .success n
    rw [hsame.idleTimeoutMs] at hT
    cases d with
    | up => exact expires_readFromClient (s.dequeue (.write .up bytes sent) .success n) now hT
    | down =>
      exact ((h.connected hnone hT).dequeue (fun _ => Op.isTimer_of_isIdleWait) hup).append _ _

theorem success_of_up {op : Op} {ec : ErrorCode} {n : Nat} (hop : op.isTimer = false)
    (hup : (s.handle now op ec n).shuttingDown = false) : ec = .success := by
  refine ErrorCode.failed_eq_false.mp ?_
  by_contra hne
  have hec : ec.failed = true := by simpa using hne
  cases op with
  | connectWait | idleWait => cases hop
  | connect =>
    rw [handle, Session.onConnected, if_pos hec, shuttingDown_shutdown] at hup
    cases hup
  | read d | write d bytes sent =>
    rw [handle, if_pos hec, shuttingDown_shutdown] at hup
    cases hup

/-- **A turn that does not shut the session down keeps it going.** -/
theorem step (h : s.Alive) {e : Event} (hs : step now s e = some t)
    (hup : t.shuttingDown = false) : t.Alive := by
  have hcounts : (∀ f : Op → Bool, (∀ d b x y, f (.write d b x) = f (.write d b y)) →
      count f t.pending = count f s.pending) →
      (0 < count Op.isConnect s.pending → t.Expires Op.isConnectWait) →
      (count Op.isConnect s.pending = 0 → 0 < s.idleTimeoutMs → t.Expires Op.isIdleWait) →
      t.Alive := by
    intro hc hcon hidle
    refine ⟨fun d => (hc _ fun _ _ _ _ => rfl).trans (h.loop d), fun h0 => ?_, fun h0 hT => ?_⟩
    · exact hcon (hc Op.isConnect (fun _ _ _ _ => rfl) ▸ h0)
    · exact hidle (hc Op.isConnect (fun _ _ _ _ => rfl) ▸ h0) ((step_binding hs).2 ▸ hT)
  cases e with
  | complete op ec =>
    refine hcounts (fun f _ => ?_) (fun h0 => ?_) fun h0 hT => ?_
    · obtain ⟨hm, -, rfl⟩ := of_step_complete hs
      exact count_resolve hm
    · exact (h.connecting h0).complete (fun _ => Op.isTimer_of_isConnectWait) hs
    · exact (h.connected h0 hT).complete (fun _ => Op.isTimer_of_isIdleWait) hs
  | recv d chunk =>
    refine hcounts (fun f _ => ?_) (fun h0 => ?_) fun h0 hT => ?_
    · obtain ⟨hm, -, -, rfl⟩ := of_step_recv hs
      exact count_resolve hm
    · exact (h.connecting h0).recv (fun _ => Op.isTimer_of_isConnectWait) hs
    · exact (h.connected h0 hT).recv (fun _ => Op.isTimer_of_isIdleWait) hs
  | send d bytes sent k =>
    refine hcounts (fun f hf => ?_) (fun h0 => ?_) fun h0 hT => ?_
    · obtain ⟨hm, -, -, rfl⟩ := of_step_send hs
      have hc := count_erase (f := f) hm
      rw [count_append, count_cons, count_nil, Nat.zero_add, ← hc]
      exact congrArg (fun b => _ + if b = true then 1 else 0) (hf d bytes _ _)
    · exact (h.connecting h0).send (fun _ => Op.isTimer_of_isConnectWait) hs
    · exact (h.connected h0 hT).send (fun _ => Op.isTimer_of_isIdleWait) hs
  | dispatch op ec n =>
    obtain ⟨hm, rfl⟩ := of_step_dispatch hs
    cases hop : op.isTimer with
    | true => exact h.timer hop hm hup
    | false =>
      obtain rfl := success_of_up hop hup
      cases op with
      | connectWait | idleWait => cases hop
      | connect => exact h.onConnected hm
      | read d => exact h.onRead hm hup
      | write d bytes sent => exact h.onWrite hm hup

end Alive

end Session

namespace World

theorem alive_of_reaches {now b : Nat} {ct it : UInt32} {w : World}
    (h : Reaches step (start now b ct it) w) (hup : w.session.shuttingDown = false) :
    w.session.Alive := by
  refine h.invariant (I := fun w => w.session.shuttingDown = false → w.session.Alive)
    (fun _ => Session.alive_started now b ct it) ?_ hup
  intro t u e hi _ he hu
  cases e with
  | tick =>
    obtain rfl := Option.some.inj he
    exact hi hu
  | session e =>
    obtain ⟨s, hs, rfl⟩ := of_step_session he
    refine (hi ?_).step hs hu
    by_contra hd
    have hdown := Session.shuttingDown_step hs (by simpa using hd)
    rw [hdown] at hu
    cases hu

end World

/-! ### What is left after `Shutdown` -/

/-- How many turns a pending operation can lead to on closed sockets: a timer
that waits has to expire first. -/
def budget (p : Pending Op) : Nat :=
  match p.op, p.status with
  | .connectWait, .waiting => 2
  | .idleWait, .waiting => 2
  | .connect, .queued .success _ => 5
  | .write .up _ _, .queued .success _ => 4
  | .write .down _ _, .queued .success _ => 2
  | .read _, .queued .success _ => 2
  | _, _ => 1

theorem one_le_budget (p : Pending Op) : 1 ≤ budget p := by
  unfold budget
  split <;> omega

theorem budget_abort (f : Op → Bool) (p : Pending Op) : budget (p.abort f) ≤ budget p := by
  unfold Pending.abort
  split
  · refine Nat.le_trans (Nat.le_of_eq ?_) (one_le_budget p)
    rcases p with ⟨_ | _ | _ | _ | ⟨_ | _⟩, _⟩ <;> rfl
  · exact Nat.le_refl _

namespace Session

variable {s t : Session} {now : Nat}

theorem weigh_shutdown (hd : s.shuttingDown = true) :
    weigh budget s.shutdown.pending = weigh budget s.pending := by
  rw [shutdown_pending, if_pos hd]

theorem weigh_asyncReadSome (h : s.Tidy) (hd : s.shuttingDown = true) (d : Dir) :
    weigh budget (s.asyncReadSome d).pending = weigh budget s.pending + 1 := by
  rw [asyncReadSome_closed h hd, weigh_append, weigh_singleton]
  rfl

theorem weigh_readFromClient (h : s.Tidy) (hd : s.shuttingDown = true) (now : Nat) :
    weigh budget (s.readFromClient now).pending ≤ weigh budget s.pending + 3 := by
  rw [readFromClient]
  split
  · rw [weigh_asyncReadSome (h.armIdleTimer now) hd, armIdleTimer_pending,
      weigh_append, weigh_singleton]
    exact Nat.succ_le_succ (Nat.add_le_add_right (weigh_cancel (budget_abort _) _) 2)
  · rw [weigh_asyncReadSome h hd]
    exact Nat.add_le_add_left (by decide) _

/-- **After `Shutdown` a handler starts less than it ends.** -/
theorem weigh_handle (h : s.Tidy) (hd : s.shuttingDown = true) (now : Nat) (op : Op)
    (ec : ErrorCode) (n : Nat) : weigh budget (s.handle now op ec n).pending + 1 ≤
      weigh budget s.pending + budget ⟨op, .queued ec n⟩ := by
  have hone := one_le_budget ⟨op, .queued ec n⟩
  cases hec : ec.failed with
  | true =>
    have hle : weigh budget (s.handle now op ec n).pending ≤ weigh budget s.pending := by
      cases op with
      | connectWait | idleWait =>
        rw [handle, if_pos hec]
      | connect =>
        rw [handle, onConnected, if_pos hec, weigh_shutdown (s := s.cancelConnectTimer) hd]
        exact weigh_cancel (budget_abort _) _
      | read d | write d bytes sent =>
        rw [handle, if_pos hec, weigh_shutdown hd]
    omega
  | false =>
    obtain rfl := ErrorCode.failed_eq_false.mp hec
    cases op with
    | connectWait | idleWait =>
      rw [handle, if_neg (by simp), weigh_shutdown hd]
      exact Nat.add_le_add_left hone _
    | connect =>
      have ht := h.cancelConnectTimer
      have hread := weigh_readFromClient ht hd now
      have hcancel := weigh_cancel (budget_abort Op.isConnectWait) s.pending
      have hdown : (s.cancelConnectTimer.readFromClient now).shuttingDown = true :=
        (shuttingDown_readNext s.cancelConnectTimer now .up).trans hd
      have hboth := weigh_asyncReadSome (ht.readNext now .up) hdown .down
      show weigh budget ((s.cancelConnectTimer.readFromClient now).asyncReadSome
        .down).pending + 1 ≤ weigh budget s.pending + 5
      rw [cancelConnectTimer_pending] at hread
      rw [readNext] at hboth
      omega
    | read d =>
      rw [handle, if_neg (by simp), asyncWrite, postOn_pending, h.sockets, hd, weigh_append,
        weigh_singleton]
      cases d <;> exact Nat.le_refl _
    | write d bytes sent =>
      rw [handle, if_neg (by simp)]
      cases d with
      | up =>
        have hread := weigh_readFromClient h hd now
        exact Nat.succ_le_succ hread
      | down =>
        exact Nat.succ_le_succ (Nat.le_of_eq (weigh_asyncReadSome h hd .down))

end Session

/-! ### Silent peers -/

def Session.Event.Silent : Session.Event → Prop
  | .complete op _ => op.isTimer = true
  | .dispatch _ _ _ => True
  | _ => False

namespace World

def Quiet (_ : World) : Event → Prop
  | .tick => True
  | .session e => e.Silent

theorem ticks (w : World) : ∀ k, ReachesIn step Quiet w { w with now := w.now + k }
  | 0 => .refl
  | k + 1 => (ticks w k).tail (e := .tick) trivial rfl

theorem step_session {w : World} {e : Session.Event} {s : Session}
    (h : w.session.step w.now e = some s) :
    w.step (.session e) =
      some { w with session := s, trace := w.trace.record w.now w.session e } := by
  rw [step, h, Option.map_some]

theorem exists_dispatch {w : World} {op : Op} {ec : ErrorCode} {n : Nat}
    (hm : ⟨op, .queued ec n⟩ ∈ w.session.pending) : ∃ v, ReachesIn step Quiet w v ∧
      v.session = (w.session.dequeue op ec n).handle w.now op ec n :=
  ⟨_, .single (e := .session (.dispatch op ec n)) trivial (step_session (if_pos hm)), rfl⟩

theorem exists_expire {w : World} {op : Op} (hop : op.isTimer)
    (hm : ⟨op, .waiting⟩ ∈ w.session.pending) : ∃ v, ReachesIn step Quiet w v ∧
      v.session = { w.session with pending := resolve w.session.pending op .success 0 } := by
  have hmay : w.session.mayComplete
      (w.now + (w.session.connectExpiry + w.session.idleExpiry)) op .success := by
    cases op with
    | connectWait | idleWait =>
      rw [Session.mayComplete, decide_eq_true_eq]
      exact ⟨rfl, by omega⟩
    | _ => cases hop
  refine ⟨_, (ticks w (w.session.connectExpiry + w.session.idleExpiry)).tail
    (e := .session (.complete op .success)) hop (step_session (if_pos ⟨hm, hmay⟩)), rfl⟩

/-- **After `Shutdown` nothing depends on the peers.** -/
theorem exists_drain {w : World} (ht : w.session.Tidy) (hd : w.session.shuttingDown = true) :
    ∃ v, ReachesIn step Quiet w v ∧ v.session.pending = [] := by
  have hprogress : ∀ w : World, w.session.Tidy ∧ w.session.shuttingDown = true →
      w.session.pending ≠ [] → ∃ v, ReachesIn step Quiet w v ∧
        (v.session.Tidy ∧ v.session.shuttingDown = true) ∧
          weigh budget v.session.pending < weigh budget w.session.pending := by
    rintro w ⟨ht, hd⟩ hne
    obtain ⟨⟨op, _ | ⟨ec, n⟩⟩, hm⟩ := List.exists_mem_of_ne_nil _ hne
    · obtain rfl := ht.settled hd op hm
      obtain ⟨v, hv, hsv⟩ := exists_expire rfl hm
      refine ⟨v, hv, ⟨?_, hsv ▸ hd⟩, ?_⟩
      · rw [hsv]
        refine ht.of_pending fun op' hm' => ?_
        rcases mem_resolve hm' with hm' | hm'
        · exact hm'
        · cases hm'
      · have hb := weigh_erase budget hm
        have hwait : budget ⟨.idleWait, .waiting⟩ = 2 := rfl
        rw [hsv, resolve, weigh_append, weigh_singleton]
        show _ + 1 < _
        omega
    · obtain ⟨v, hv, hsv⟩ := exists_dispatch hm
      refine ⟨v, hv, ⟨hsv ▸ (ht.dequeue op ec n).handle w.now op ec n, ?_⟩, ?_⟩
      · rw [hsv]
        rcases Session.shuttingDown_handle (w.session.dequeue op ec n) w.now op ec n with h1 | h1
        · exact h1
        · exact h1.trans hd
      · have hb := weigh_erase budget hm
        have hle := Session.weigh_handle (ht.dequeue op ec n) hd w.now op ec n
        rw [Session.dequeue_pending, consume] at hle
        rw [hsv]
        omega
  obtain ⟨v, hv, -, hend⟩ := exists_goal _ hprogress ⟨ht, hd⟩
  exact ⟨v, hv, hend⟩

theorem exists_shutdown {w : World} {f : Op → Bool} (hf : ∀ op, f op → op.isTimer)
    (h : w.session.Expires f) :
    ∃ v, ReachesIn step Quiet w v ∧ v.session.shuttingDown = true := by
  obtain ⟨⟨op, st⟩, hm, hfp, hst⟩ := h
  have hqueued : ∀ {w : World} {n}, ⟨op, .queued .success n⟩ ∈ w.session.pending →
      ∃ v, ReachesIn step Quiet w v ∧ v.session.shuttingDown = true := by
    intro w n hq
    obtain ⟨v, hv, hsv⟩ := exists_dispatch hq
    exact ⟨v, hv, hsv ▸ Session.handle_timer (hf op hfp) n⟩
  rcases hst with rfl | ⟨n, rfl⟩
  · obtain ⟨v, hv, hsv⟩ := exists_expire (hf op hfp) hm
    have hq : ⟨op, .queued .success 0⟩ ∈ v.session.pending := by
      rw [hsv]
      exact List.mem_append_right _ (List.mem_singleton_self _)
    obtain ⟨u, hu, hdown⟩ := hqueued hq
    exact ⟨u, hv.trans hu, hdown⟩
  · exact hqueued hm

/-- **Until `Shutdown` a session never stalls**: each direction has exactly one
operation, whose handler starts the next, and the timer that guards the session
can still expire. -/
theorem one_operation_each {now b : Nat} {ct it : UInt32} {w : World}
    (h : Reaches step (start now b ct it) w) (hup : w.session.shuttingDown = false) :
    (∀ d, count (Op.inLoop d) w.session.pending = 1) ∧
      (0 < count Op.isConnect w.session.pending → w.session.Expires Op.isConnectWait) ∧
      (count Op.isConnect w.session.pending = 0 → 0 < it →
        w.session.Expires Op.isIdleWait) := by
  have ha := alive_of_reaches h hup
  refine ⟨ha.loop, ha.connecting, fun h0 hit => ha.connected h0 ?_⟩
  rw [idleTimeoutMs_of_reaches h]
  exact hit

/-- The connect and both reads. -/
theorem one_operation_each_connected : ∃ w, Reaches step (start 0 0 1000 5000) w ∧
    (∀ d, count (Op.inLoop d) w.session.pending = 1) ∧ w.session.Expires Op.isIdleWait := by
  have h : Reaches step (start 0 0 1000 5000) _ :=
    .tail (e := .session (.dispatch .connect .success 0))
      (.tail (e := .session (.complete .connect .success)) .refl trivial rfl) trivial rfl
  obtain ⟨hloop, -, hidle⟩ := one_operation_each h rfl
  exact ⟨_, h, hloop, hidle rfl (by decide)⟩

theorem exists_down {now b : Nat} {ct it : UInt32} {w : World}
    (h : Reaches step (start now b ct it) w) (hit : 0 < it) :
    ∃ v, ReachesIn step Quiet w v ∧ v.session.shuttingDown = true := by
  cases hup : w.session.shuttingDown with
  | true => exact ⟨w, .refl, hup⟩
  | false =>
    have ha := alive_of_reaches h hup
    by_cases hc : 0 < count Op.isConnect w.session.pending
    · exact exists_shutdown (fun _ => Op.isTimer_of_isConnectWait) (ha.connecting hc)
    · refine exists_shutdown (fun _ => Op.isTimer_of_isIdleWait) (ha.connected (by omega) ?_)
      rw [idleTimeoutMs_of_reaches h]
      exact hit

/-- **With an idle timeout no session depends on its peers to end**: from every
state of a run, time and the loop alone can bring it to the one in which nothing
is pending and the session is released. -/
theorem exists_end {now b : Nat} {ct it : UInt32} {w : World}
    (h : Reaches step (start now b ct it) w) (hit : 0 < it) :
    ∃ v, ReachesIn step Quiet w v ∧ v.session.pending = [] := by
  obtain ⟨v, hv, hd⟩ := exists_down h hit
  obtain ⟨u, hu, hend⟩ := exists_drain (sound_of_reaches (h.trans hv.toReaches)).tidy hd
  exact ⟨u, hv.trans hu, hend⟩

/-- A session whose backend never answers. -/
theorem exists_end_started : ∃ v, ReachesIn step Quiet (start 0 0 1000 5000) v ∧
    v.session.pending = [] :=
  exists_end .refl (by decide : (0 : UInt32) < 5000)

end World

end BitBridge.Proxy
