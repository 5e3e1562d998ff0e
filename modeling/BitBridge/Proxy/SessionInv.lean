import BitBridge.Proxy.Session

/-!
# What holds of every session

* `of_step_complete`, `of_step_recv`, `of_step_send`, `of_step_dispatch`: what one
  turn can do.  Every invariant below is derived from them.
* `SameObject`: no turn rebinds a session or changes its timeouts.
* `mem_handle`: what a handler can leave pending.
* `count_step_le`: **a loop has one operation at a time.**  The connect and a
  loop's read and write are its operations (`Op.inLoop`); a handler of one of
  them starts at most one of them, and no other handler starts any.
* `Tidy`: the sockets are open until `shutdown` has run and closed from then on,
  and once it has run no operation waits but an idle wait.
-/

namespace BitBridge.Proxy

open Proactor

namespace Op

/-- The operations of a relay loop, with the connect that starts both. -/
def inLoop (d : Dir) : Op → Bool
  | .connect => true
  | .read d' => d' = d
  | .write d' _ _ => d' = d
  | _ => false

theorem inLoop_of_isRead {d : Dir} {op : Op} (h : op.isRead d) : op.inLoop d := by
  cases op <;> simp_all [isRead, inLoop]

theorem inLoop_of_isWrite {d : Dir} {op : Op} (h : op.isWrite d) : op.inLoop d := by
  cases op <;> simp_all [isWrite, inLoop]

end Op

namespace Session

variable {s t : Session} {now : Nat}

/-! ### One turn -/

theorem of_step_complete {op : Op} {ec : ErrorCode} (h : step now s (.complete op ec) = some t) :
    ⟨op, .waiting⟩ ∈ s.pending ∧ s.mayComplete now op ec ∧
      t = { s with pending := resolve s.pending op ec 0 } := by
  rw [step, Option.ite_none_right_eq_some] at h
  exact ⟨h.1.1, h.1.2, (Option.some.inj h.2).symm⟩

theorem of_step_recv {d : Dir} {chunk : Bytes} (h : step now s (.recv d chunk) = some t) :
    ⟨.read d, .waiting⟩ ∈ s.pending ∧ 0 < chunk.length ∧ chunk.length ≤ BUFFER_SIZE ∧
      t = { s.setBuf d ((s.buf d).fill chunk) with
        pending := resolve s.pending (.read d) .success chunk.length } := by
  rw [step, Option.ite_none_right_eq_some] at h
  exact ⟨h.1.1, h.1.2.1, h.1.2.2, (Option.some.inj h.2).symm⟩

theorem of_step_send {d : Dir} {bytes k : Nat} {sent : Bytes}
    (h : step now s (.send d bytes sent k) = some t) :
    ⟨.write d bytes sent, .waiting⟩ ∈ s.pending ∧ 0 < k ∧ sent.length + k ≤ bytes ∧
      t = { s with pending := s.pending.erase ⟨.write d bytes sent, .waiting⟩ ++
        [⟨.write d bytes (sent ++ (((s.buf d).take bytes).drop sent.length).take k),
          .waiting⟩] } := by
  rw [step, Option.ite_none_right_eq_some] at h
  exact ⟨h.1.1, h.1.2.1, h.1.2.2, (Option.some.inj h.2).symm⟩

theorem of_step_dispatch {op : Op} {ec : ErrorCode} {n : Nat}
    (h : step now s (.dispatch op ec n) = some t) :
    ⟨op, .queued ec n⟩ ∈ s.pending ∧
      t = (s.dequeue op ec n).handle now op ec n := by
  rw [step, Option.ite_none_right_eq_some] at h
  exact ⟨h.1, (Option.some.inj h.2).symm⟩

/-! ### The object -/

/-- The fields no handler writes. -/
structure SameObject (s t : Session) : Prop where
  backend : t.backend = s.backend
  connectTimeoutMs : t.connectTimeoutMs = s.connectTimeoutMs
  idleTimeoutMs : t.idleTimeoutMs = s.idleTimeoutMs
  clientBuf : t.clientBuf = s.clientBuf
  backendBuf : t.backendBuf = s.backendBuf

theorem SameObject.buf (h : SameObject s t) (d : Dir) : t.buf d = s.buf d := by
  cases d
  · exact h.clientBuf
  · exact h.backendBuf

theorem SameObject.trans {u : Session} (h : SameObject s t) (g : SameObject t u) :
    SameObject s u where
  backend := g.backend.trans h.backend
  connectTimeoutMs := g.connectTimeoutMs.trans h.connectTimeoutMs
  idleTimeoutMs := g.idleTimeoutMs.trans h.idleTimeoutMs
  clientBuf := g.clientBuf.trans h.clientBuf
  backendBuf := g.backendBuf.trans h.backendBuf

theorem sameObject_shutdown (s : Session) : SameObject s s.shutdown := by
  unfold shutdown
  split <;> exact ⟨rfl, rfl, rfl, rfl, rfl⟩

theorem sameObject_readFromClient (s : Session) (now : Nat) :
    SameObject s (s.readFromClient now) := by
  unfold readFromClient
  split <;> exact ⟨rfl, rfl, rfl, rfl, rfl⟩

theorem sameObject_readNext (s : Session) (now : Nat) (d : Dir) :
    SameObject s (s.readNext now d) := by
  cases d
  · exact sameObject_readFromClient s now
  · exact ⟨rfl, rfl, rfl, rfl, rfl⟩

theorem sameObject_onConnected (s : Session) (now : Nat) (ec : ErrorCode) :
    SameObject s (s.onConnected now ec) := by
  have hc : SameObject s s.cancelConnectTimer := ⟨rfl, rfl, rfl, rfl, rfl⟩
  unfold onConnected
  split
  · exact hc.trans (sameObject_shutdown _)
  · exact (hc.trans (sameObject_readFromClient _ now)).trans ⟨rfl, rfl, rfl, rfl, rfl⟩

theorem sameObject_handle (s : Session) (now : Nat) (op : Op) (ec : ErrorCode) (n : Nat) :
    SameObject s (s.handle now op ec n) := by
  cases op with
  | connect => exact sameObject_onConnected s now ec
  | connectWait | idleWait =>
    rw [handle]
    split
    · exact ⟨rfl, rfl, rfl, rfl, rfl⟩
    · exact sameObject_shutdown s
  | read d =>
    rw [handle]
    split
    · exact sameObject_shutdown s
    · exact ⟨rfl, rfl, rfl, rfl, rfl⟩
  | write d bytes sent =>
    rw [handle]
    split
    · exact sameObject_shutdown s
    · exact sameObject_readNext s now d

theorem step_binding {e : Event} (h : step now s e = some t) :
    t.backend = s.backend ∧ t.idleTimeoutMs = s.idleTimeoutMs := by
  cases e with
  | complete op ec => obtain ⟨-, -, rfl⟩ := of_step_complete h; exact ⟨rfl, rfl⟩
  | recv d chunk => obtain ⟨-, -, -, rfl⟩ := of_step_recv h; cases d <;> exact ⟨rfl, rfl⟩
  | send d bytes sent k => obtain ⟨-, -, -, rfl⟩ := of_step_send h; exact ⟨rfl, rfl⟩
  | dispatch op ec n =>
    obtain ⟨-, rfl⟩ := of_step_dispatch h
    have := sameObject_handle (s.dequeue op ec n) now op ec n
    exact ⟨this.backend, this.idleTimeoutMs⟩

/-! ### What a handler leaves pending -/

theorem continues_shutdown {p : Pending Op} (h : p ∈ s.shutdown.pending) :
    Continues s.pending p := by
  rw [shutdown_pending] at h
  split at h
  · exact continues_of_mem h
  · exact continues_of_mem_cancel h

/-- An operation that was just started has not succeeded yet. -/
def Fresh (p : Pending Op) : Prop := ∀ n, p.status ≠ .queued .success n

theorem mem_postOn {side : Side} {op : Op} {p : Pending Op} (h : p ∈ (s.postOn side op).pending) :
    p ∈ s.pending ∨ p.op = op ∧ Fresh p := by
  rw [postOn_pending] at h
  rcases List.mem_append.mp h with h | h
  · exact Or.inl h
  · rw [List.mem_singleton] at h
    subst h
    refine Or.inr ⟨rfl, ?_⟩
    intro n hn
    dsimp only at hn
    split at hn <;> cases hn

theorem mem_readNext {d : Dir} {p : Pending Op} (h : p ∈ (s.readNext now d).pending) :
    Continues s.pending p ∨ (p.op = .idleWait ∨ p.op = .read d) ∧ Fresh p := by
  have hpost : ∀ u : Session, p ∈ (u.asyncReadSome d).pending →
      p ∈ u.pending ∨ (p.op = .idleWait ∨ p.op = .read d) ∧ Fresh p :=
    fun u hu => (mem_postOn hu).imp_right fun hp => ⟨Or.inr hp.1, hp.2⟩
  cases d with
  | down => exact (hpost s h).imp_left continues_of_mem
  | up =>
    rw [readNext, readFromClient] at h
    split at h
    · refine (hpost _ h).elim ?_ Or.inr
      intro h
      rw [armIdleTimer_pending] at h
      rcases List.mem_append.mp h with h | h
      · exact Or.inl (continues_of_mem_cancel h)
      · obtain rfl := List.mem_singleton.mp h
        exact Or.inr ⟨Or.inl rfl, fun n hn => nomatch hn⟩
    · exact (hpost s h).imp_left continues_of_mem

/-- **What a handler leaves pending**: what was pending, a new idle wait, the
next read of a loop that its write or the connect continues, or the write of
what a read brought.  A handler that is told of an error starts nothing. -/
theorem mem_handle {op : Op} {ec : ErrorCode} {n : Nat} {p : Pending Op}
    (h : p ∈ (s.handle now op ec n).pending) :
    Continues s.pending p ∨ ec.failed = false ∧ Fresh p ∧
      (p.op = .idleWait ∨ (∃ d, (op = .connect ∨ op.isWrite d) ∧ p.op = .read d) ∨
        ∃ d, op = .read d ∧ p.op = .write d n []) := by
  have hnext : ∀ (u : Session) (d : Dir), op = .connect ∨ op.isWrite d →
      p ∈ (u.readNext now d).pending → Continues u.pending p ∨ Fresh p ∧
        (p.op = .idleWait ∨ (∃ d, (op = .connect ∨ op.isWrite d) ∧ p.op = .read d) ∨
          ∃ d, op = .read d ∧ p.op = .write d n []) :=
    fun u d hop hu => (mem_readNext hu).imp_right fun hp =>
      ⟨hp.2, hp.1.imp_right fun hr => Or.inl ⟨d, hop, hr⟩⟩
  cases hec : ec.failed with
  | true =>
    refine Or.inl ?_
    cases op with
    | connectWait | idleWait =>
      rw [handle, if_pos hec] at h
      exact continues_of_mem h
    | connect =>
      rw [handle, onConnected, if_pos hec] at h
      exact (continues_shutdown h).trans fun q hq => continues_of_mem_cancel hq
    | read d =>
      rw [handle, if_pos hec] at h
      exact continues_shutdown h
    | write d bytes sent =>
      rw [handle, if_pos hec] at h
      exact continues_shutdown h
  | false =>
    have hne : ¬ ec.failed = true := by simp [hec]
    cases op with
    | connectWait | idleWait =>
      rw [handle, if_neg hne] at h
      exact Or.inl (continues_shutdown h)
    | connect =>
      rw [handle, onConnected, if_neg hne] at h
      have hc : ∀ q ∈ s.cancelConnectTimer.pending, Continues s.pending q :=
        fun q hq => continues_of_mem_cancel hq
      refine (mem_postOn h).elim ?_ fun hp => Or.inr
        ⟨rfl, hp.2, Or.inr (Or.inl ⟨.down, Or.inl rfl, hp.1⟩)⟩
      intro h
      exact (hnext s.cancelConnectTimer .up (Or.inl rfl) h).imp (fun hp => hp.trans hc)
        fun hp => ⟨rfl, hp⟩
    | read d =>
      rw [handle, if_neg hne] at h
      exact (mem_postOn h).imp continues_of_mem fun hp =>
        ⟨rfl, hp.2, Or.inr (Or.inr ⟨d, rfl, hp.1⟩)⟩
    | write d bytes sent =>
      rw [handle, if_neg hne] at h
      exact (hnext s d (Or.inr (by simp [Op.isWrite])) h).imp_right fun hp => ⟨rfl, hp⟩

theorem mem_handle_of_queued {op op' : Op} {ec ec' : ErrorCode} {n m : Nat}
    (h : ⟨op', .queued ec' m⟩ ∈ s.pending) :
    ⟨op', .queued ec' m⟩ ∈ (s.handle now op ec n).pending := by
  have hshut : ∀ s : Session, ⟨op', .queued ec' m⟩ ∈ s.pending →
      ⟨op', .queued ec' m⟩ ∈ s.shutdown.pending := by
    intro s h
    rw [shutdown_pending]
    split
    · exact h
    · exact mem_cancel_of_queued h
  have hnext : ∀ (s : Session) (d : Dir), ⟨op', .queued ec' m⟩ ∈ s.pending →
      ⟨op', .queued ec' m⟩ ∈ (s.readNext now d).pending := by
    intro s d h
    cases d with
    | down => exact List.mem_append_left _ h
    | up =>
      rw [readNext, readFromClient]
      split
      · exact List.mem_append_left _ (List.mem_append_left _ (mem_cancel_of_queued h))
      · exact List.mem_append_left _ h
  cases op with
  | connectWait | idleWait =>
    rw [handle]
    split
    · exact h
    · exact hshut s h
  | connect =>
    have hc := mem_cancel_of_queued (f := Op.isConnectWait) h
    rw [handle, onConnected]
    split
    · exact hshut _ hc
    · exact hnext _ .down (hnext s.cancelConnectTimer .up hc)
  | read d =>
    rw [handle]
    split
    · exact hshut s h
    · exact List.mem_append_left _ h
  | write d bytes sent =>
    rw [handle]
    split
    · exact hshut s h
    · exact hnext s d h

theorem le_count_handle (s : Session) {f : Op → Bool} (now : Nat) (hf : f .idleWait = false)
    (op : Op) (ec : ErrorCode) (n : Nat) :
    count f s.pending ≤ count f (s.handle now op ec n).pending := by
  cases op with
  | connectWait | idleWait =>
    rw [handle]
    split
    · exact le_rfl
    · exact (count_shutdown s f).ge
  | connect =>
    rw [handle, onConnected]
    split
    · rw [count_shutdown, cancelConnectTimer_pending, count_cancel]
    · rw [count_readFromBackend, count_readFromClient _ _ _ hf, cancelConnectTimer_pending,
        count_cancel]
      omega
  | read d =>
    rw [handle]
    split
    · exact (count_shutdown s f).ge
    · rw [asyncWrite, count_postOn]
      exact Nat.le_add_right _ _
  | write d bytes sent =>
    rw [handle]
    split
    · exact (count_shutdown s f).ge
    · rw [count_readNext _ _ _ hf]
      exact Nat.le_add_right _ _

/-! ### One operation a loop -/

theorem count_handle_le (s : Session) (now : Nat) (op : Op) (ec : ErrorCode) (n : Nat) (d : Dir) :
    count (Op.inLoop d) (s.handle now op ec n).pending ≤
      count (Op.inLoop d) s.pending + if op.inLoop d then 1 else 0 := by
  cases op with
  | connectWait | idleWait =>
    rw [handle]
    split
    · exact Nat.le_add_right _ _
    · rw [count_shutdown]; exact Nat.le_add_right _ _
  | connect =>
    rw [handle, onConnected]
    split
    · simp
    · rw [count_readFromBackend, count_readFromClient _ _ _ rfl, cancelConnectTimer_pending,
        count_cancel]
      cases d <;> simp [Op.inLoop]
  | read d' =>
    rw [handle]
    split
    · rw [count_shutdown]; exact Nat.le_add_right _ _
    · exact (count_postOn _ _ _ _).le
  | write d' bytes sent =>
    rw [handle]
    split
    · rw [count_shutdown]; exact Nat.le_add_right _ _
    · exact (count_readNext _ _ _ rfl _).le

/-- **No turn adds an operation to a loop.** -/
theorem count_step_le {e : Event} (h : step now s e = some t) (d : Dir) :
    count (Op.inLoop d) t.pending ≤ count (Op.inLoop d) s.pending := by
  cases e with
  | complete op ec =>
    obtain ⟨hm, -, rfl⟩ := of_step_complete h
    exact (count_resolve hm).le
  | recv d' chunk =>
    obtain ⟨hm, -, -, rfl⟩ := of_step_recv h
    exact (count_resolve hm).le
  | send d' bytes sent k =>
    obtain ⟨hm, -, -, rfl⟩ := of_step_send h
    have := count_erase (f := Op.inLoop d) hm
    rw [count_append, count_cons, count_nil, Nat.zero_add]
    exact this.le
  | dispatch op ec n =>
    obtain ⟨hm, rfl⟩ := of_step_dispatch h
    have hle := count_handle_le (s.dequeue op ec n) now op ec n d
    have hc := count_consume (f := Op.inLoop d) hm
    exact hle.trans hc.le

/-! ### Sockets and waits -/

/-- The sockets close when `shutdown` runs, and from then on nothing waits but
an idle wait. -/
structure Tidy (s : Session) : Prop where
  sockets : ∀ side, s.isOpen side = !s.shuttingDown
  settled : s.shuttingDown → ∀ op, ⟨op, .waiting⟩ ∈ s.pending → op = .idleWait

theorem Tidy.of_pending (h : s.Tidy) {l : List (Pending Op)}
    (hl : ∀ op, ⟨op, .waiting⟩ ∈ l → ⟨op, .waiting⟩ ∈ s.pending) :
    { s with pending := l }.Tidy where
  sockets := fun side => by cases side; exacts [h.sockets .client, h.sockets .backend]
  settled := fun hd op hm => h.settled hd op (hl op hm)

theorem Tidy.dequeue (h : s.Tidy) (op : Op) (ec : ErrorCode) (n : Nat) :
    (s.dequeue op ec n).Tidy := h.of_pending fun _ => mem_of_mem_consume

theorem Tidy.cancelConnectTimer (h : s.Tidy) : s.cancelConnectTimer.Tidy :=
  h.of_pending fun _ => mem_of_waiting_cancel

theorem Tidy.shutdown (h : s.Tidy) : s.shutdown.Tidy := by
  by_cases hd : s.shuttingDown
  · rwa [Session.shutdown, if_pos hd]
  · refine ⟨?_, ?_⟩
    · intro side
      rw [Session.shutdown, if_neg hd]
      cases side <;> rfl
    · intro _ op hm
      rw [shutdown_pending, if_neg hd] at hm
      exact absurd rfl (not_waiting_of_mem_cancel hm rfl)

theorem Tidy.postOn (h : s.Tidy) (side : Side) (op : Op) : (s.postOn side op).Tidy where
  sockets := fun side' => by cases side'; exacts [h.sockets .client, h.sockets .backend]
  settled := fun hd op' hm => by
    rw [postOn_pending, h.sockets side] at hm
    rcases List.mem_append.mp hm with hm | hm
    · exact h.settled hd op' hm
    · have hd' : s.shuttingDown = true := hd
      rw [hd', List.mem_singleton] at hm
      exact Status.noConfusion (congrArg Pending.status hm)

theorem Tidy.armIdleTimer (h : s.Tidy) (now : Nat) : (s.armIdleTimer now).Tidy where
  sockets := fun side => by cases side; exacts [h.sockets .client, h.sockets .backend]
  settled := fun hd op hm => by
    rw [armIdleTimer_pending] at hm
    rcases List.mem_append.mp hm with hm | hm
    · exact h.settled hd op (mem_of_waiting_cancel hm)
    · exact congrArg Pending.op (List.mem_singleton.mp hm)

theorem Tidy.readNext (h : s.Tidy) (now : Nat) (d : Dir) : (s.readNext now d).Tidy := by
  cases d with
  | down => exact h.postOn _ _
  | up =>
    rw [Session.readNext, readFromClient]
    split
    · exact (h.armIdleTimer now).postOn _ _
    · exact h.postOn _ _

theorem Tidy.handle (h : s.Tidy) (now : Nat) (op : Op) (ec : ErrorCode) (n : Nat) :
    (s.handle now op ec n).Tidy := by
  cases op with
  | connectWait | idleWait =>
    rw [Session.handle]
    split
    · exact h
    · exact h.shutdown
  | connect =>
    rw [Session.handle, onConnected]
    split
    · exact h.cancelConnectTimer.shutdown
    · exact (h.cancelConnectTimer.readNext now .up).readNext now .down
  | read d =>
    rw [Session.handle]
    split
    · exact h.shutdown
    · exact h.postOn _ _
  | write d bytes sent =>
    rw [Session.handle]
    split
    · exact h.shutdown
    · exact h.readNext now d

theorem Tidy.step {e : Event} (hs : s.Tidy) (h : step now s e = some t) : t.Tidy := by
  cases e with
  | complete op ec =>
    obtain ⟨-, -, rfl⟩ := of_step_complete h
    refine hs.of_pending ?_
    intro op' hm
    rcases mem_resolve hm with hm | hm
    · exact hm
    · exact Status.noConfusion (congrArg Pending.status hm)
  | recv d chunk =>
    obtain ⟨-, -, -, rfl⟩ := of_step_recv h
    have hb : (s.setBuf d ((s.buf d).fill chunk)).Tidy := by
      refine ⟨?_, ?_⟩
      · intro side
        cases d <;> cases side <;> first | exact hs.sockets .client | exact hs.sockets .backend
      · intro hd op hm
        cases d <;> exact hs.settled hd op hm
    refine hb.of_pending ?_
    intro op' hr
    rcases mem_resolve hr with hm | hm
    · clear hr
      cases d <;> exact hm
    · exact Status.noConfusion (congrArg Pending.status hm)
  | send d bytes sent k =>
    obtain ⟨hm, -, -, rfl⟩ := of_step_send h
    refine ⟨fun side => by cases side; exacts [hs.sockets .client, hs.sockets .backend], ?_⟩
    intro hd op' hm'
    rcases List.mem_append.mp hm' with hm' | hm'
    · exact hs.settled hd op' (List.mem_of_mem_erase hm')
    · exact absurd (hs.settled hd _ hm) Op.noConfusion
  | dispatch op ec n =>
    obtain ⟨-, rfl⟩ := of_step_dispatch h
    exact (hs.dequeue op ec n).handle now op ec n

/-! ### A started session -/

def started (now backend : Nat) (connectTimeoutMs idleTimeoutMs : UInt32) : Session :=
  ((new backend connectTimeoutMs idleTimeoutMs).armConnectTimer now).asyncConnect

theorem start_new (isIpLiteral : Bytes → Bool) (now backend : Nat) (ct it : UInt32) (ip : Bytes) :
    (new backend ct it).start isIpLiteral now ip =
      if isIpLiteral ip then some (started now backend ct it) else none := rfl

@[simp] theorem started_pending (now b : Nat) (ct it : UInt32) : (started now b ct it).pending =
    [⟨.connectWait, .waiting⟩, ⟨.connect, .waiting⟩] := rfl

theorem started_ne_nil (now b : Nat) (ct it : UInt32) : (started now b ct it).pending ≠ [] := by
  rw [started_pending]
  exact List.cons_ne_nil _ _

theorem tidy_started (now b : Nat) (ct it : UInt32) : (started now b ct it).Tidy where
  sockets := fun side => by cases side <;> rfl
  settled := fun h => absurd h Bool.noConfusion

theorem count_started (now b : Nat) (ct it : UInt32) (d : Dir) :
    count (Op.inLoop d) (started now b ct it).pending = 1 := rfl

end Session

end BitBridge.Proxy
