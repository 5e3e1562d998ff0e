import BitBridge.Proxy.Relay
import BitBridge.Proxy.ShutdownFinal

/-!
# The end of one direction

A peer that has sent all it has to send half-closes its connection: the read of
its socket completes with an end of stream, and it may still wait for what the
other peer sends.  A session treats an end of stream as any other error; the
handler that is told of it calls `Shutdown`, which closes both sockets.

`Duplex` is a session with what its sockets took: `taken d` are the bytes of the
direction `d` that the socket of its destination has accepted.  `script d` is
what the peer of its source sends before its end of stream.

* `queued_of_handle`: what a handler that does not shut down leaves queued.
* `arrived_eq`: **until the sockets close, what arrived was taken or is held.**
* `half_close`: what the end of a direction leaves of the other.
-/

namespace BitBridge.Proxy

open Proactor Steps

def Dir.other : Dir → Dir
  | .up => .down
  | .down => .up

namespace Session

variable {s : Session} {now : Nat} {op op' : Op} {ec ec' : ErrorCode} {n m : Nat}

/-- What a pending operation holds of the direction `d`: the bytes that a read
has left in the buffer for its handler, or those that a write has still to send. -/
def holds (s : Session) (d : Dir) : Pending Op → Bytes
  | ⟨.read d', .queued .success n⟩ => if d' = d then (s.buf d).take n else []
  | ⟨.write d' bytes sent, _⟩ => if d' = d then ((s.buf d).take bytes).drop sent.length else []
  | _ => []

/-- The bytes of a direction that are in the session. -/
def held (s : Session) (d : Dir) : Bytes := s.pending.flatMap (s.holds d)

theorem holds_eq_nil {d : Dir} {p : Pending Op} (hw : p.op.isWrite d = false)
    (hr : ∀ n, p ≠ ⟨.read d, .queued .success n⟩) : s.holds d p = [] := by
  obtain ⟨op, st⟩ := p
  cases op with
  | read d' =>
    rcases st with _ | ⟨ec, n⟩
    · rfl
    · cases ec with
      | success => exact if_neg fun hd => hr n (by rw [hd])
      | _ => rfl
  | write d' bytes sent => exact if_neg (by simpa [Op.isWrite] using hw)
  | _ => rfl

theorem holds_of_not_inLoop {d : Dir} {p : Pending Op} (h : p.op.inLoop d = false) :
    s.holds d p = [] := by
  refine holds_eq_nil ?_ ?_
  · by_contra hw
    rw [Op.inLoop_of_isWrite (by simpa using hw)] at h
    cases h
  · rintro n rfl
    simp [Op.inLoop] at h

/-! ### What stays queued -/

theorem queued_of_cancel {f : Op → Bool} {l : List (Pending Op)} (hf : ∀ op, f op → op.isTimer)
    (h : ⟨op, .queued ec n⟩ ∈ cancel f l) :
    ⟨op, .queued ec n⟩ ∈ l ∨ op.isTimer ∧ ec.failed := by
  rcases mem_cancel h with ⟨hm, -⟩ | ⟨q, -, -, ho, -, hst⟩
  · exact Or.inl hm
  · cases hst
    exact Or.inr ⟨hf op ho, rfl⟩

theorem queued_of_postOn {side : Side} (ho : s.isOpen side = true)
    (h : ⟨op', .queued ec n⟩ ∈ (s.postOn side op).pending) : ⟨op', .queued ec n⟩ ∈ s.pending := by
  rw [postOn_pending, ho] at h
  rcases List.mem_append.mp h with h | h
  · exact h
  · cases List.mem_singleton.mp h

theorem Tidy.isOpen (h : s.Tidy) (h0 : s.shuttingDown = false) (side : Side) :
    s.isOpen side = true := by
  rw [h.sockets, h0]
  rfl

theorem queued_of_readNext {d : Dir} (hs : s.Tidy) (h0 : s.shuttingDown = false)
    (h : ⟨op, .queued ec n⟩ ∈ (s.readNext now d).pending) :
    ⟨op, .queued ec n⟩ ∈ s.pending ∨ op.isTimer ∧ ec.failed := by
  cases d with
  | down => exact Or.inl (queued_of_postOn (hs.isOpen h0 _) h)
  | up =>
    rw [readNext, readFromClient] at h
    split at h
    · have h := queued_of_postOn ((hs.armIdleTimer now).isOpen h0 _) h
      rw [armIdleTimer_pending] at h
      rcases List.mem_append.mp h with h | h
      · exact queued_of_cancel (fun _ => Op.isTimer_of_isIdleWait) h
      · cases List.mem_singleton.mp h
    · exact Or.inl (queued_of_postOn (hs.isOpen h0 _) h)

/-- A handler that does not shut the session down leaves queued what was queued,
and the timer waits that it cancels. -/
theorem queued_of_handle (hs : s.Tidy) (h0 : (s.handle now op ec n).shuttingDown = false)
    (h : ⟨op', .queued ec' m⟩ ∈ (s.handle now op ec n).pending) :
    ⟨op', .queued ec' m⟩ ∈ s.pending ∨ op'.isTimer ∧ ec'.failed := by
  have hshut : ∀ u : Session, u.shutdown.shuttingDown ≠ false :=
    fun u hu => by rw [shuttingDown_shutdown] at hu; cases hu
  have hd : s.shuttingDown = false := by
    rcases shuttingDown_handle s now op ec n with h1 | h1
    · rw [h1] at h0
      cases h0
    · rw [← h1, h0]
  cases op with
  | connectWait | idleWait =>
    rw [handle] at h h0
    split at h
    · exact Or.inl h
    · next hec => rw [if_neg hec] at h0; exact absurd h0 (hshut s)
  | connect =>
    rw [handle, onConnected] at h h0
    split at h
    · next hec => rw [if_pos hec] at h0; exact absurd h0 (hshut _)
    · have ht := hs.cancelConnectTimer
      have hd' := (shuttingDown_readNext s.cancelConnectTimer now .up).trans hd
      have h : ⟨op', .queued ec' m⟩ ∈
          ((s.cancelConnectTimer.readNext now .up).readNext now .down).pending := h
      rcases queued_of_readNext (ht.readNext now .up) hd' h with h | h
      · rcases queued_of_readNext ht hd h with h | h
        · exact queued_of_cancel (fun _ => Op.isTimer_of_isConnectWait) h
        · exact Or.inr h
      · exact Or.inr h
  | read d =>
    rw [handle] at h h0
    split at h
    · next hec => rw [if_pos hec] at h0; exact absurd h0 (hshut s)
    · exact Or.inl (queued_of_postOn (hs.isOpen hd _) h)
  | write d bytes sent =>
    rw [handle] at h h0
    split at h
    · next hec => rw [if_pos hec] at h0; exact absurd h0 (hshut s)
    · exact queued_of_readNext hs hd h

end Session

theorem Trace.written_dispatch (tr : Trace) (now : Nat) (s : Session) {op : Op} (ec : ErrorCode)
    (n : Nat) {d : Dir} (h : op.isWrite d = false) :
    ((tr.record now s (.dispatch op ec n)).stream d).delivered = (tr.stream d).delivered ∧
      ((tr.record now s (.dispatch op ec n)).stream d).lost = (tr.stream d).lost := by
  cases op with
  | connectWait | idleWait | connect => exact ⟨rfl, rfl⟩
  | read d' =>
    rw [record]
    split
    · exact ⟨rfl, rfl⟩
    · rw [update]
      dsimp only
      split <;> exact ⟨rfl, rfl⟩
  | write d' bytes sent =>
    have hd : d ≠ d' := by
      rintro rfl
      simp [Op.isWrite] at h
    rw [record]
    split <;> rw [update_other _ _ hd] <;> exact ⟨rfl, rfl⟩

/-! ### What the sockets take -/

/-- A session with the bytes of each direction that the socket of its destination
took. -/
structure Duplex where
  world : World
  taken : Dir → Bytes

namespace Duplex

/-- What a turn adds to the bytes taken. -/
def takes (w : World) (d : Dir) : World.Event → Bytes
  | .session (.send d' bytes sent k) =>
    if d' = d then (((w.session.buf d').take bytes).drop sent.length).take k else []
  | _ => []

def step (x : Duplex) (e : World.Event) : Option Duplex :=
  (x.world.step e).map fun v => ⟨v, fun d => x.taken d ++ takes x.world d e⟩

def start (now backend : Nat) (connectTimeoutMs idleTimeoutMs : UInt32) : Duplex :=
  ⟨.start now backend connectTimeoutMs idleTimeoutMs, fun _ => []⟩

variable {x y : Duplex} {d : Dir} {e : World.Event}

def after (x : Duplex) (s : Session) (e : Session.Event) : Duplex where
  world := { x.world with
    session := s, trace := x.world.trace.record x.world.now x.world.session e }
  taken := fun d => x.taken d ++ takes x.world d (.session e)

theorem of_step_tick (h : x.step .tick = some y) :
    y = ⟨{ x.world with now := x.world.now + 1 }, x.taken⟩ := by
  obtain ⟨v, hv, rfl⟩ := Option.map_eq_some_iff.mp h
  obtain rfl := Option.some.inj hv
  simp [takes]

theorem of_step_session {e : Session.Event} (h : x.step (.session e) = some y) :
    ∃ s, x.world.session.step x.world.now e = some s ∧ y = x.after s e := by
  obtain ⟨v, hv, rfl⟩ := Option.map_eq_some_iff.mp h
  obtain ⟨s, hs, rfl⟩ := World.of_step_session hv
  exact ⟨s, hs, rfl⟩

theorem world_of_step (h : x.step e = some y) : x.world.step e = some y.world := by
  obtain ⟨v, hv, rfl⟩ := Option.map_eq_some_iff.mp h
  exact hv

theorem shuttingDown_of_step (h : x.step e = some y) (hd : x.world.session.shuttingDown = true) :
    y.world.session.shuttingDown = true := by
  cases e with
  | tick =>
    obtain rfl := of_step_tick h
    exact hd
  | session e =>
    obtain ⟨s, hs, rfl⟩ := of_step_session h
    exact Session.shuttingDown_step hs hd

theorem world_of_reaches (h : Reaches step x y) : Reaches World.step x.world y.world :=
  h.invariant (I := fun y => Reaches World.step x.world y.world) .refl
    fun hi _ hs => hi.tail trivial (world_of_step hs)

/-- No write of the direction has failed: its socket took what the completed
writes delivered, and what the pending one has sent. -/
structure Intact (d : Dir) (x : Duplex) : Prop where
  lost : (x.world.trace.stream d).lost = []
  taken : count (Op.isWrite d) x.world.session.pending = 0 →
    x.taken d = (x.world.trace.stream d).delivered
  writing : ∀ bytes sent st, ⟨.write d bytes sent, st⟩ ∈ x.world.session.pending →
    x.taken d = (x.world.trace.stream d).delivered ++ sent

namespace Intact

theorem of_writes (h : Intact d x)
    (hs : (y.world.trace.stream d).delivered = (x.world.trace.stream d).delivered ∧
      (y.world.trace.stream d).lost = (x.world.trace.stream d).lost)
    (ht : y.taken d = x.taken d)
    (hw : ∀ bytes sent st, ⟨.write d bytes sent, st⟩ ∈ y.world.session.pending →
      ∃ st', ⟨.write d bytes sent, st'⟩ ∈ x.world.session.pending)
    (hc : count (Op.isWrite d) x.world.session.pending ≤
      count (Op.isWrite d) y.world.session.pending) : Intact d y where
  lost := hs.2.trans h.lost
  taken := fun h0 => by rw [ht, hs.1, h.taken (by omega)]
  writing := fun bytes sent st hm => by
    obtain ⟨st', hm'⟩ := hw bytes sent st hm
    rw [ht, hs.1, h.writing bytes sent st' hm']

theorem complete (h : Intact d x) {op : Op} {ec : ErrorCode} {s : Session}
    (hs : x.world.session.step x.world.now (.complete op ec) = some s) :
    Intact d (x.after s (.complete op ec)) := by
  obtain ⟨hm, -, rfl⟩ := Session.of_step_complete hs
  have htr : (x.world.trace.record x.world.now x.world.session (.complete op ec)).stream d =
      x.world.trace.stream d := by cases op <;> cases ec <;> rfl
  refine h.of_writes ⟨congrArg Stream.delivered htr, congrArg Stream.lost htr⟩
    (List.append_nil _) ?_ (count_resolve hm).ge
  intro bytes sent st hst
  rcases mem_resolve hst with hst | hst
  · exact ⟨st, hst⟩
  · cases hst
    exact ⟨_, hm⟩

theorem recv (h : Intact d x) {d' : Dir} {chunk : Bytes} {s : Session}
    (hs : x.world.session.step x.world.now (.recv d' chunk) = some s) :
    Intact d (x.after s (.recv d' chunk)) := by
  obtain ⟨hm, -, -, rfl⟩ := Session.of_step_recv hs
  have htr := x.world.trace.stream_recv x.world.now x.world.session d' chunk d
  refine h.of_writes ⟨by rw [after, htr], by rw [after, htr]⟩ (List.append_nil _) ?_
    (count_resolve hm).ge
  intro bytes sent st hst
  rcases mem_resolve hst with hst | hst
  · exact ⟨st, hst⟩
  · cases hst

theorem send (h : Intact d x) (hx : x.world.Sound) {d' : Dir} {bytes k : Nat} {sent : Bytes}
    {s : Session} (hs : x.world.session.step x.world.now (.send d' bytes sent k) = some s) :
    Intact d (x.after s (.send d' bytes sent k)) := by
  obtain ⟨hm, -, -, rfl⟩ := Session.of_step_send hs
  have herase := count_erase (f := Op.isWrite d) hm
  by_cases hd : d' = d
  · subst hd
    have hwrite : ∀ bytes sent, (Op.write d' bytes sent).isWrite d' := by simp [Op.isWrite]
    have hle : count (Op.isWrite d') x.world.session.pending ≤ 1 :=
      (count_mono (fun _ => Op.inLoop_of_isWrite) _).trans (hx.loop d')
    rw [if_pos (hwrite _ _)] at herase
    refine ⟨h.lost, fun h0 => ?_, ?_⟩
    · rw [after, count_append, count_cons, if_pos (hwrite _ _)] at h0
      omega
    · intro bytes' sent' st hst
      rcases List.mem_append.mp hst with hst | hst
      · -- the direction has no other write than the one that was replaced
        have := count_pos hst (hwrite bytes' sent')
        omega
      · cases List.mem_singleton.mp hst
        change x.taken d' ++ takes _ _ _ = _
        rw [takes, if_pos rfl, h.writing bytes sent .waiting hm, List.append_assoc]
        rfl
  · have hother : (Op.write d' bytes sent).isWrite d = false := by simpa [Op.isWrite] using hd
    refine h.of_writes ⟨rfl, rfl⟩ ?_ ?_ ?_
    · change x.taken d ++ takes _ _ _ = _
      rw [takes, if_neg hd, List.append_nil]
    · intro bytes' sent' st hst
      rcases List.mem_append.mp hst with hst | hst
      · exact ⟨st, List.mem_of_mem_erase hst⟩
      · cases List.mem_singleton.mp hst
        exact absurd rfl hd
    · rw [hother, if_neg Bool.false_ne_true, Nat.add_zero] at herase
      rw [after, count_append]
      omega

/-- A handler that does not shut the session down is told of no failed write. -/
theorem dispatch (h : Intact d x) (hx : x.world.Sound) {op : Op} {ec : ErrorCode} {n : Nat}
    {s : Session} (hs : x.world.session.step x.world.now (.dispatch op ec n) = some s)
    (h0 : s.shuttingDown = false) : Intact d (x.after s (.dispatch op ec n)) := by
  obtain ⟨hm, hst⟩ := Session.of_step_dispatch hs
  have htaken : (x.after s (.dispatch op ec n)).taken d = x.taken d := List.append_nil _
  cases hop : op.isWrite d with
  | false =>
    obtain ⟨hdel, hlost⟩ := x.world.trace.written_dispatch x.world.now x.world.session ec n hop
    have hc : count (Op.isWrite d) x.world.session.pending ≤ count (Op.isWrite d) s.pending := by
      have hc := count_consume (f := Op.isWrite d) hm
      rw [hop, if_neg Bool.false_ne_true, Nat.add_zero] at hc
      rw [hst]
      exact hc.symm.le.trans (Session.le_count_handle (x.world.session.dequeue op ec n) _ rfl _ _ _)
    refine ⟨hlost.trans h.lost, fun hz => ?_, ?_⟩
    · have hz' : count (Op.isWrite d) s.pending = 0 := hz
      exact htaken.trans ((h.taken (by omega)).trans hdel.symm)
    · intro bytes sent st hw
      rw [htaken]
      refine Eq.trans ?_ (congrArg (· ++ sent) hdel.symm)
      have hw' : ⟨.write d bytes sent, st⟩ ∈ s.pending := hw
      rw [hst] at hw'
      rcases Session.mem_handle hw' with ⟨⟨o, st'⟩, hq, rfl, -⟩ |
        ⟨-, -, hi | ⟨d', -, hr⟩ | ⟨d', rfl, hr⟩⟩
      · exact h.writing bytes sent st' (mem_of_mem_consume hq)
      · cases hi
      · cases hr
      · -- the read that brought these bytes was the loop's only operation
        cases hr
        have hle := count_add_count_le (f := Op.isRead d) (g := Op.isWrite d) (h := Op.inLoop d)
          (fun op hr => ⟨Op.inLoop_of_isRead hr, by cases op <;> first | rfl | cases hr⟩)
          (fun _ => Op.inLoop_of_isWrite) x.world.session.pending
        have hpos := count_pos (f := Op.isRead d) hm (by simp [Op.isRead])
        have hloop := hx.loop d
        rw [h.taken (by omega), List.append_nil]
  | true =>
    obtain ⟨bytes, sent, rfl⟩ : ∃ bytes sent, op = .write d bytes sent := by
      cases op with
      | write d' bytes sent => exact ⟨bytes, sent, by simpa [Op.isWrite] using hop⟩
      | _ => cases hop
    have hec : ¬ec.failed := by
      intro hec
      rw [hst, Session.handle, if_pos hec, Session.shuttingDown_shutdown] at h0
      cases h0
    have htr : (x.after s (.dispatch (.write d bytes sent) ec n)).world.trace =
        x.world.trace.update d fun t => { t with delivered := t.delivered ++ sent } := if_neg hec
    have hnone : ∀ p ∈ s.pending, p.op.isWrite d = false := by
      intro p hp
      by_contra hw
      rw [Bool.not_eq_false] at hw
      obtain ⟨-, -, ⟨-, hr⟩ | ⟨hr, -⟩⟩ :=
        Matches.mem_dispatch hx (by simp [Op.inLoop]) hs hp (Op.inLoop_of_isWrite hw)
      · rw [hr] at hw
        cases hw
      · cases hr
    refine ⟨?_, fun _ => ?_, ?_⟩
    · rw [htr, Trace.update_same]
      exact h.lost
    · rw [htaken, htr, Trace.update_same]
      exact h.writing bytes sent _ hm
    · intro bytes' sent' st hw
      have := hnone _ hw
      simp [Op.isWrite] at this

end Intact

section Run

variable {now b : Nat} {ct it : UInt32}

theorem intact_of_reaches (h : Reaches step (start now b ct it) x) (d : Dir)
    (h0 : x.world.session.shuttingDown = false) : Intact d x := by
  suffices hi : x.world.Sound ∧ (x.world.session.shuttingDown = false → Intact d x) from hi.2 h0
  refine h.invariant
    (I := fun x => x.world.Sound ∧ (x.world.session.shuttingDown = false → Intact d x)) ?_ ?_
  · refine ⟨World.sound_start now b ct it, fun _ => ⟨rfl, fun _ => rfl, ?_⟩⟩
    intro bytes sent st hm
    simp [start, World.start] at hm
  · intro x y e hi _ hs
    refine ⟨hi.1.step (world_of_step hs), fun hd => ?_⟩
    cases e with
    | tick =>
      obtain rfl := of_step_tick hs
      obtain ⟨hl, ht, hw⟩ := hi.2 hd
      exact ⟨hl, ht, hw⟩
    | session e =>
      have hx : Intact d x := hi.2 <| by
        by_contra hne
        exact Bool.noConfusion (hd.symm.trans (shuttingDown_of_step hs (by simpa using hne)))
      obtain ⟨s, he, rfl⟩ := of_step_session hs
      cases e with
      | complete op ec => exact hx.complete he
      | recv d' chunk => exact hx.recv he
      | send d' bytes sent k => exact hx.send hi.1 he
      | dispatch op ec n => exact hx.dispatch hi.1 he hd

theorem held_eq {w : World} (hw : w.Sound) {p : Pending Op} (hp : p ∈ w.session.pending)
    (hd : p.op.inLoop d) : w.session.held d = w.session.holds d p :=
  flatMap_of_count_le_one (fun _ => Session.holds_of_not_inLoop) (hw.loop d) hp hd

/-- **Until the sockets close, what arrived was taken or is held.** -/
theorem arrived_eq (h : Reaches step (start now b ct it) x)
    (h0 : x.world.session.shuttingDown = false) (d : Dir) :
    (x.world.trace.stream d).arrived = x.taken d ++ x.world.session.held d := by
  have hw := world_of_reaches h
  have hx := World.sound_of_reaches hw
  have hi := intact_of_reaches h d h0
  obtain ⟨hq, ha⟩ := arrives_of_reaches hw d
  obtain ⟨c, -, hm⟩ := matches_of_reaches hw d
  have hr := received_of_reaches hw d
  rw [hi.lost, List.append_nil] at hr
  rcases Nat.eq_zero_or_pos (count (Op.isWrite d) x.world.session.pending) with hz | hpos
  · -- no write: the socket took all that the handlers were given
    have hnil : x.world.session.inFlight d = [] := List.flatMap_eq_nil_iff.mpr fun p hp =>
      x.world.session.content_eq_nil d _ (not_mem_of_count_eq_zero hz hp)
    have ht : (x.world.trace.stream d).received = x.taken d := by
      rw [hr, hnil, List.append_nil, hi.taken hz]
    by_cases hread : ∃ n, ⟨.read d, .queued .success n⟩ ∈ x.world.session.pending
    · obtain ⟨n, hn⟩ := hread
      rw [hq n hn, held_eq hx hn (by simp [Op.inLoop]), Session.holds, if_pos rfl, ht]
    · have hheld : x.world.session.held d = [] := by
        refine List.flatMap_eq_nil_iff.mpr fun p hp => ?_
        refine Session.holds_eq_nil (not_mem_of_count_eq_zero hz hp) ?_
        rintro n rfl
        exact hread ⟨n, hp⟩
      rw [ha fun n hn => hread ⟨n, hn⟩, hheld, List.append_nil, ht]
  · obtain ⟨⟨op, st⟩, hp, hop⟩ := List.countP_pos_iff.mp hpos
    cases op with
    | write d' bytes sent =>
      obtain rfl : d' = d := by simpa [Op.isWrite] using hop
      have hloop : (Op.write d' bytes sent).inLoop d' := Op.inLoop_of_isWrite hop
      have hnone : ∀ n, ⟨.read d', .queued .success n⟩ ∉ x.world.session.pending := fun n hn => by
        cases eq_of_count_le_one (hx.loop d') hp hn hloop (by simp [Op.inLoop])
      obtain ⟨hph, hok⟩ := hm.write bytes sent st hp
      rw [ha hnone, hr, hm.inFlight_eq hx, hph, held_eq hx hp hloop, Session.holds, if_pos rfl,
        hi.writing bytes sent st hp, List.append_assoc]
      congr 1
      exact ((List.take_append_drop sent.length _).symm.trans (by rw [← hok.sent_eq]) :
        (x.world.session.buf d').take bytes = _)
    | _ => cases hop

end Run

/-! ### Orderly runs -/

/-- The results that are neither an error nor a timeout; a peer's end of stream
comes after all that it sends. -/
def Expected (script : Dir → Bytes) (w : World) : Op → ErrorCode → Prop
  | .read d, ec => ec = .eof ∧ (w.trace.stream d).arrived = script d
  | .connect, ec => ec = .success
  | .write _ _ _, ec => ec = .success
  | _, _ => False

def Orderly (script : Dir → Bytes) (x : Duplex) : World.Event → Prop
  | .session (.complete op ec) => Expected script x.world op ec
  | .session (.recv d chunk) => (x.world.trace.stream d).arrived ++ chunk <+: script d
  | _ => True

instance (script : Dir → Bytes) (w : World) : ∀ op ec, Decidable (Expected script w op ec)
  | .read d, ec => inferInstanceAs (Decidable (ec = .eof ∧ (w.trace.stream d).arrived = script d))
  | .connect, ec => inferInstanceAs (Decidable (ec = .success))
  | .write _ _ _, ec => inferInstanceAs (Decidable (ec = .success))
  | .connectWait, _ => inferInstanceAs (Decidable False)
  | .idleWait, _ => inferInstanceAs (Decidable False)

instance (script : Dir → Bytes) (x : Duplex) : ∀ e, Decidable (Orderly script x e)
  | .session (.complete op ec) => inferInstanceAs (Decidable (Expected script x.world op ec))
  | .session (.recv d chunk) =>
    inferInstanceAs (Decidable ((x.world.trace.stream d).arrived ++ chunk <+: script d))
  | .session (.send _ _ _ _) => inferInstanceAs (Decidable True)
  | .session (.dispatch _ _ _) => inferInstanceAs (Decidable True)
  | .tick => inferInstanceAs (Decidable True)

/-- What the peer of the source of `d` has sent or will send, and no read has taken. -/
def unread (script : Dir → Bytes) (x : Duplex) (d : Dir) : Bytes :=
  (script d).drop (x.world.trace.stream d).arrived.length

/-- What an orderly run keeps until the session shuts down: the handlers that are
to run are told of success, of a timer that was cancelled, or of an end of
stream after the whole script. -/
structure Clean (script : Dir → Bytes) (x : Duplex) : Prop where
  arrived : ∀ d, (x.world.trace.stream d).arrived <+: script d
  queued : ∀ op ec n, ⟨op, .queued ec n⟩ ∈ x.world.session.pending →
    op.isTimer ∧ ec.failed ∨ op.isTimer = false ∧ ec = .success ∨
      ∃ d, op = .read d ∧ ec = .eof ∧ (x.world.trace.stream d).arrived = script d

namespace Clean

variable {script : Dir → Bytes}

theorem of_queued (h : Clean script x)
    (ha : ∀ d, (y.world.trace.stream d).arrived = (x.world.trace.stream d).arrived)
    (hq : ∀ op ec n, ⟨op, .queued ec n⟩ ∈ y.world.session.pending →
      ⟨op, .queued ec n⟩ ∈ x.world.session.pending ∨ op.isTimer ∧ ec.failed ∨
        Expected script x.world op ec) : Clean script y where
  arrived := fun d => by rw [ha]; exact h.arrived d
  queued := fun op ec n hm => by
    rcases hq op ec n hm with hm | hm | hm
    · refine (h.queued op ec n hm).imp_right (Or.imp_right ?_)
      rintro ⟨d, hop, hec, hd⟩
      exact ⟨d, hop, hec, (ha d).trans hd⟩
    · exact Or.inl hm
    · refine Or.inr ?_
      cases op with
      | read d => exact Or.inr ⟨d, rfl, hm.1, (ha d).trans hm.2⟩
      | connect => exact Or.inl ⟨rfl, hm⟩
      | write d bytes sent => exact Or.inl ⟨rfl, hm⟩
      | _ => exact hm.elim

theorem recv (h : Clean script x) {d : Dir} {chunk : Bytes} {s : Session}
    (hok : (x.world.trace.stream d).arrived ++ chunk <+: script d)
    (hs : x.world.session.step x.world.now (.recv d chunk) = some s) :
    Clean script (x.after s (.recv d chunk)) := by
  obtain ⟨-, hpos, -, rfl⟩ := Session.of_step_recv hs
  have htr := x.world.trace.stream_recv x.world.now x.world.session d chunk
  refine ⟨?_, ?_⟩
  · intro d'
    rw [after, htr]
    dsimp only
    split
    · next hd => rw [hd]; exact hok
    · rw [List.append_nil]; exact h.arrived d'
  · intro op ec n hm
    rcases mem_resolve hm with hm | hm
    · refine (h.queued op ec n hm).imp_right (Or.imp_right ?_)
      rintro ⟨d', rfl, rfl, hd⟩
      have hne : d' ≠ d := by
        -- after its end of stream a peer sends nothing
        rintro rfl
        have := hok.length_le
        rw [← hd, List.length_append] at this
        omega
      refine ⟨d', rfl, rfl, ?_⟩
      rw [after, htr, if_neg hne, List.append_nil]
      exact hd
    · cases hm
      exact Or.inr (Or.inl ⟨rfl, rfl⟩)

theorem step (h : Clean script x) (hx : x.world.Sound) (hok : Orderly script x e)
    (hs : x.step e = some y) (h0 : y.world.session.shuttingDown = false) : Clean script y := by
  cases e with
  | tick =>
    obtain rfl := of_step_tick hs
    exact ⟨h.arrived, h.queued⟩
  | session e =>
    obtain ⟨s, he, rfl⟩ := of_step_session hs
    cases e with
    | complete op ec =>
      obtain ⟨-, -, rfl⟩ := Session.of_step_complete he
      refine h.of_queued (fun d => by cases op <;> cases ec <;> rfl) fun op' ec' n hm => ?_
      rcases mem_resolve hm with hm | hm
      · exact Or.inl hm
      · cases hm
        exact Or.inr (Or.inr hok)
    | recv d chunk => exact h.recv hok he
    | send d bytes sent k =>
      obtain ⟨-, -, -, rfl⟩ := Session.of_step_send he
      refine h.of_queued (fun d => rfl) fun op' ec' n hm => Or.inl ?_
      rcases List.mem_append.mp hm with hm | hm
      · exact List.mem_of_mem_erase hm
      · cases List.mem_singleton.mp hm
    | dispatch op ec n =>
      refine h.of_queued (fun d => x.world.trace.arrived_dispatch _ _ _ _ _ d) ?_
      intro op' ec' m hm
      obtain ⟨-, rfl⟩ := Session.of_step_dispatch he
      rcases Session.queued_of_handle (hx.tidy.dequeue op ec n) h0 hm with hm | hm
      · exact Or.inl (mem_of_mem_consume hm)
      · exact Or.inr (Or.inl hm)

/-- The turn that shuts an orderly session down is the handler of an end of stream. -/
theorem eof_of_shutdown (h : Clean script x) (hs : x.step e = some y)
    (h0 : x.world.session.shuttingDown = false) (h1 : y.world.session.shuttingDown = true) :
    ∃ d n, e = .session (.dispatch (.read d) .eof n) ∧
      ⟨.read d, .queued .eof n⟩ ∈ x.world.session.pending ∧
      (x.world.trace.stream d).arrived = script d := by
  cases e with
  | tick =>
    obtain rfl := of_step_tick hs
    exact Bool.noConfusion (h0.symm.trans h1)
  | session e =>
    obtain ⟨s, he, rfl⟩ := of_step_session hs
    obtain ⟨op, ec, n, rfl⟩ := Session.dispatch_of_shutdown he h0 h1
    obtain ⟨hm, rfl⟩ := Session.of_step_dispatch he
    have h1 : ((x.world.session.dequeue op ec n).handle x.world.now op ec n).shuttingDown =
      true := h1
    rcases h.queued op ec n hm with ⟨ht, hec⟩ | ⟨ht, rfl⟩ | ⟨d, rfl, rfl, hd⟩
    · have hsame : (x.world.session.dequeue op ec n).handle x.world.now op ec n =
          x.world.session.dequeue op ec n := by
        cases op <;> first | exact if_pos hec | cases ht
      rw [hsame] at h1
      exact Bool.noConfusion (h0.symm.trans h1)
    · rw [Session.shuttingDown_handle_success _ _ _ ht] at h1
      exact Bool.noConfusion (h0.symm.trans h1)
    · exact ⟨d, n, rfl, hm, hd⟩

end Clean

section Run

variable {now b : Nat} {ct it : UInt32} {script : Dir → Bytes} {z : Duplex}

theorem clean_of_reaches (h : ReachesIn step (Orderly script) (start now b ct it) x)
    (h0 : x.world.session.shuttingDown = false) : Clean script x := by
  suffices hi : x.world.Sound ∧ (x.world.session.shuttingDown = false → Clean script x) from hi.2 h0
  refine h.invariant
    (I := fun x => x.world.Sound ∧ (x.world.session.shuttingDown = false → Clean script x)) ?_ ?_
  · refine ⟨World.sound_start now b ct it, fun _ => ⟨fun d => List.nil_prefix, ?_⟩⟩
    intro op ec n hm
    simp [start, World.start] at hm
  · intro x y e hi hok hs
    refine ⟨hi.1.step (world_of_step hs), fun hd => (hi.2 ?_).step hi.1 hok hs hd⟩
    by_contra hne
    exact Bool.noConfusion (hd.symm.trans (shuttingDown_of_step hs (by simpa using hne)))

theorem taken_of_reaches (h : Reaches step y z) (hy : y.world.Sound)
    (hd : y.world.session.shuttingDown = true) : z.taken = y.taken := by
  suffices hi : z.world.Sound ∧ z.world.session.shuttingDown = true ∧ z.taken = y.taken from hi.2.2
  refine h.invariant (I := fun z =>
    z.world.Sound ∧ z.world.session.shuttingDown = true ∧ z.taken = y.taken) ⟨hy, hd, rfl⟩ ?_
  intro t u e hi _ hs
  refine ⟨hi.1.step (world_of_step hs), shuttingDown_of_step hs hi.2.1, ?_⟩
  cases e with
  | tick =>
    obtain rfl := of_step_tick hs
    exact hi.2.2
  | session e =>
    obtain ⟨s, he, rfl⟩ := of_step_session hs
    refine Eq.trans ?_ hi.2.2
    cases e with
    | send d bytes sent k =>
      obtain ⟨hm, -⟩ := Session.of_step_send he
      exact absurd (hi.1.tidy.settled hi.2.1 _ hm) Op.noConfusion
    | _ => exact funext fun d => List.append_nil _

/-- **An end of stream ends both directions.**  In a run in which the peers send
their scripts and half-close, and in which nothing fails and no timer expires:
the turn that shuts the session down is the handler of an end of stream, and it
closes both sockets.  The destination has then taken the whole script of the
direction that ended.  Of the other direction it has taken all but what the
session holds and what is still unread, and it takes no more of it; so that
direction is complete exactly when there is no such rest. -/
theorem half_close (h : ReachesIn step (Orderly script) (start now b ct it) x)
    (hs : x.step e = some y) (h0 : x.world.session.shuttingDown = false)
    (h1 : y.world.session.shuttingDown = true) (hr : Reaches step y z) :
    ∃ d n, e = .session (.dispatch (.read d) .eof n) ∧
      (∀ side, y.world.session.isOpen side = false) ∧
      z.taken d = script d ∧
      script d.other =
        z.taken d.other ++ (x.world.session.held d.other ++ unread script x d.other) ∧
      (z.taken d.other = script d.other ↔
        x.world.session.held d.other = [] ∧ unread script x d.other = []) := by
  have hc := clean_of_reaches h h0
  have hw := world_of_reaches h.toReaches
  have hx := World.sound_of_reaches hw
  have hy := hx.step (world_of_step hs)
  obtain ⟨d, n, rfl, hm, heof⟩ := hc.eof_of_shutdown hs h0 h1
  have ht : z.taken = x.taken := by
    rw [taken_of_reaches hr hy h1]
    obtain ⟨s, -, rfl⟩ := of_step_session hs
    exact funext fun d => List.append_nil _
  have hd : z.taken d = script d := by
    have hheld : x.world.session.held d = [] := held_eq hx hm (by simp [Op.inLoop])
    rw [ht, ← heof, arrived_eq h.toReaches h0 d, hheld, List.append_nil]
  have hother : script d.other =
      z.taken d.other ++ (x.world.session.held d.other ++ unread script x d.other) := by
    rw [ht, ← List.append_assoc, ← arrived_eq h.toReaches h0, unread]
    exact (List.prefix_iff_eq_append.mp (hc.arrived d.other)).symm
  refine ⟨d, n, rfl, ?_, hd, hother, ?_⟩
  · intro side
    rw [hy.tidy.sockets, h1]
    rfl
  · rw [hother, List.self_eq_append_right, List.append_eq_nil_iff]

end Run

/-! ### An answer that is cut -/

/-- A client sends `h` and half-closes.  The backend answers `ok!`; two bytes of it
are read when the end of stream is handled, and one of them has been sent. -/
def answered : List World.Event :=
  [.session (.complete .connect .success), .session (.dispatch .connect .success 0),
    .session (.recv .up [104]), .session (.dispatch (.read .up) .success 1),
    .session (.send .up 1 [] 1), .session (.complete (.write .up 1 [104]) .success),
    .session (.dispatch (.write .up 1 [104]) .success 0), .session (.complete (.read .up) .eof),
    .session (.recv .down [111, 107]), .session (.dispatch (.read .down) .success 2),
    .session (.send .down 2 [] 1)]

def question : Dir → Bytes
  | .up => [104]
  | .down => [111, 107, 33]

theorem run_answered : ∃ x y : Duplex,
    ReachesIn step (Orderly question) (start 0 0 1000 5000) x ∧
    x.step (.session (.dispatch (.read .up) .eof 0)) = some y ∧
    x.world.session.shuttingDown = false ∧ y.world.session.shuttingDown = true ∧
    y.taken .down = [111] := by
  have hrun : (run (fun s e => if Orderly question s e then step s e else none)
      (start 0 0 1000 5000) answered).bind (fun x =>
        (x.step (.session (.dispatch (.read .up) .eof 0))).map fun y =>
          (x.world.session.shuttingDown, y.world.session.shuttingDown, y.taken .down)) =
      some (false, true, [111]) := by decide
  obtain ⟨x, hx, hy⟩ := Option.bind_eq_some_iff.mp hrun
  obtain ⟨y, hy, hv⟩ := Option.map_eq_some_iff.mp hy
  simp only [Prod.mk.injEq] at hv
  exact ⟨x, y, reachesIn_of_run hx, hy, hv.1, hv.2.1, hv.2.2⟩

theorem half_close_answered : ∃ x y : Duplex,
    x.step (.session (.dispatch (.read .up) .eof 0)) = some y ∧
    y.taken .up = [104] ∧
    question .down = [111] ++ (x.world.session.held .down ++ unread question x .down) := by
  obtain ⟨x, y, hx, hy, h0, h1, ht⟩ := run_answered
  obtain ⟨d, n, he, -, hd, ho, -⟩ := half_close hx hy h0 h1 .refl
  cases he
  exact ⟨x, y, hy, hd, by rw [← ht]; exact ho⟩

/-- **The end of one direction truncates the other.** -/
theorem half_close_truncates : ¬∀ (now b : Nat) (ct it : UInt32) (script : Dir → Bytes)
    (x y : Duplex) (d : Dir) (n : Nat),
    ReachesIn step (Orderly script) (start now b ct it) x →
    x.step (.session (.dispatch (.read d) .eof n)) = some y →
    (∀ side, x.world.session.isOpen side = true) → (∀ side, y.world.session.isOpen side = false) →
      y.taken d.other = script d.other := by
  intro h
  obtain ⟨x, y, hx, hy, h0, h1, ht⟩ := run_answered
  have hw := World.sound_of_reaches (world_of_reaches hx.toReaches)
  have hv := hw.step (world_of_step hy)
  have := h 0 0 1000 5000 question x y .up 0 hx hy
    (hw.tidy.isOpen h0) (fun side => by rw [hv.tidy.sockets, h1]; rfl)
  rw [Dir.other, ht] at this
  cases this

end Duplex

end BitBridge.Proxy
