import BitBridge.Lib.CopyLoop
import BitBridge.Proxy.World

/-!
# The relay loops refine the copy loop

Each direction of a session is a copy loop through one buffer.  `Matches d w c`
relates a session to a state `c` of the abstract loop by the operation the
direction has pending: a connect means `c` has not started, a read means it is
reading, and a write means it holds exactly the bytes of that write.

* `matches_of_reaches`: every run of a session is matched, in each direction, by
  a run of the copy loop.
* `arrives_of_reaches`: the handlers are given what the reads took off the socket.
* `relay_fidelity`: what that says of the bytes.
* `unwritten_not_inFlight`: after a write that failed, the bytes it was given
  are read, not written, and in no pending write.
-/

namespace BitBridge.Proxy

open Proactor Steps

/-- What a pending write promises: its bytes fit, it has sent a prefix of them,
and when it is done it has sent all. -/
structure WriteOk (content : Bytes) (bytes : Nat) (sent : Bytes) (st : Status) : Prop where
  fits : bytes ≤ BUFFER_SIZE
  sent_eq : sent = content.take sent.length
  sent_le : sent.length ≤ bytes
  done : ∀ n, st = .queued .success n → sent.length = bytes

/-- The session `w` and the state `c` of the copy loop agree on the direction `d`. -/
structure Matches (d : Dir) (w : World) (c : CopyLoop.State UInt8) : Prop where
  received : (w.trace.stream d).received = c.received
  delivered : (w.trace.stream d).delivered = c.delivered
  lost : (w.trace.stream d).lost = c.phase.lost
  connect : ∀ st, ⟨.connect, st⟩ ∈ w.session.pending → c.phase = .idle
  read : ∀ st, ⟨.read d, st⟩ ∈ w.session.pending → c.phase = .reading ∧
    ∀ n, st = .queued .success n → n ≤ BUFFER_SIZE
  write : ∀ bytes sent st, ⟨.write d bytes sent, st⟩ ∈ w.session.pending →
    c.phase = .writing ((w.session.buf d).take bytes) ∧
      WriteOk ((w.session.buf d).take bytes) bytes sent st
  writing : ∀ chunk, c.phase = .writing chunk → 0 < count (Op.isWrite d) w.session.pending

theorem WriteOk.of_status {content sent : Bytes} {bytes : Nat} {st st' : Status}
    (h : WriteOk content bytes sent st) (hst : st' = st ∨ ∀ n, st' ≠ .queued .success n) :
    WriteOk content bytes sent st' where
  fits := h.fits
  sent_eq := h.sent_eq
  sent_le := h.sent_le
  done := fun n hn => by
    rcases hst with hst | hst
    · exact h.done n (hst ▸ hn)
    · exact absurd hn (hst n)

namespace Matches

variable {d : Dir} {w v : World} {c : CopyLoop.State UInt8}

/-- A turn that starts nothing in the loop, and finishes nothing of it with
success, keeps the match. -/
theorem of_continues (h : Matches d w c) (htr : v.trace.stream d = w.trace.stream d)
    (hbuf : v.session.buf d = w.session.buf d)
    (hp : ∀ p ∈ v.session.pending, p.op.inLoop d → Continues w.session.pending p)
    (hle : count (Op.isWrite d) w.session.pending ≤ count (Op.isWrite d) v.session.pending) :
    Matches d v c where
  received := by rw [htr]; exact h.received
  delivered := by rw [htr]; exact h.delivered
  lost := by rw [htr]; exact h.lost
  connect := fun st hm => by
    obtain ⟨⟨op, st'⟩, hq, rfl, -⟩ := hp _ hm rfl
    exact h.connect st' hq
  read := fun st hm => by
    obtain ⟨⟨op, st'⟩, hq, rfl, hst⟩ := hp _ hm (by simp [Op.inLoop])
    obtain ⟨hph, hn⟩ := h.read st' hq
    refine ⟨hph, ?_⟩
    intro n hst'
    rcases hst with hst | hst
    · exact hn n (hst.symm.trans hst')
    · exact absurd hst' (hst n)
  write := fun bytes sent st hm => by
    obtain ⟨⟨op, st'⟩, hq, rfl, hst⟩ := hp _ hm (by simp [Op.inLoop])
    obtain ⟨hph, hw⟩ := h.write bytes sent st' hq
    rw [hbuf]
    exact ⟨hph, hw.of_status hst⟩
  writing := fun chunk hph => (h.writing chunk hph).trans_le hle

theorem of_none {c' : CopyLoop.State UInt8} (hr : (v.trace.stream d).received = c'.received)
    (hd : (v.trace.stream d).delivered = c'.delivered)
    (hl : (v.trace.stream d).lost = c'.phase.lost) (hph : ∀ chunk, c'.phase ≠ .writing chunk)
    (hp : ∀ p ∈ v.session.pending, p.op.inLoop d = false) : Matches d v c' where
  received := hr
  delivered := hd
  lost := hl
  connect := fun st hm => absurd (hp _ hm) (by simp [Op.inLoop])
  read := fun st hm => absurd (hp _ hm) (by simp [Op.inLoop])
  write := fun bytes sent st hm => absurd (hp _ hm) (by simp [Op.inLoop])
  writing := fun chunk h => absurd h (hph chunk)

theorem of_read {c' : CopyLoop.State UInt8} (hr : (v.trace.stream d).received = c'.received)
    (hd : (v.trace.stream d).delivered = c'.delivered) (hl : (v.trace.stream d).lost = [])
    (hph : c'.phase = .reading)
    (hp : ∀ p ∈ v.session.pending, p.op.inLoop d → p.op = .read d ∧ Session.Fresh p) :
    Matches d v c' where
  received := hr
  delivered := hd
  lost := by rw [hl, hph]; rfl
  connect := fun st hm => absurd (hp _ hm rfl).1 Op.noConfusion
  read := fun st hm => ⟨hph, fun n hn => absurd hn ((hp _ hm (by simp [Op.inLoop])).2 n)⟩
  write := fun bytes sent st hm => absurd (hp _ hm (by simp [Op.inLoop])).1 Op.noConfusion
  writing := fun chunk h => by rw [hph] at h; cases h

theorem of_write {c' : CopyLoop.State UInt8} {n : Nat}
    (hr : (v.trace.stream d).received = c'.received)
    (hd : (v.trace.stream d).delivered = c'.delivered) (hl : (v.trace.stream d).lost = [])
    (hph : c'.phase = .writing ((v.session.buf d).take n)) (hn : n ≤ BUFFER_SIZE)
    (hp : ∀ p ∈ v.session.pending, p.op.inLoop d → p.op = .write d n [] ∧ Session.Fresh p)
    (hpos : 0 < count (Op.isWrite d) v.session.pending) : Matches d v c' where
  received := hr
  delivered := hd
  lost := by rw [hl, hph]; rfl
  connect := fun st hm => absurd (hp _ hm rfl).1 Op.noConfusion
  read := fun st hm => absurd (hp _ hm (by simp [Op.inLoop])).1 Op.noConfusion
  write := fun bytes sent st hm => by
    obtain ⟨hop, hf⟩ := hp _ hm (by simp [Op.inLoop])
    injection hop with _ hb hs
    subst hb hs
    exact ⟨hph, hn, rfl, Nat.zero_le _, fun m hm => absurd hm (hf m)⟩
  writing := fun _ _ => hpos

/-! ### The outside world -/

theorem complete (h : Matches d w c) {op : Op} {ec : ErrorCode} {s : Session}
    (hs : w.session.step w.now (.complete op ec) = some s) {tr : Trace}
    (htr : tr.stream d = w.trace.stream d) : Matches d ⟨w.now, s, tr⟩ c := by
  obtain ⟨hm, hmay, rfl⟩ := Session.of_step_complete hs
  refine ⟨by rw [htr]; exact h.received, by rw [htr]; exact h.delivered,
    by rw [htr]; exact h.lost, ?_, ?_, ?_,
    fun chunk hph => (h.writing chunk hph).trans_eq (count_resolve hm).symm⟩
  · intro st hst
    rcases mem_resolve hst with hst | hst
    · exact h.connect st hst
    · cases hst
      exact h.connect .waiting hm
  · intro st hst
    rcases mem_resolve hst with hst | hst
    · exact h.read st hst
    · cases hst
      -- a read is completed here with an error only
      exact ⟨(h.read .waiting hm).1, fun n hn => by cases hn; simp [Session.mayComplete] at hmay⟩
  · intro bytes sent st hst
    rcases mem_resolve hst with hst | hst
    · exact h.write bytes sent st hst
    · cases hst
      obtain ⟨hph, hw⟩ := h.write bytes sent .waiting hm
      refine ⟨hph, hw.fits, hw.sent_eq, hw.sent_le, ?_⟩
      intro n hn
      cases hn
      simpa [Session.mayComplete] using hmay

theorem recv (h : Matches d w c) {d' : Dir} {chunk : Bytes} {s : Session}
    (hs : w.session.step w.now (.recv d' chunk) = some s) {tr : Trace} {a : Bytes}
    (htr : tr.stream d = { w.trace.stream d with arrived := a }) : Matches d ⟨w.now, s, tr⟩ c := by
  obtain ⟨hm, -, hlen, rfl⟩ := Session.of_step_recv hs
  refine ⟨by rw [htr]; exact h.received, by rw [htr]; exact h.delivered,
    by rw [htr]; exact h.lost, ?_, ?_, ?_,
    fun chunk hph => (h.writing chunk hph).trans_eq (count_resolve hm).symm⟩
  · intro st hst
    rcases mem_resolve hst with hst | hst
    · exact h.connect st hst
    · cases hst
  · intro st hst
    rcases mem_resolve hst with hst | hst
    · exact h.read st hst
    · cases hst
      exact ⟨(h.read .waiting hm).1, fun n hn => by cases hn; exact hlen⟩
  · intro bytes sent st hst
    rcases mem_resolve hst with hst | hst
    · -- the loop that reads has no write, so the buffer that changes is the other one's
      obtain ⟨hph, hw⟩ := h.write bytes sent st hst
      have hne : d' ≠ d := by
        rintro rfl
        rw [(h.read .waiting hm).1] at hph
        cases hph
      simp only [Session.buf_pending, Session.buf_setBuf_other _ _ hne]
      exact ⟨hph, hw⟩
    · cases hst

theorem send (h : Matches d w c) {d' : Dir} {bytes k : Nat} {sent : Bytes} {s : Session}
    (hs : w.session.step w.now (.send d' bytes sent k) = some s) {tr : Trace}
    (htr : tr.stream d = w.trace.stream d) : Matches d ⟨w.now, s, tr⟩ c := by
  obtain ⟨hm, -, hk, rfl⟩ := Session.of_step_send hs
  refine ⟨by rw [htr]; exact h.received, by rw [htr]; exact h.delivered,
    by rw [htr]; exact h.lost, ?_, ?_, ?_,
    fun chunk hph => (h.writing chunk hph).trans_eq ?_⟩
  · intro st hst
    rcases List.mem_append.mp hst with hst | hst
    · exact h.connect st (List.mem_of_mem_erase hst)
    · simp at hst
  · intro st hst
    rcases List.mem_append.mp hst with hst | hst
    · exact h.read st (List.mem_of_mem_erase hst)
    · simp at hst
  · intro bytes' sent' st hst
    rcases List.mem_append.mp hst with hst | hst
    · exact h.write bytes' sent' st (List.mem_of_mem_erase hst)
    · rw [List.mem_singleton] at hst
      cases hst
      obtain ⟨hph, hw⟩ := h.write bytes sent .waiting hm
      have hc : ((w.session.buf d).take bytes).length = bytes := Buffer.length_take _ hw.fits
      have hl : ((((w.session.buf d).take bytes).drop sent.length).take k).length = k := by
        rw [List.length_take, List.length_drop, hc]
        omega
      simp only [Session.buf_pending]
      refine ⟨hph, hw.fits, ?_, ?_, fun n hn => nomatch hn⟩
      · rw [List.length_append, hl, List.take_add, ← hw.sent_eq]
      · rw [List.length_append, hl]
        exact hk
  · rw [count_append, count_cons, count_nil, Nat.zero_add]
    exact (count_erase hm).symm

/-! ### The handlers -/

variable {op : Op} {ec : ErrorCode} {n : Nat} {s : Session}

theorem dispatch_foreign (h : Matches d w c) (hop : op.inLoop d = false)
    (hs : w.session.step w.now (.dispatch op ec n) = some s) {tr : Trace}
    (htr : tr.stream d = w.trace.stream d) : Matches d ⟨w.now, s, tr⟩ c := by
  obtain ⟨hm, rfl⟩ := Session.of_step_dispatch hs
  refine h.of_continues htr ?_ ?_ ?_
  · exact ((Session.sameObject_handle _ _ _ _ _).buf d).trans (Session.buf_dequeue _ _ _ _ _)
  · intro p hp hd
    rcases Session.mem_handle hp with h1 | ⟨-, -, h1 | ⟨d', hop', h1⟩ | ⟨d', rfl, h1⟩⟩
    · exact h1.trans fun q hq => continues_of_mem (mem_of_mem_consume hq)
    · rw [h1] at hd
      cases hd
    · rw [h1] at hd
      obtain rfl : d' = d := by simpa [Op.inLoop] using hd
      rcases hop' with rfl | hop'
      · cases hop
      · rw [Op.inLoop_of_isWrite hop'] at hop
        cases hop
    · rw [h1] at hd
      obtain rfl : d' = d := by simpa [Op.inLoop] using hd
      simp [Op.inLoop] at hop
  · have hc := count_consume (f := Op.isWrite d) hm
    have hw : op.isWrite d = false := by
      by_contra hw
      rw [Op.inLoop_of_isWrite (by simpa using hw)] at hop
      cases hop
    rw [hw, if_neg Bool.false_ne_true, Nat.add_zero] at hc
    exact hc.symm.le.trans (Session.le_count_handle (w.session.dequeue op ec n) _ rfl _ _ _)

theorem mem_dispatch (hw : w.Sound) (hop : op.inLoop d)
    (hs : w.session.step w.now (.dispatch op ec n) = some s) {p : Pending Op}
    (hp : p ∈ s.pending) (hd : p.op.inLoop d) : ec.failed = false ∧ Session.Fresh p ∧
      ((op = .connect ∨ op.isWrite d) ∧ p.op = .read d ∨ op = .read d ∧ p.op = .write d n []) := by
  obtain ⟨hm, rfl⟩ := Session.of_step_dispatch hs
  rcases Session.mem_handle hp with
    ⟨q, hq, hqp, -⟩ | ⟨hec, hf, hp | ⟨d', hop', hp⟩ | ⟨d', hop', hp⟩⟩
  · have := hw.not_inLoop_of_consume hm hop hq
    rw [hqp, hd] at this
    cases this
  · rw [hp] at hd
    cases hd
  · rw [hp] at hd
    obtain rfl : d' = d := by simpa [Op.inLoop] using hd
    exact ⟨hec, hf, Or.inl ⟨hop', hp⟩⟩
  · rw [hp] at hd
    obtain rfl : d' = d := by simpa [Op.inLoop] using hd
    exact ⟨hec, hf, Or.inr ⟨hop', hp⟩⟩

theorem dispatch_connect (h : Matches d w c) (hw : w.Sound)
    (hs : w.session.step w.now (.dispatch .connect ec n) = some s) :
    ∃ c', Reaches CopyLoop.step c c' ∧
      Matches d ⟨w.now, s, w.trace.record w.now w.session (.dispatch .connect ec n)⟩ c' := by
  have hph : c.phase = .idle := h.connect _ (Session.of_step_dispatch hs).1
  cases hec : ec.failed with
  | true =>
    refine ⟨c, .refl, of_none h.received h.delivered h.lost (by simp [hph]) ?_⟩
    intro p hp
    by_contra hd
    have := (mem_dispatch hw rfl hs hp (by simpa using hd)).1
    rw [hec] at this
    cases this
  | false =>
    refine ⟨{ c with phase := .reading },
      .single trivial (e := .start) (by simp [CopyLoop.step, hph]),
      of_read h.received h.delivered ?_ rfl fun p hp hd => ?_⟩
    · exact h.lost.trans (by rw [hph]; rfl)
    obtain ⟨-, hf, ⟨-, hp⟩ | ⟨hop, -⟩⟩ := mem_dispatch hw rfl hs hp hd
    · exact ⟨hp, hf⟩
    · cases hop

theorem dispatch_read (h : Matches d w c) (hw : w.Sound)
    (hs : w.session.step w.now (.dispatch (.read d) ec n) = some s) :
    ∃ c', Reaches CopyLoop.step c c' ∧
      Matches d ⟨w.now, s, w.trace.record w.now w.session (.dispatch (.read d) ec n)⟩ c' := by
  obtain ⟨hm, hst⟩ := Session.of_step_dispatch hs
  obtain ⟨hph, hn⟩ := h.read _ hm
  have hloop : (Op.read d).inLoop d := by simp [Op.inLoop]
  cases hec : ec.failed with
  | true =>
    have htr : w.trace.record w.now w.session (.dispatch (.read d) ec n) = w.trace := if_pos hec
    rw [htr]
    refine ⟨c, .refl, of_none h.received h.delivered h.lost (by simp [hph]) ?_⟩
    intro p hp
    by_contra hd
    have := (mem_dispatch hw hloop hs hp (by simpa using hd)).1
    rw [hec] at this
    cases this
  | false =>
    have htr : w.trace.record w.now w.session (.dispatch (.read d) ec n) =
        w.trace.update d fun x =>
          { x with received := x.received ++ (w.session.buf d).take n } := if_neg (by simp [hec])
    obtain rfl := ErrorCode.failed_eq_false.mp hec
    have hbuf : s.buf d = w.session.buf d := by
      rw [hst, (Session.sameObject_handle _ _ _ _ _).buf d, Session.buf_dequeue]
    refine ⟨⟨c.received ++ (w.session.buf d).take n, c.delivered,
        .writing ((w.session.buf d).take n)⟩,
      .single trivial (e := .read ((w.session.buf d).take n)) (by simp [CopyLoop.step, hph]), ?_⟩
    rw [htr]
    refine of_write (n := n) (by simp [h.received]) (by simp [h.delivered])
      (by simp [h.lost, hph, CopyLoop.Phase.lost]) (by rw [hbuf]) (hn n rfl) ?_ ?_
    · intro p hp hd
      obtain ⟨-, hf, ⟨hop | hop, -⟩ | ⟨-, hp⟩⟩ := mem_dispatch hw hloop hs hp hd
      · cases hop
      · cases hop
      · exact ⟨hp, hf⟩
    · rw [hst, Session.handle, if_neg (by simp), Session.asyncWrite, Session.count_postOn]
      simp [Op.isWrite]

theorem dispatch_write {bytes : Nat} {sent : Bytes} (h : Matches d w c) (hw : w.Sound)
    (hs : w.session.step w.now (.dispatch (.write d bytes sent) ec n) = some s) :
    ∃ c', Reaches CopyLoop.step c c' ∧
      Matches d ⟨w.now, s, w.trace.record w.now w.session (.dispatch (.write d bytes sent) ec n)⟩
        c' := by
  obtain ⟨hph, hok⟩ := h.write _ _ _ (Session.of_step_dispatch hs).1
  have hloop : (Op.write d bytes sent).inLoop d := by simp [Op.inLoop]
  have hlost : (w.trace.stream d).lost = [] := by rw [h.lost, hph]; rfl
  cases hec : ec.failed with
  | true =>
    have htr : w.trace.record w.now w.session (.dispatch (.write d bytes sent) ec n) =
        w.trace.update d fun x =>
          { x with lost := x.lost ++ (w.session.buf d).take bytes } := if_pos hec
    refine ⟨{ c with phase := .failed ((w.session.buf d).take bytes) },
      .single trivial (e := .fail) (by simp [CopyLoop.step, hph]), ?_⟩
    rw [htr]
    refine of_none (by simp [h.received]) (by simp [h.delivered])
      (by simp [hlost, CopyLoop.Phase.lost]) (by simp) ?_
    intro p hp
    by_contra hd
    have := (mem_dispatch hw hloop hs hp (by simpa using hd)).1
    rw [hec] at this
    cases this
  | false =>
    have htr : w.trace.record w.now w.session (.dispatch (.write d bytes sent) ec n) =
        w.trace.update d fun x => { x with delivered := x.delivered ++ sent } :=
      if_neg (by simp [hec])
    obtain rfl := ErrorCode.failed_eq_false.mp hec
    -- a write that succeeded has sent the whole of what it was given
    have hsent : sent = (w.session.buf d).take bytes := by
      have hl := Buffer.length_take (w.session.buf d) hok.fits
      rw [hok.sent_eq, hok.done n rfl, List.take_of_length_le hl.le]
    refine ⟨⟨c.received, c.delivered ++ (w.session.buf d).take bytes, .reading⟩,
      .single trivial (e := .wrote) (by simp [CopyLoop.step, hph]), ?_⟩
    rw [htr]
    refine of_read (by simp [h.received]) (by simp [h.delivered, ← hsent]) (by simp [hlost]) rfl ?_
    intro p hp hd
    obtain ⟨-, hf, ⟨-, hp⟩ | ⟨hop, -⟩⟩ := mem_dispatch hw hloop hs hp hd
    · exact ⟨hp, hf⟩
    · cases hop

theorem dispatch (h : Matches d w c) (hw : w.Sound)
    (hs : w.session.step w.now (.dispatch op ec n) = some s) :
    ∃ c', Reaches CopyLoop.step c c' ∧
      Matches d ⟨w.now, s, w.trace.record w.now w.session (.dispatch op ec n)⟩ c' := by
  cases op with
  | connectWait | idleWait => exact ⟨c, .refl, h.dispatch_foreign rfl hs rfl⟩
  | connect => exact h.dispatch_connect hw hs
  | read d' =>
    by_cases hd : d' = d
    · subst hd
      exact h.dispatch_read hw hs
    · refine ⟨c, .refl, h.dispatch_foreign (by simp [Op.inLoop, hd]) hs ?_⟩
      rw [Trace.record]
      split
      · rfl
      · exact Trace.update_other _ _ (Ne.symm hd)
  | write d' bytes sent =>
    by_cases hd : d' = d
    · subst hd
      exact h.dispatch_write hw hs
    · refine ⟨c, .refl, h.dispatch_foreign (by simp [Op.inLoop, hd]) hs ?_⟩
      rw [Trace.record]
      split <;> exact Trace.update_other _ _ (Ne.symm hd)

/-- **Each turn of a session is a turn of the copy loop, or none.** -/
theorem step (h : Matches d w c) (hw : w.Sound) {e : World.Event} (he : w.step e = some v) :
    ∃ c', Reaches CopyLoop.step c c' ∧ Matches d v c' := by
  cases e with
  | tick =>
    obtain rfl := Option.some.inj he
    exact ⟨c, .refl, h.received, h.delivered, h.lost, h.connect, h.read, h.write, h.writing⟩
  | session e =>
    obtain ⟨s, hs, rfl⟩ := World.of_step_session he
    cases e with
    | complete op ec => exact ⟨c, .refl, h.complete hs (by cases op <;> cases ec <;> rfl)⟩
    | recv d' chunk => exact ⟨c, .refl, h.recv hs (Trace.stream_recv _ _ _ _ _ _)⟩
    | send d' bytes sent k => exact ⟨c, .refl, h.send hs rfl⟩
    | dispatch op ec n => exact h.dispatch hw hs

/-! ### What the match says of the bytes -/

theorem inFlight_eq (h : Matches d w c) (hw : w.Sound) :
    w.session.inFlight d = c.phase.inFlight := by
  have hle : count (Op.isWrite d) w.session.pending ≤ 1 :=
    (count_mono (fun _ => Op.inLoop_of_isWrite) _).trans (hw.loop d)
  rcases Nat.eq_zero_or_pos (count (Op.isWrite d) w.session.pending) with hz | hpos
  · have hnil : w.session.inFlight d = [] := List.flatMap_eq_nil_iff.mpr fun p hp =>
      w.session.content_eq_nil d _ (not_mem_of_count_eq_zero hz hp)
    rw [hnil]
    cases hph : c.phase with
    | writing chunk => exact absurd (h.writing chunk hph) (by omega)
    | _ => rfl
  · obtain ⟨⟨op, st⟩, hp, hop⟩ := List.countP_pos_iff.mp hpos
    have hfl : w.session.inFlight d = w.session.content d op :=
      flatMap_of_count_le_one (fun q => w.session.content_eq_nil d q.op) hle hp hop
    cases op with
    | write d' bytes sent =>
      obtain rfl : d' = d := by simpa [Op.isWrite] using hop
      rw [hfl, (h.write bytes sent st hp).1]
      exact if_pos rfl
    | _ => cases hop

theorem delivered_of_read (h : Matches d w c) (hc : CopyLoop.Exact c) {st : Status}
    (hm : ⟨.read d, st⟩ ∈ w.session.pending) :
    (w.trace.stream d).received = (w.trace.stream d).delivered := by
  rw [h.received, h.delivered, hc.received, (h.read st hm).1]
  simp [CopyLoop.Phase.inFlight, CopyLoop.Phase.lost]

theorem not_inLoop_of_lost (h : Matches d w c) (hl : (w.trace.stream d).lost ≠ [])
    {p : Pending Op} (hp : p ∈ w.session.pending) : p.op.inLoop d = false := by
  rw [h.lost] at hl
  obtain ⟨op, st⟩ := p
  by_contra hd
  cases op with
  | connectWait | idleWait => exact hd rfl
  | connect => rw [h.connect st hp] at hl; exact hl rfl
  | read d' =>
    obtain rfl : d' = d := by simpa [Op.inLoop] using hd
    rw [(h.read st hp).1] at hl
    exact hl rfl
  | write d' bytes sent =>
    obtain rfl : d' = d := by simpa [Op.inLoop] using hd
    rw [(h.write bytes sent st hp).1] at hl
    exact hl rfl

end Matches

/-! ### Before the connect -/

/-- Until the connect succeeds, neither loop has read anything. -/
structure BeforeConnect (w : World) : Prop where
  only : ∀ d, ∀ p ∈ w.session.pending, p.op.inLoop d → p.op = .connect
  connect : ∀ n, ⟨.connect, .queued .success n⟩ ∉ w.session.pending
  nothing : ∀ d, (w.trace.stream d).received = []

theorem BeforeConnect.step {w v : World} {e : World.Event} (h : BeforeConnect w)
    (he : w.step e = some v) (hv : v.trace.connected = false) : BeforeConnect v := by
  cases e with
  | tick =>
    obtain rfl := Option.some.inj he
    exact ⟨h.only, h.connect, h.nothing⟩
  | session e =>
    obtain ⟨s, hs, rfl⟩ := World.of_step_session he
    cases e with
    | complete op ec =>
      have htr : w.trace.record w.now w.session (.complete op ec) = w.trace := by
        cases op <;> cases ec <;> first | rfl | cases hv
      obtain ⟨hm, -, rfl⟩ := Session.of_step_complete hs
      rw [htr]
      refine ⟨?_, ?_, h.nothing⟩
      · intro d p hp hd
        rcases mem_resolve hp with hp | rfl
        · exact h.only d p hp hd
        · exact h.only d ⟨op, .waiting⟩ hm hd
      · intro n hn
        rcases mem_resolve hn with hn | hn
        · exact h.connect n hn
        · cases hn
          cases hv
    | recv d chunk =>
      obtain ⟨hm, -⟩ := Session.of_step_recv hs
      exact absurd (h.only d _ hm (by simp [Op.inLoop])) Op.noConfusion
    | send d bytes sent k =>
      obtain ⟨hm, -⟩ := Session.of_step_send hs
      exact absurd (h.only d _ hm (by simp [Op.inLoop])) Op.noConfusion
    | dispatch op ec n =>
      obtain ⟨hm, rfl⟩ := Session.of_step_dispatch hs
      have hec : op = .connect → ec.failed = true := by
        rintro rfl
        by_contra hec
        rw [Bool.not_eq_true, ErrorCode.failed_eq_false] at hec
        exact h.connect n (hec ▸ hm)
      have hold : ∀ d, ∀ p ∈ ((w.session.dequeue op ec n).handle w.now op ec n).pending,
          p.op.inLoop d → Continues w.session.pending p := by
        intro d p hp hd
        rcases Session.mem_handle hp with hp | ⟨hsucc, -, hp | ⟨d', hop | hop, -⟩ | ⟨d', rfl, -⟩⟩
        · exact hp.trans fun q hq => continues_of_mem (mem_of_mem_consume hq)
        · rw [hp] at hd
          cases hd
        · rw [hec hop] at hsucc
          cases hsucc
        · obtain rfl : op = .connect := h.only d' _ hm (Op.inLoop_of_isWrite hop)
          cases hop
        · exact absurd (h.only d' _ hm (by simp [Op.inLoop])) Op.noConfusion
      refine ⟨?_, ?_, ?_⟩
      · intro d p hp hd
        obtain ⟨q, hq, hop, -⟩ := hold d p hp hd
        exact hop ▸ h.only d q hq (hop ▸ hd)
      · intro m hp
        obtain ⟨⟨op', st⟩, hq, rfl, hst⟩ := hold .up _ hp rfl
        rcases hst with hst | hst
        · cases hst
          exact h.connect m hq
        · exact hst m rfl
      · intro d
        cases op with
        | read d' => exact absurd (h.only d' _ hm (by simp [Op.inLoop])) Op.noConfusion
        | write d' bytes sent => exact absurd (h.only d' _ hm (by simp [Op.inLoop])) Op.noConfusion
        | _ => exact h.nothing d

theorem connected_of_step {w v : World} {e : World.Event} (he : w.step e = some v)
    (hv : v.trace.connected = false) : w.trace.connected = false := by
  cases e with
  | tick =>
    obtain rfl := Option.some.inj he
    exact hv
  | session e =>
    obtain ⟨s, hs, rfl⟩ := World.of_step_session he
    cases e with
    | complete op ec => cases op <;> cases ec <;> first | exact hv | cases hv
    | recv d chunk => exact hv
    | send d bytes sent k => exact hv
    | dispatch op ec n =>
      cases op with
      | read d =>
        change (Trace.record _ _ _ _).connected = false at hv
        rw [Trace.record] at hv
        split at hv <;> exact hv
      | write d bytes sent =>
        change (Trace.record _ _ _ _).connected = false at hv
        rw [Trace.record] at hv
        split at hv <;> exact hv
      | _ => exact hv

/-! ### What the reads took off the socket -/

/-- The read handlers were given what arrived, but for what a completed read has
left in the buffer for a handler that has not run yet. -/
structure Arrives (d : Dir) (w : World) : Prop where
  queued : ∀ n, ⟨.read d, .queued .success n⟩ ∈ w.session.pending →
    (w.trace.stream d).arrived = (w.trace.stream d).received ++ (w.session.buf d).take n
  handled : (∀ n, ⟨.read d, .queued .success n⟩ ∉ w.session.pending) →
    (w.trace.stream d).arrived = (w.trace.stream d).received

namespace Arrives

variable {d : Dir} {w v : World}

theorem congr (h : Arrives d w)
    (ha : (v.trace.stream d).arrived = (w.trace.stream d).arrived)
    (hr : (v.trace.stream d).received = (w.trace.stream d).received)
    (hb : v.session.buf d = w.session.buf d)
    (hiff : ∀ n, ⟨.read d, .queued .success n⟩ ∈ v.session.pending ↔
      ⟨.read d, .queued .success n⟩ ∈ w.session.pending) : Arrives d v where
  queued n hn := by rw [ha, hr, hb]; exact h.queued n ((hiff n).mp hn)
  handled hn := by rw [ha, hr]; exact h.handled fun n hm => hn n ((hiff n).mpr hm)

theorem complete (h : Arrives d w) {op : Op} {ec : ErrorCode} {s : Session}
    (hs : w.session.step w.now (.complete op ec) = some s) {tr : Trace}
    (htr : tr.stream d = w.trace.stream d) : Arrives d ⟨w.now, s, tr⟩ := by
  obtain ⟨-, hmay, rfl⟩ := Session.of_step_complete hs
  refine h.congr (by rw [htr]) (by rw [htr]) (Session.buf_pending _ _ _) fun n => ⟨?_,
    fun hn => mem_resolve_of_mem hn (by simp)⟩
  intro hn
  rcases mem_resolve hn with hn | hn
  · exact hn
  · cases hn
    simp [Session.mayComplete] at hmay

/-- **A read takes its bytes off the socket and leaves them in the buffer.** -/
theorem recv (h : Arrives d w) (hw : w.Sound) {d' : Dir} {chunk : Bytes} {s : Session}
    (hs : w.session.step w.now (.recv d' chunk) = some s) :
    Arrives d ⟨w.now, s, w.trace.record w.now w.session (.recv d' chunk)⟩ := by
  obtain ⟨hm, -, hlen, rfl⟩ := Session.of_step_recv hs
  have hst := Trace.stream_recv w.trace w.now w.session d' chunk d
  by_cases hd : d = d'
  · subst hd
    rw [if_pos rfl] at hst
    have hloop : (Op.read d).inLoop d := by simp [Op.inLoop]
    have hnone : ∀ n, ⟨.read d, .queued .success n⟩ ∉ w.session.pending := fun n hn => by
      cases eq_of_count_le_one (hw.loop d) hm hn hloop hloop
    have hq : ⟨.read d, .queued .success chunk.length⟩ ∈
        resolve w.session.pending (.read d) .success chunk.length :=
      List.mem_append_right _ (List.mem_singleton_self _)
    refine ⟨?_, fun hn => absurd hq (hn _)⟩
    intro n hn
    rcases mem_resolve hn with hn | hn
    · exact absurd hn (hnone n)
    · cases hn
      rw [hst, Session.buf_pending, Session.buf_setBuf, Buffer.take_fill _ hlen]
      dsimp only
      rw [h.handled hnone]
  · rw [if_neg hd, List.append_nil] at hst
    refine h.congr (by rw [hst]) (by rw [hst]) ?_ fun n => ⟨?_, ?_⟩
    · exact (Session.buf_pending _ _ _).trans (Session.buf_setBuf_other _ _ (Ne.symm hd))
    · intro hn
      rcases mem_resolve hn with hn | hn
      · exact hn
      · cases hn
        exact absurd rfl hd
    · intro hn
      exact mem_resolve_of_mem hn (by simp)

theorem send (h : Arrives d w) {d' : Dir} {bytes k : Nat} {sent : Bytes} {s : Session}
    (hs : w.session.step w.now (.send d' bytes sent k) = some s) {tr : Trace}
    (htr : tr.stream d = w.trace.stream d) : Arrives d ⟨w.now, s, tr⟩ := by
  obtain ⟨-, -, -, rfl⟩ := Session.of_step_send hs
  refine h.congr (by rw [htr]) (by rw [htr]) (Session.buf_pending _ _ _) fun n => ⟨?_,
    fun hn => List.mem_append_left _ ((List.mem_erase_of_ne (by simp)).mpr hn)⟩
  intro hn
  rcases List.mem_append.mp hn with hn | hn
  · exact List.mem_of_mem_erase hn
  · simp at hn

theorem dispatch (h : Arrives d w) (hw : w.Sound) {op : Op} {ec : ErrorCode} {m : Nat}
    {s : Session} (hs : w.session.step w.now (.dispatch op ec m) = some s) :
    Arrives d ⟨w.now, s, w.trace.record w.now w.session (.dispatch op ec m)⟩ := by
  obtain ⟨hm, rfl⟩ := Session.of_step_dispatch hs
  have hbuf : ((w.session.dequeue op ec m).handle w.now op ec m).buf d = w.session.buf d :=
    ((Session.sameObject_handle _ _ _ _ _).buf d).trans (Session.buf_dequeue _ _ _ _ _)
  have hold : ∀ n, ⟨.read d, .queued .success n⟩ ∈
      ((w.session.dequeue op ec m).handle w.now op ec m).pending →
        ⟨.read d, .queued .success n⟩ ∈ consume w.session.pending op ec m := by
    intro n hn
    rcases Session.mem_handle hn with ⟨⟨o, st⟩, hq, rfl, hst | hst⟩ | ⟨-, hf, -⟩
    · cases hst
      exact hq
    · exact absurd rfl (hst n)
    · exact absurd rfl (hf n)
  by_cases hop : op = .read d ∧ ec = .success
  · -- the handler is given what the read has left
    obtain ⟨rfl, rfl⟩ := hop
    have hloop : (Op.read d).inLoop d := by simp [Op.inLoop]
    refine ⟨?_, ?_⟩
    · intro n hn
      have := hw.not_inLoop_of_consume hm hloop (hold n hn)
      rw [hloop] at this
      cases this
    · intro _
      rw [Trace.record, if_neg (by simp), Trace.update_same]
      exact h.queued m hm
  · refine h.congr (Trace.arrived_dispatch _ _ _ _ _ _ _) (Trace.received_dispatch _ _ _ _ hop)
      hbuf fun n => ⟨fun hn => mem_of_mem_consume (hold n hn), ?_⟩
    intro hn
    refine Session.mem_handle_of_queued ((List.mem_erase_of_ne ?_).mpr hn)
    intro heq
    cases heq
    exact hop ⟨rfl, rfl⟩

theorem step (h : Arrives d w) (hw : w.Sound) {e : World.Event} (he : w.step e = some v) :
    Arrives d v := by
  cases e with
  | tick =>
    obtain rfl := Option.some.inj he
    exact ⟨h.queued, h.handled⟩
  | session e =>
    obtain ⟨s, hs, rfl⟩ := World.of_step_session he
    cases e with
    | complete op ec => exact h.complete hs (by cases op <;> cases ec <;> rfl)
    | recv d' chunk => exact h.recv hw hs
    | send d' bytes sent k => exact h.send hs rfl
    | dispatch op ec n => exact h.dispatch hw hs

end Arrives

/-! ### Every run -/

section Run

variable {now b : Nat} {ct it : UInt32} {w : World}

/-- **Every run of a session is a run of the copy loop**, in each direction. -/
theorem matches_of_reaches (h : Reaches World.step (World.start now b ct it) w) (d : Dir) :
    ∃ c, Reaches CopyLoop.step CopyLoop.init c ∧ Matches d w c := by
  induction h with
  | refl =>
    refine ⟨_, .refl, rfl, rfl, rfl, fun st _ => rfl, ?_, ?_,
      fun chunk hph => nomatch hph⟩
    · intro st hm
      simp [World.start] at hm
    · intro bytes sent st hm
      simp [World.start] at hm
  | tail hr _ he ih =>
    obtain ⟨c, hc, hm⟩ := ih
    obtain ⟨c', hc', hm'⟩ := hm.step (World.sound_of_reaches hr) he
    exact ⟨c', hc.trans hc', hm'⟩

theorem beforeConnect_of_reaches (h : Reaches World.step (World.start now b ct it) w) :
    w.trace.connected = false → BeforeConnect w := by
  refine h.invariant (I := fun w => w.trace.connected = false → BeforeConnect w) ?_
    fun hi _ he hv => (hi (connected_of_step he hv)).step he hv
  refine fun _ => ⟨?_, ?_, fun d => rfl⟩
  · intro d p hp hd
    rcases List.mem_cons.mp hp with rfl | hp
    · cases hd
    · rw [List.mem_singleton.mp hp]
  · intro n hn
    simp [World.start] at hn

theorem arrives_of_reaches (h : Reaches World.step (World.start now b ct it) w) (d : Dir) :
    Arrives d w := by
  suffices hi : w.Sound ∧ Arrives d w from hi.2
  refine h.invariant (I := fun w => w.Sound ∧ Arrives d w) ⟨World.sound_start now b ct it, ?_⟩
    fun hi _ he => ⟨hi.1.step he, hi.2.step hi.1 he⟩
  exact ⟨fun n hn => by simp [World.start] at hn, fun _ => rfl⟩

theorem received_of_reaches (h : Reaches World.step (World.start now b ct it) w) (d : Dir) :
    (w.trace.stream d).received =
      (w.trace.stream d).delivered ++ (w.session.inFlight d ++ (w.trace.stream d).lost) := by
  obtain ⟨c, hc, hm⟩ := matches_of_reaches h d
  rw [hm.inFlight_eq (World.sound_of_reaches h), hm.lost, hm.received, hm.delivered]
  exact (CopyLoop.exact_of_reaches hc).received

/-- **Relay fidelity.**  In each direction and in every state of every run: what
was delivered is a prefix of what was received; the rest is the content of the
pending write, and after it, once a write of the direction has failed, of the
failed one, and then the direction has nothing pending; a direction has one
read or one write pending at most; when it has a read, whatever its result, all
that was received has been delivered; nothing is read before the connect has
succeeded; and what was received is what arrived, up to a read whose handler has
not run yet. -/
theorem relay_fidelity (h : Reaches World.step (World.start now b ct it) w) (d : Dir) :
    (w.trace.stream d).delivered <+: (w.trace.stream d).received ∧
    (w.trace.stream d).received =
      (w.trace.stream d).delivered ++ (w.session.inFlight d ++ (w.trace.stream d).lost) ∧
    ((w.trace.stream d).lost ≠ [] → ∀ p ∈ w.session.pending, p.op.inLoop d = false) ∧
    count (Op.isRead d) w.session.pending + count (Op.isWrite d) w.session.pending ≤ 1 ∧
    (∀ st, ⟨.read d, st⟩ ∈ w.session.pending →
      (w.trace.stream d).received = (w.trace.stream d).delivered) ∧
    (w.trace.connected = false → (w.trace.stream d).received = [] ∧
      ∀ st, ⟨.read d, st⟩ ∉ w.session.pending) ∧
    (∀ n, ⟨.read d, .queued .success n⟩ ∈ w.session.pending →
      (w.trace.stream d).arrived = (w.trace.stream d).received ++ (w.session.buf d).take n) ∧
    ((∀ n, ⟨.read d, .queued .success n⟩ ∉ w.session.pending) →
      (w.trace.stream d).arrived = (w.trace.stream d).received) := by
  obtain ⟨c, hc, hm⟩ := matches_of_reaches h d
  have hw := World.sound_of_reaches h
  have hex := CopyLoop.exact_of_reaches hc
  have harr := arrives_of_reaches h d
  refine ⟨?_, received_of_reaches h d, fun hl p hp => hm.not_inLoop_of_lost hl hp, ?_,
    fun st hst => hm.delivered_of_read hex hst, ?_, harr.queued, harr.handled⟩
  · rw [hm.delivered, hm.received]
    exact hex.prefix
  · refine (count_add_count_le (fun op hr => ⟨Op.inLoop_of_isRead hr, ?_⟩)
      (fun _ => Op.inLoop_of_isWrite) _).trans (hw.loop d)
    cases op <;> first | rfl | cases hr
  · intro hv
    have hbc := beforeConnect_of_reaches h hv
    exact ⟨hbc.nothing d, fun st hst =>
      absurd (hbc.only d _ hst (by simp [Op.inLoop])) Op.noConfusion⟩

end Run

/-- A client sends `hi`, and the write of it to the backend is under way. -/
theorem relay_fidelity_hi : ∃ w, run World.step (World.start 0 0 1000 5000)
      [.session (.complete .connect .success), .session (.dispatch .connect .success 0),
        .session (.recv .up [104, 105]), .session (.dispatch (.read .up) .success 2),
        .session (.send .up 2 [] 1)] = some w ∧
    (w.trace.stream .up).received =
      (w.trace.stream .up).delivered ++ (w.session.inFlight .up ++ (w.trace.stream .up).lost) ∧
    count (Op.isRead .up) w.session.pending + count (Op.isWrite .up) w.session.pending ≤ 1 := by
  obtain ⟨w, hw⟩ := Option.isSome_iff_exists.mp (show (run World.step (World.start 0 0 1000 5000)
      [.session (.complete .connect .success), .session (.dispatch .connect .success 0),
        .session (.recv .up [104, 105]), .session (.dispatch (.read .up) .success 2),
        .session (.send .up 2 [] 1)]).isSome by decide)
  have h := relay_fidelity (reaches_of_run hw) .up
  exact ⟨w, hw, h.2.1, h.2.2.2.1⟩

/-- **After a failed write, unwritten bytes are in no pending write.**  The
client sends one byte and the write of it to the backend fails. -/
theorem unwritten_not_inFlight : ¬ ∀ (now b : Nat) (ct it : UInt32) (w : World),
    Reaches World.step (World.start now b ct it) w → ∀ d, (w.trace.stream d).received =
      (w.trace.stream d).delivered ++ w.session.inFlight d := by
  intro h
  let es : List World.Event :=
    [.session (.complete .connect .success), .session (.dispatch .connect .success 0),
      .session (.recv .up [104]), .session (.dispatch (.read .up) .success 1),
      .session (.complete (.write .up 1 []) (.other 32)),
      .session (.dispatch (.write .up 1 []) (.other 32) 0)]
  have hrun : (run World.step (World.start 0 0 1000 5000) es).map (fun w =>
      ((w.trace.stream .up).received, (w.trace.stream .up).delivered, w.session.inFlight .up)) =
      some ([104], [], []) := by decide
  obtain ⟨w, hw, hv⟩ := Option.map_eq_some_iff.mp hrun
  simp only [Prod.mk.injEq] at hv
  have := h 0 0 1000 5000 w (reaches_of_run hw) .up
  rw [hv.1, hv.2.1, hv.2.2] at this
  cases this

end BitBridge.Proxy
