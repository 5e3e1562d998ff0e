import BitBridge.Proxy.SessionInv

/-!
# A session over time

`World` is a session with a clock and a record of what went through it.  For
each direction `arrived` is what its reads took off the socket, `received` what
the handlers of completed reads were given, `delivered` what the handlers of
completed writes report as sent, and `lost` what a failed write had been given.
`lastIo` is the last time a byte left or entered either socket, and `connected`
says whether the connect has succeeded.
-/

namespace BitBridge.Proxy

open Proactor Steps

structure Stream where
  arrived : Bytes
  received : Bytes
  delivered : Bytes
  lost : Bytes

structure Trace where
  stream : Dir → Stream
  connected : Bool
  lastIo : Option Nat

namespace Trace

def empty : Trace := ⟨fun _ => ⟨[], [], [], []⟩, false, none⟩

def update (tr : Trace) (d : Dir) (f : Stream → Stream) : Trace :=
  { tr with stream := fun d' => if d' = d then f (tr.stream d') else tr.stream d' }

/-- What a turn of the session `s` adds to the record. -/
def record (tr : Trace) (now : Nat) (s : Session) : Session.Event → Trace
  | .complete .connect .success => { tr with connected := true }
  | .complete _ _ => tr
  | .recv d chunk =>
    { tr.update d fun x => { x with arrived := x.arrived ++ chunk } with lastIo := some now }
  | .send _ _ _ _ => { tr with lastIo := some now }
  | .dispatch (.read d) ec bytes =>
    if ec.failed then tr
    else tr.update d fun x => { x with received := x.received ++ (s.buf d).take bytes }
  | .dispatch (.write d bytes sent) ec _ =>
    if ec.failed then tr.update d fun x => { x with lost := x.lost ++ (s.buf d).take bytes }
    else tr.update d fun x => { x with delivered := x.delivered ++ sent }
  | .dispatch _ _ _ => tr

@[simp] theorem update_same (tr : Trace) (d : Dir) (f : Stream → Stream) :
    (tr.update d f).stream d = f (tr.stream d) := if_pos rfl

theorem update_other (tr : Trace) {d d' : Dir} (f : Stream → Stream) (h : d' ≠ d) :
    (tr.update d f).stream d' = tr.stream d' := if_neg h

theorem stream_recv (tr : Trace) (now : Nat) (s : Session) (d' : Dir) (chunk : Bytes) (d : Dir) :
    (tr.record now s (.recv d' chunk)).stream d =
      { tr.stream d with arrived := (tr.stream d).arrived ++ if d = d' then chunk else [] } := by
  by_cases h : d = d'
  · rw [record, if_pos h]
    exact if_pos h
  · rw [record, if_neg h, List.append_nil]
    exact if_neg h

theorem arrived_dispatch (tr : Trace) (now : Nat) (s : Session) (op : Op) (ec : ErrorCode)
    (n : Nat) (d : Dir) :
    ((tr.record now s (.dispatch op ec n)).stream d).arrived = (tr.stream d).arrived := by
  have hup : ∀ (d' : Dir) (f : Stream → Stream), (∀ x, (f x).arrived = x.arrived) →
      ((tr.update d' f).stream d).arrived = (tr.stream d).arrived := by
    intro d' f hf
    rw [update]
    dsimp only
    split
    · exact hf _
    · rfl
  cases op with
  | connectWait | idleWait | connect => rfl
  | read d' =>
    rw [record]
    split
    · rfl
    · exact hup d' _ fun _ => rfl
  | write d' bytes sent =>
    rw [record]
    split <;> exact hup d' _ fun _ => rfl

theorem received_dispatch (tr : Trace) (now : Nat) (s : Session) {op : Op} {ec : ErrorCode}
    (n : Nat) {d : Dir} (h : ¬ (op = .read d ∧ ec = .success)) :
    ((tr.record now s (.dispatch op ec n)).stream d).received = (tr.stream d).received := by
  cases op with
  | connectWait | idleWait | connect => rfl
  | read d' =>
    rw [record]
    split
    · rfl
    · next hec =>
      obtain rfl : ec = .success := ErrorCode.failed_eq_false.mp (by simpa using hec)
      have hd : d ≠ d' := fun hd => h ⟨by rw [hd], rfl⟩
      rw [update_other _ _ hd]
  | write d' bytes sent =>
    rw [record]
    split
    · rw [update]
      dsimp only
      split <;> rfl
    · rw [update]
      dsimp only
      split <;> rfl

end Trace

structure World where
  now : Nat
  session : Session
  trace : Trace

namespace World

inductive Event
  | tick
  | session (e : Session.Event)
  deriving DecidableEq, Repr

def step (w : World) : Event → Option World
  | .tick => some { w with now := w.now + 1 }
  | .session e => (w.session.step w.now e).map fun s =>
      { w with session := s, trace := w.trace.record w.now w.session e }

def start (now backend : Nat) (connectTimeoutMs idleTimeoutMs : UInt32) : World :=
  ⟨now, .started now backend connectTimeoutMs idleTimeoutMs, .empty⟩

theorem of_step_session {w v : World} {e : Session.Event} (h : w.step (.session e) = some v) :
    ∃ s, w.session.step w.now e = some s ∧
      v = { w with session := s, trace := w.trace.record w.now w.session e } := by
  obtain ⟨s, hs, rfl⟩ := Option.map_eq_some_iff.mp h
  exact ⟨s, hs, rfl⟩

structure Sound (w : World) : Prop where
  tidy : w.session.Tidy
  loop : ∀ d, count (Op.inLoop d) w.session.pending ≤ 1

theorem Sound.step {w v : World} {e : Event} (h : w.Sound) (hs : w.step e = some v) : v.Sound := by
  cases e with
  | tick =>
    obtain rfl := Option.some.inj hs
    exact ⟨h.tidy, h.loop⟩
  | session e =>
    obtain ⟨s, ht, rfl⟩ := of_step_session hs
    exact ⟨h.tidy.step ht, fun d => (Session.count_step_le ht d).trans (h.loop d)⟩

theorem sound_start (now b : Nat) (ct it : UInt32) : (start now b ct it).Sound :=
  ⟨Session.tidy_started now b ct it, fun d => (Session.count_started now b ct it d).le⟩

theorem sound_of_reaches {now b : Nat} {ct it : UInt32} {w : World}
    (h : Reaches step (start now b ct it) w) : w.Sound :=
  h.invariant (sound_start now b ct it) fun hi _ hs => hi.step hs

theorem idleTimeoutMs_of_reaches {now b : Nat} {ct it : UInt32} {w : World}
    (h : Reaches step (start now b ct it) w) : w.session.idleTimeoutMs = it := by
  refine h.invariant (I := fun w => w.session.idleTimeoutMs = it) rfl fun {w _ e} hi _ he => ?_
  cases e with
  | tick =>
    obtain rfl := Option.some.inj he
    exact hi
  | session e =>
    obtain ⟨s, hs, rfl⟩ := of_step_session he
    exact (Session.step_binding hs).2.trans hi

theorem Sound.not_inLoop_of_consume {w : World} (h : w.Sound) {op : Op} {ec : ErrorCode} {n : Nat}
    (hm : ⟨op, .queued ec n⟩ ∈ w.session.pending) {d : Dir} (hd : op.inLoop d)
    {p : Pending Op} (hp : p ∈ consume w.session.pending op ec n) : p.op.inLoop d = false := by
  have hc := count_consume (f := Op.inLoop d) hm
  have hl := h.loop d
  rw [if_pos hd] at hc
  exact not_mem_of_count_eq_zero (by omega) hp

end World

end BitBridge.Proxy
