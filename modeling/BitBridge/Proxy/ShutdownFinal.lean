import BitBridge.Proxy.World
import Mathlib.Algebra.BigOperators.Group.List.Basic
import Mathlib.Algebra.GroupWithZero.Nat

/-!
# What `Shutdown` leaves running

`Shutdown` cancels both timers and closes both sockets, so nothing waits when it
returns.  A connect or a client-to-backend write that was queued with success by
then still runs its handler, and that handler calls `readFromClient`, which arms
the idle timer without a look at `m_shuttingDown`; no later `Shutdown` cancels
that wait.

* `shutdown_final`: **`Shutdown` is final exactly when no such completion is
  queued**, or there is no idle timeout.  It is final when from then on no timer
  is armed, nothing waits on the outside world, and each handler that runs uses
  up a bounded budget, so that the session is released once what is queued has
  been delivered.
* `armed_after_shutdown`: an end of stream from the backend that is delivered
  before the success of a write leaves the idle timer armed.
-/

namespace BitBridge.Proxy

open Proactor Steps

namespace Op

/-- The operations whose handlers, told of success, call `ReadFromClient`. -/
def resumes : Op → Bool
  | .connect => true
  | .write .up _ _ => true
  | _ => false

def isTimer : Op → Bool
  | .connectWait => true
  | .idleWait => true
  | _ => false

/-- What the handler of a completed operation starts when it finds no timeout. -/
def starts : Op → ErrorCode → Nat → List Op
  | .connect, .success, _ => [.read .up, .read .down]
  | .read d, .success, bytes => [.write d bytes []]
  | .write d _ _, .success, _ => [.read d]
  | _, _, _ => []

theorem not_isTimer_of_resumes {op : Op} (h : op.resumes) : op.isTimer = false := by
  cases op <;> first | rfl | cases h

theorem isTimer_of_isConnectWait {op : Op} (h : op.isConnectWait) : op.isTimer := by
  cases op <;> first | rfl | cases h

theorem isTimer_of_isIdleWait {op : Op} (h : op.isIdleWait) : op.isTimer := by
  cases op <;> first | rfl | cases h

end Op

/-- How many handlers a queued operation can lead to on closed sockets. -/
def weight (p : Pending Op) : Nat :=
  match p.op, p.status with
  | .connect, .queued .success _ => 3
  | .read _, .queued .success _ => 2
  | .write _ _ _, .queued .success _ => 2
  | _, _ => 1

def totalWeight (l : List (Pending Op)) : Nat := (l.map weight).sum

theorem weight_pos (p : Pending Op) : 1 ≤ weight p := by
  unfold weight
  split <;> omega

theorem weight_le (p : Pending Op) : weight p ≤ 3 := by
  unfold weight
  split <;> omega

theorem length_le_totalWeight (l : List (Pending Op)) : l.length ≤ totalWeight l := by
  induction l with
  | nil => exact le_rfl
  | cons p l ih =>
    have := weight_pos p
    simp only [totalWeight, List.map_cons, List.sum_cons, List.length_cons] at ih ⊢
    omega

theorem totalWeight_le (l : List (Pending Op)) : totalWeight l ≤ 3 * l.length := by
  induction l with
  | nil => exact le_rfl
  | cons p l ih =>
    have := weight_le p
    simp only [totalWeight, List.map_cons, List.sum_cons, List.length_cons] at ih ⊢
    omega

theorem totalWeight_append (l₁ l₂ : List (Pending Op)) :
    totalWeight (l₁ ++ l₂) = totalWeight l₁ + totalWeight l₂ := by
  simp [totalWeight]

theorem totalWeight_consume {l : List (Pending Op)} {op : Op} {ec : ErrorCode} {n : Nat}
    (h : ⟨op, .queued ec n⟩ ∈ l) :
    totalWeight (consume l op ec n) + weight ⟨op, .queued ec n⟩ = totalWeight l := by
  have := ((List.perm_cons_erase h).map weight).sum_eq
  rw [List.map_cons, List.sum_cons] at this
  rw [totalWeight, totalWeight, this, Nat.add_comm]
  rfl

/-- What a handler starts on closed sockets weighs less than its operation. -/
theorem totalWeight_starts_lt (op : Op) (ec : ErrorCode) (n : Nat) :
    totalWeight ((op.starts ec n).map fun o => ⟨o, .queued .badDescriptor 0⟩) <
      weight ⟨op, .queued ec n⟩ := by
  cases op <;> cases ec <;> simp [Op.starts, totalWeight, weight]

namespace Session

variable {s t : Session} {now : Nat}

def Armed (s : Session) : Prop :=
  ⟨.connectWait, .waiting⟩ ∈ s.pending ∨ ⟨.idleWait, .waiting⟩ ∈ s.pending

/-- Is a completion queued whose handler will call `ReadFromClient`? -/
def willResume (s : Session) : Bool :=
  s.pending.any fun p => p.op.resumes && match p.status with
    | .queued .success _ => true
    | _ => false

theorem willResume_eq_true : s.willResume = true ↔
    ∃ op n, ⟨op, .queued .success n⟩ ∈ s.pending ∧ op.resumes := by
  rw [willResume, List.any_eq_true]
  constructor
  · rintro ⟨⟨op, st⟩, hp, hr⟩
    rw [Bool.and_eq_true] at hr
    obtain ⟨hop, hst⟩ := hr
    rcases st with _ | ⟨ec, n⟩
    · cases hst
    · cases ec <;> first | exact ⟨op, n, hp, hop⟩ | cases hst
  · rintro ⟨op, n, hp, hop⟩
    exact ⟨_, hp, by simp [hop]⟩

/-! ### Handlers of a session that has shut down -/

theorem shuttingDown_shutdown (s : Session) : s.shutdown.shuttingDown = true := by
  unfold shutdown
  split
  · assumption
  · rfl

@[simp] theorem shuttingDown_readNext (s : Session) (now : Nat) (d : Dir) :
    (s.readNext now d).shuttingDown = s.shuttingDown := by
  cases d
  · rw [readNext, readFromClient]
    split <;> rfl
  · rfl

theorem shuttingDown_handle (s : Session) (now : Nat) (op : Op) (ec : ErrorCode) (n : Nat) :
    (s.handle now op ec n).shuttingDown = true ∨
      (s.handle now op ec n).shuttingDown = s.shuttingDown := by
  cases op with
  | connectWait | idleWait =>
    rw [handle]
    split
    · exact Or.inr rfl
    · exact Or.inl (shuttingDown_shutdown s)
  | connect =>
    rw [handle, onConnected]
    split
    · exact Or.inl (shuttingDown_shutdown _)
    · exact Or.inr (shuttingDown_readNext _ now .up)
  | read d =>
    rw [handle]
    split
    · exact Or.inl (shuttingDown_shutdown s)
    · exact Or.inr rfl
  | write d bytes sent =>
    rw [handle]
    split
    · exact Or.inl (shuttingDown_shutdown s)
    · exact Or.inr (shuttingDown_readNext s now d)

theorem shuttingDown_handle_success (s : Session) (now : Nat) {op : Op} (n : Nat)
    (h : op.isTimer = false) : (s.handle now op .success n).shuttingDown = s.shuttingDown := by
  cases op with
  | connect => exact shuttingDown_readNext s.cancelConnectTimer now .up
  | read d => rfl
  | write d bytes sent => exact shuttingDown_readNext s now d
  | _ => cases h

theorem shuttingDown_step {e : Event} (h : step now s e = some t) (hd : s.shuttingDown = true) :
    t.shuttingDown = true := by
  cases e with
  | complete op ec => obtain ⟨-, -, rfl⟩ := of_step_complete h; exact hd
  | recv d chunk => obtain ⟨-, -, -, rfl⟩ := of_step_recv h; cases d <;> exact hd
  | send d bytes sent k => obtain ⟨-, -, -, rfl⟩ := of_step_send h; exact hd
  | dispatch op ec n =>
    obtain ⟨-, rfl⟩ := of_step_dispatch h
    rcases shuttingDown_handle (s.dequeue op ec n) now op ec n with h1 | h1
    · exact h1
    · exact h1.trans hd

theorem asyncReadSome_closed (h : s.Tidy) (hd : s.shuttingDown) (d : Dir) :
    (s.asyncReadSome d).pending = s.pending ++ [⟨.read d, .queued .badDescriptor 0⟩] := by
  rw [asyncReadSome, postOn_pending, h.sockets, hd]
  rfl

/-- What is left of a session after `Shutdown`: everything is queued, and no
handler will arm the idle timer. -/
structure Finished (s : Session) : Prop where
  tidy : s.Tidy
  down : s.shuttingDown = true
  settled : ∀ p ∈ s.pending, p.status ≠ .waiting
  quiet : s.idleTimeoutMs = 0 ∨ s.willResume = false

/-- On closed sockets, and with no idle timer to arm, a handler starts
operations that have failed already. -/
theorem handle_pending_of_down (now : Nat) (h : s.Tidy) (hd : s.shuttingDown = true)
    (hs : ∀ p ∈ s.pending, p.status ≠ .waiting) {op : Op} {ec : ErrorCode} (n : Nat)
    (hq : s.idleTimeoutMs = 0 ∨ ¬ (op.resumes ∧ ec = .success)) :
    (s.handle now op ec n).pending =
      s.pending ++ (op.starts ec n).map fun o => ⟨o, .queued .badDescriptor 0⟩ := by
  have hshut : ∀ s : Session, s.shuttingDown = true → s.shutdown.pending = s.pending :=
    fun s hd => by rw [shutdown_pending, if_pos hd]
  have hcancel : s.cancelConnectTimer.pending = s.pending := cancel_eq_self hs
  have hup : ∀ s : Session, s.idleTimeoutMs = 0 → s.readFromClient now = s.asyncReadSome .up :=
    fun s h0 => if_neg (by rw [h0]; decide)
  cases hec : ec.failed with
  | true =>
    have hst : op.starts ec n = [] := by cases op <;> cases ec <;> first | rfl | cases hec
    rw [hst, List.map_nil, List.append_nil]
    cases op with
    | connectWait | idleWait => rw [handle, if_pos hec]
    | connect => rw [handle, onConnected, if_pos hec, hshut s.cancelConnectTimer hd, hcancel]
    | read d => rw [handle, if_pos hec, hshut s hd]
    | write d bytes sent => rw [handle, if_pos hec, hshut s hd]
  | false =>
    obtain rfl := ErrorCode.failed_eq_false.mp hec
    cases op with
    | connectWait | idleWait =>
      rw [handle, if_neg (by simp), hshut s hd]
      exact (List.append_nil _).symm
    | connect =>
      have h0 : s.idleTimeoutMs = 0 := hq.resolve_right fun hn => hn ⟨rfl, rfl⟩
      have ht := h.cancelConnectTimer
      rw [handle, onConnected, if_neg (by simp), hup s.cancelConnectTimer h0, readFromBackend,
        asyncReadSome_closed (s := s.cancelConnectTimer.asyncReadSome .up) (ht.postOn _ _) hd,
        asyncReadSome_closed ht hd, hcancel, List.append_assoc]
      rfl
    | read d =>
      rw [handle, if_neg (by simp), asyncWrite, postOn_pending, h.sockets, hd]
      rfl
    | write d bytes sent =>
      rw [handle, if_neg (by simp)]
      cases d with
      | down => exact asyncReadSome_closed h hd .down
      | up =>
        have h0 : s.idleTimeoutMs = 0 := hq.resolve_right fun hn => hn ⟨rfl, rfl⟩
        rw [readNext, hup s h0, asyncReadSome_closed h hd]
        rfl

/-- **A finished session only delivers what is queued**, and each handler lowers
the weight of what is left. -/
theorem Finished.step {e : Event} (h : s.Finished) (he : step now s e = some t) :
    t.Finished ∧ totalWeight t.pending + 1 ≤ totalWeight s.pending := by
  cases e with
  | complete op ec => exact absurd rfl (h.settled _ (of_step_complete he).1)
  | recv d chunk => exact absurd rfl (h.settled _ (of_step_recv he).1)
  | send d bytes sent k => exact absurd rfl (h.settled _ (of_step_send he).1)
  | dispatch op ec n =>
    have htidy := h.tidy.step he
    have hbind := step_binding he
    have hdown := shuttingDown_step he h.down
    obtain ⟨hm, rfl⟩ := of_step_dispatch he
    have hq : s.idleTimeoutMs = 0 ∨ ¬ (op.resumes ∧ ec = .success) := by
      refine h.quiet.imp_right ?_
      intro hq hn
      obtain ⟨hr, rfl⟩ := hn
      rw [willResume_eq_true.mpr ⟨op, n, hm, hr⟩] at hq
      cases hq
    have hpend := handle_pending_of_down now (h.tidy.dequeue op ec n) h.down
      (fun p hp => h.settled p (mem_of_mem_consume hp)) n hq
    refine ⟨⟨htidy, ?_, ?_, ?_⟩, ?_⟩
    · exact hdown
    · intro p hp
      rw [hpend] at hp
      rcases List.mem_append.mp hp with hp | hp
      · exact h.settled p (mem_of_mem_consume hp)
      · obtain ⟨o, -, rfl⟩ := List.mem_map.mp hp
        exact Status.noConfusion
    · refine h.quiet.imp (fun h0 => hbind.2.trans h0) ?_
      intro hq
      by_contra hr
      obtain ⟨o, m, ho, hres⟩ := willResume_eq_true.mp (by simpa using hr)
      rw [hpend] at ho
      rcases List.mem_append.mp ho with ho | ho
      · rw [willResume_eq_true.mpr ⟨o, m, mem_of_mem_consume ho, hres⟩] at hq
        cases hq
      · obtain ⟨o', -, ho'⟩ := List.mem_map.mp ho
        cases ho'
    · have hlt := totalWeight_starts_lt op ec n
      have hc := totalWeight_consume hm
      rw [hpend, totalWeight_append, dequeue_pending]
      omega

theorem handle_eq_shutdown {op : Op} {ec : ErrorCode} {n : Nat} (h0 : s.shuttingDown = false)
    (h1 : (s.handle now op ec n).shuttingDown = true) :
    ∃ u : Session, u.shuttingDown = false ∧ s.handle now op ec n = u.shutdown := by
  have hno : ∀ u : Session, u.shuttingDown = s.shuttingDown → u.shuttingDown = true → False :=
    fun u hu h => by rw [hu, h0] at h; cases h
  cases op with
  | connectWait | idleWait =>
    rw [handle] at h1 ⊢
    split at h1
    · exact (hno s rfl h1).elim
    · next hec => exact ⟨s, h0, if_neg hec⟩
  | connect =>
    rw [handle, onConnected] at h1 ⊢
    split at h1
    · next hec => exact ⟨s.cancelConnectTimer, h0, if_pos hec⟩
    · exact (hno _ (shuttingDown_readNext s.cancelConnectTimer now .up) h1).elim
  | read d =>
    rw [handle] at h1 ⊢
    split at h1
    · next hec => exact ⟨s, h0, if_pos hec⟩
    · exact (hno _ rfl h1).elim
  | write d bytes sent =>
    rw [handle] at h1 ⊢
    split at h1
    · next hec => exact ⟨s, h0, if_pos hec⟩
    · exact (hno _ (shuttingDown_readNext s now d) h1).elim

theorem dispatch_of_shutdown {e : Event} (he : step now s e = some t)
    (h0 : s.shuttingDown = false) (h1 : t.shuttingDown = true) :
    ∃ op ec n, e = .dispatch op ec n := by
  have hno : ∀ b : Bool, b = s.shuttingDown → b = true → False :=
    fun b hb h => by rw [hb, h0] at h; cases h
  cases e with
  | complete op ec => obtain ⟨-, -, rfl⟩ := of_step_complete he; exact (hno _ rfl h1).elim
  | recv d chunk =>
    obtain ⟨-, -, -, rfl⟩ := of_step_recv he
    cases d <;> exact (hno _ rfl h1).elim
  | send d bytes sent k => obtain ⟨-, -, -, rfl⟩ := of_step_send he; exact (hno _ rfl h1).elim
  | dispatch op ec n => exact ⟨op, ec, n, rfl⟩

/-- `Shutdown` finishes the session, unless a completion is queued that resumes
the client's loop. -/
theorem finished_of_shutdown {e : Event} (hs : s.Tidy) (he : step now s e = some t)
    (h0 : s.shuttingDown = false) (h1 : t.shuttingDown = true)
    (hq : s.idleTimeoutMs = 0 ∨ s.willResume = false) : t.Finished := by
  have htidy := hs.step he
  have hbind := step_binding he
  obtain ⟨op, ec, n, rfl⟩ := dispatch_of_shutdown he h0 h1
  obtain ⟨-, ht⟩ := of_step_dispatch he
  refine ⟨htidy, h1, ?_, hq.imp (fun hz => hbind.2.trans hz) ?_⟩
  · obtain ⟨u, hu, hsh⟩ := handle_eq_shutdown (s := s.dequeue op ec n) h0 (ht ▸ h1)
    intro p hp
    rw [ht, hsh, shutdown_pending, hu, if_neg Bool.false_ne_true] at hp
    exact not_waiting_of_mem_cancel hp rfl
  · intro hq
    by_contra hr
    obtain ⟨o, m, ho, hres⟩ := willResume_eq_true.mp (by simpa using hr)
    have hold : ⟨o, .queued .success m⟩ ∈ s.pending := by
      rw [ht] at ho
      rcases mem_handle ho with ⟨⟨o', st⟩, hm, rfl, hst | hst⟩ | ⟨-, hf, -⟩
      · cases hst
        exact mem_of_mem_consume hm
      · exact absurd rfl (hst m)
      · exact absurd rfl (hf m)
    rw [willResume_eq_true.mpr ⟨o, m, hold, hres⟩] at hq
    cases hq

theorem armed_of_resumes (now : Nat) {op : Op} (n : Nat) (hop : op.resumes)
    (hT : 0 < s.idleTimeoutMs) :
    (s.handle now op .success n).Armed := by
  have hup : ∀ u : Session, 0 < u.idleTimeoutMs →
      ⟨.idleWait, .waiting⟩ ∈ (u.readFromClient now).pending := by
    intro u hu
    rw [readFromClient, if_pos hu]
    exact List.mem_append_left _ (List.mem_append_right _ (List.mem_singleton_self _))
  refine Or.inr ?_
  cases op with
  | connect => exact List.mem_append_left _ (hup s.cancelConnectTimer hT)
  | write d bytes sent =>
    cases d with
    | up => exact hup s hT
    | down => cases hop
  | _ => cases hop

end Session

/-! ### Runs after `Shutdown` -/

def turns (es : List World.Event) : Nat := es.countP fun e => e ≠ .tick

/-- From `v` on no timer is armed and nothing waits, and a run has at most as
many turns as it takes to deliver what is queued, so the session is released. -/
def ShutdownIsFinal (v : World) : Prop :=
  ∀ es u, run World.step v es = some u → u.session.shuttingDown = true ∧ ¬ u.session.Armed ∧
    (∀ p ∈ u.session.pending, p.status ≠ .waiting) ∧
    turns es + u.session.pending.length ≤ 3 * v.session.pending.length

theorem finished_run {es : List World.Event} : ∀ {v u : World}, v.session.Finished →
    run World.step v es = some u → u.session.Finished ∧
      turns es + totalWeight u.session.pending ≤ totalWeight v.session.pending := by
  induction es with
  | nil =>
    intro v u hv h
    obtain rfl := Option.some.inj h
    exact ⟨hv, (Nat.zero_add _).le⟩
  | cons e es ih =>
    intro v u hv h
    rw [run, Option.bind_eq_some_iff] at h
    obtain ⟨m, hm, hr⟩ := h
    cases e with
    | tick =>
      obtain rfl := Option.some.inj hm
      exact ih (v := { v with now := v.now + 1 }) hv hr
    | session e =>
      obtain ⟨s, hs, rfl⟩ := World.of_step_session hm
      obtain ⟨hf, hw⟩ := hv.step hs
      obtain ⟨hu, hle⟩ := ih hf hr
      refine ⟨hu, ?_⟩
      rw [turns, List.countP_cons_of_pos (by simp)]
      rw [turns] at hle
      dsimp only at hle
      omega

/-- The session can shut down here for good: it has no idle timeout, or no
completion is queued whose handler resumes the client's loop. -/
def CanEnd (s : Session) : Prop := s.idleTimeoutMs = 0 ∨ s.willResume = false

theorem shutdownIsFinal_iff {now b : Nat} {ct it : UInt32} {w v : World} {e : World.Event}
    (h : Reaches World.step (World.start now b ct it) w) (he : w.step e = some v)
    (h0 : w.session.shuttingDown = false) (h1 : v.session.shuttingDown = true) :
    ShutdownIsFinal v ↔ CanEnd w.session := by
  cases e with
  | tick =>
    obtain rfl := Option.some.inj he
    rw [h0] at h1
    cases h1
  | session e =>
    obtain ⟨s, hs, rfl⟩ := World.of_step_session he
    constructor
    · intro hfin
      by_contra hn
      rw [CanEnd, not_or, Bool.not_eq_false] at hn
      obtain ⟨hT, hr⟩ := hn
      obtain ⟨o, m, ho, hres⟩ := Session.willResume_eq_true.mp hr
      obtain ⟨op, ec, n, rfl⟩ := Session.dispatch_of_shutdown hs h0 h1
      have hbind := Session.step_binding hs
      obtain ⟨hm, rfl⟩ := Session.of_step_dispatch hs
      -- the handler that shuts down is not the one that would resume the loop
      have hne : (⟨o, .queued .success m⟩ : Pending Op) ≠ ⟨op, .queued ec n⟩ := by
        rintro heq
        cases heq
        rw [Session.shuttingDown_handle_success _ _ _ (Op.not_isTimer_of_resumes hres)] at h1
        exact absurd (h1.symm.trans h0) (by decide)
      have ho' : ⟨o, .queued .success m⟩ ∈
          ((w.session.dequeue op ec n).handle w.now op ec n).pending :=
        Session.mem_handle_of_queued ((List.mem_erase_of_ne hne).mpr ho)
      have hstep : ((w.session.dequeue op ec n).handle w.now op ec n).step w.now
          (.dispatch o .success m) =
            some ((((w.session.dequeue op ec n).handle w.now op ec n).dequeue
              o .success m).handle w.now o .success m) := if_pos ho'
      have harm := Session.armed_of_resumes w.now
        (s := ((w.session.dequeue op ec n).handle w.now op ec n).dequeue o .success m) m hres
        (show 0 < ((w.session.dequeue op ec n).handle w.now op ec n).idleTimeoutMs by
          rw [hbind.2]
          exact UInt32.pos_iff_ne_zero.mpr hT)
      exact (hfin [.session (.dispatch o .success m)] _
        (by simp only [run, World.step, hstep]; rfl)).2.1 harm
    · intro hq es u hu
      have hf := Session.finished_of_shutdown (World.sound_of_reaches h).tidy hs h0 h1 hq
      obtain ⟨hfu, hle⟩ := finished_run (v := ⟨w.now, s, _⟩) hf hu
      refine ⟨hfu.down, ?_, hfu.settled, ?_⟩
      · intro ha
        exact ha.elim (fun hm => hfu.settled _ hm rfl) fun hm => hfu.settled _ hm rfl
      · have h2 := length_le_totalWeight u.session.pending
        have h3 := totalWeight_le s.pending
        dsimp only at hle ⊢
        omega

def CleanShutdown (w : World) (e : World.Event) : Prop :=
  ∀ v, w.step e = some v → w.session.shuttingDown = false → v.session.shuttingDown = true →
    CanEnd w.session

theorem finished_of_clean {w v : World} (h : ReachesIn World.step CleanShutdown w v)
    (hw : w.Sound) (h0 : w.session.shuttingDown = false) :
    v.session.shuttingDown = true → v.session.Finished := by
  suffices hv : v.Sound ∧ (v.session.shuttingDown = true → v.session.Finished) from hv.2
  refine h.invariant (I := fun v => v.Sound ∧ (v.session.shuttingDown = true →
    v.session.Finished)) ⟨hw, fun h1 => absurd (h0.symm.trans h1) (by decide)⟩ ?_
  rintro t u e ⟨ht, hf⟩ hok he
  refine ⟨ht.step he, ?_⟩
  intro h1
  cases e with
  | tick =>
    obtain rfl := Option.some.inj he
    exact hf h1
  | session e =>
    obtain ⟨s, hs, rfl⟩ := World.of_step_session he
    cases hd : t.session.shuttingDown with
    | true => exact ((hf hd).step hs).1
    | false => exact Session.finished_of_shutdown ht.tidy hs hd h1 (hok _ he hd h1)

/-- **When `Shutdown` is final.**  In every run that shuts down only where the
session can end, no timer is armed once `Shutdown` has run, and nothing waits.
In every run at all, from the turn in which the session shuts down, `Shutdown`
is final exactly when the session can end there. -/
theorem shutdown_final (now b : Nat) (ct it : UInt32) :
    (∀ w, ReachesIn World.step CleanShutdown (World.start now b ct it) w →
      w.session.shuttingDown = true →
        ¬ w.session.Armed ∧ ∀ p ∈ w.session.pending, p.status ≠ .waiting) ∧
    ∀ w v e, Reaches World.step (World.start now b ct it) w → w.step e = some v →
      w.session.shuttingDown = false → v.session.shuttingDown = true →
        (ShutdownIsFinal v ↔ CanEnd w.session) := by
  refine ⟨?_, fun w v e h he h0 h1 => shutdownIsFinal_iff h he h0 h1⟩
  intro w h h1
  have hf := finished_of_clean h (World.sound_start now b ct it) rfl h1
  exact ⟨fun ha => ha.elim (fun hm => hf.settled _ hm rfl) fun hm => hf.settled _ hm rfl,
    hf.settled⟩

/-- The connect fails with nothing else queued, and `Shutdown` is final. -/
theorem shutdown_final_refused : ∃ v, run World.step (World.start 0 0 1000 5000)
      [.session (.complete .connect (.other 111)), .session (.dispatch .connect (.other 111) 0)] =
        some v ∧ ShutdownIsFinal v := by
  have hw : run World.step (World.start 0 0 1000 5000)
      [.session (.complete .connect (.other 111))] = some ⟨0, { Session.started 0 0 1000 5000 with
        pending := [⟨.connectWait, .waiting⟩, ⟨.connect, .queued (.other 111) 0⟩] }, .empty⟩ := rfl
  exact ⟨_, rfl, ((shutdown_final 0 0 1000 5000).2 _ _
    (.session (.dispatch .connect (.other 111) 0)) (reaches_of_run hw) rfl rfl rfl).mpr
      (Or.inr rfl)⟩

/-- **A wait outlives `Shutdown`.**  The client's data and the backend's end of
stream are queued together; the write of the data completes, the end of stream
shuts the session down, and the handler of the write arms the idle timer. -/
theorem armed_after_shutdown : ¬ ∀ (now b : Nat) (ct it : UInt32) (w : World),
    Reaches World.step (World.start now b ct it) w → w.session.shuttingDown = true →
      ¬ w.session.Armed := by
  intro h
  let es : List World.Event :=
    [.session (.complete .connect .success), .session (.dispatch .connect .success 0),
      .session (.recv .up [104]), .session (.complete (.read .down) .eof),
      .session (.dispatch (.read .up) .success 1), .session (.send .up 1 [] 1),
      .session (.complete (.write .up 1 [104]) .success),
      .session (.dispatch (.read .down) .eof 0),
      .session (.dispatch (.write .up 1 [104]) .success 0)]
  have hrun : (run World.step (World.start 0 0 1000 5000) es).map (fun w =>
      (w.session.shuttingDown, decide (⟨.idleWait, .waiting⟩ ∈ w.session.pending))) =
      some (true, true) := by decide
  obtain ⟨w, hw, hv⟩ := Option.map_eq_some_iff.mp hrun
  simp only [Prod.mk.injEq, decide_eq_true_eq] at hv
  exact h 0 0 1000 5000 w (reaches_of_run hw) hv.1 (Or.inr hv.2)

end BitBridge.Proxy
