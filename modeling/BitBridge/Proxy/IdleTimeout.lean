import BitBridge.Proxy.World

/-!
# What the idle timer measures

`readFromClient` restarts the idle timer, and nothing else does.  It runs when
the connect succeeds and when a client-to-backend write has completed, so the
timer measures the time since then: bytes from the backend do not touch it, nor
do bytes from the client whose write is not done.

* `idle_timeout`: **in every run in which no byte moves while a wait that will
  expire is armed, the idle timer shuts down idle sessions only**; and a byte
  that moves then makes the timer cut a session that is not idle.
* `idle_cuts_download`: a session that relays from the backend all the time is
  cut.
-/

namespace BitBridge.Proxy

open Proactor Steps

namespace World

/-- The idle timer's handler is queued and will shut the session down. -/
def IdleCut (w : World) : Prop :=
  w.session.shuttingDown = false ∧ ∃ n, ⟨.idleWait, .queued .success n⟩ ∈ w.session.pending

/-- No byte was read from or written to either socket for `idleTimeoutMs`. -/
def Idle (w : World) : Prop :=
  ∀ t, w.trace.lastIo = some t → t + w.session.idleTimeoutMs.toNat ≤ w.now

/-- A step that the idle timer tells apart from traffic: when its wait expires,
no byte has moved since it was armed, and no byte moves once it has expired. -/
def TimerSees (w : World) : Event → Prop
  | .session (.complete .idleWait _) =>
    ∀ t, w.trace.lastIo = some t → t + w.session.idleTimeoutMs.toNat ≤ w.session.idleExpiry
  | .session (.recv _ _) => ∀ n, ⟨.idleWait, .queued .success n⟩ ∉ w.session.pending
  | .session (.send _ _ _ _) => ∀ n, ⟨.idleWait, .queued .success n⟩ ∉ w.session.pending
  | _ => True

theorem lastIo_dispatch (tr : Trace) (now : Nat) (s : Session) (op : Op) (ec : ErrorCode)
    (n : Nat) : (tr.record now s (.dispatch op ec n)).lastIo = tr.lastIo := by
  cases op with
  | read d => rw [Trace.record]; split <;> rfl
  | write d bytes sent => rw [Trace.record]; split <;> rfl
  | _ => rfl

theorem lastIo_complete (tr : Trace) (now : Nat) (s : Session) (op : Op) (ec : ErrorCode) :
    (tr.record now s (.complete op ec)).lastIo = tr.lastIo := by
  cases op <;> cases ec <;> rfl

/-- An expired wait that is queued finds the session idle. -/
def ExpiredIdle (w : World) : Prop :=
  (∃ n, ⟨.idleWait, .queued .success n⟩ ∈ w.session.pending) → w.Idle

theorem ExpiredIdle.step {w v : World} {e : Event} (h : w.ExpiredIdle) (hok : w.TimerSees e)
    (he : w.step e = some v) : v.ExpiredIdle := by
  cases e with
  | tick =>
    obtain rfl := Option.some.inj he
    exact fun hx t ht => (h hx t ht).trans (Nat.le_succ _)
  | session e =>
    obtain ⟨s, hs, rfl⟩ := of_step_session he
    have hT := (Session.step_binding hs).2
    rintro ⟨n, hn⟩ t ht
    dsimp only at ht hn ⊢
    rw [hT]
    cases e with
    | complete op ec =>
      rw [lastIo_complete] at ht
      obtain ⟨-, hmay, rfl⟩ := Session.of_step_complete hs
      rcases mem_resolve hn with hn | hn
      · exact h ⟨n, hn⟩ t ht
      · cases hn
        have hexp : w.session.idleExpiry ≤ w.now := by simpa [Session.mayComplete] using hmay
        exact (hok t ht).trans hexp
    | recv d chunk =>
      obtain ⟨-, -, -, rfl⟩ := Session.of_step_recv hs
      rcases mem_resolve hn with hn | hn
      · exact absurd hn (hok n)
      · cases hn
    | send d bytes sent k =>
      obtain ⟨-, -, -, rfl⟩ := Session.of_step_send hs
      rcases List.mem_append.mp hn with hn | hn
      · exact absurd (List.mem_of_mem_erase hn) (hok n)
      · simp at hn
    | dispatch op ec m =>
      rw [lastIo_dispatch] at ht
      obtain ⟨-, rfl⟩ := Session.of_step_dispatch hs
      refine h ⟨n, ?_⟩ t ht
      rcases Session.mem_handle hn with ⟨⟨o, st⟩, hq, rfl, hst | hst⟩ | ⟨-, hf, -⟩
      · cases hst
        exact mem_of_mem_consume hq
      · exact absurd rfl (hst n)
      · exact absurd rfl (hf n)

theorem ExpiredIdle.idle_of_idleCut {w : World} (h : w.ExpiredIdle) (hc : w.IdleCut) : w.Idle :=
  h hc.2

theorem not_idle_of_lastIo {w : World} {t : Nat} (ht : w.trace.lastIo = some t)
    (hlt : w.now < t + w.session.idleTimeoutMs.toNat) : ¬ w.Idle :=
  fun h => absurd (h t ht) (by omega)

/-- The other direction of `ExpiredIdle.step`, for a timer that expires on time. -/
theorem not_idle_of_not_timerSees {w v : World} {e : Event} (hT : 0 < w.session.idleTimeoutMs)
    (hsd : w.session.shuttingDown = false)
    (hexp : ∀ ec, e = .session (.complete .idleWait ec) → w.now = w.session.idleExpiry)
    (he : w.step e = some v) (hn : ¬ w.TimerSees e) : v.IdleCut ∧ ¬ v.Idle := by
  have hT : 0 < w.session.idleTimeoutMs.toNat := UInt32.lt_iff_toNat_lt.mp hT
  cases e with
  | tick => exact absurd trivial hn
  | session e =>
    obtain ⟨s, hs, rfl⟩ := of_step_session he
    have hTs := (Session.step_binding hs).2
    cases e with
    | complete op ec =>
      cases op with
      | idleWait =>
        obtain ⟨hm, hmay, rfl⟩ := Session.of_step_complete hs
        obtain ⟨rfl, -⟩ : ec = .success ∧ _ := by simpa [Session.mayComplete] using hmay
        obtain ⟨t, ht, hlt⟩ : ∃ t, w.trace.lastIo = some t ∧
            w.session.idleExpiry < t + w.session.idleTimeoutMs.toNat := by
          simpa [TimerSees] using hn
        refine ⟨⟨hsd, 0, ?_⟩, not_idle_of_lastIo (t := t) ?_ ?_⟩
        · exact List.mem_append_right _ (List.mem_singleton_self _)
        · exact ht
        · exact (hexp _ rfl).trans_lt hlt
      | _ => exact absurd trivial hn
    | recv d chunk =>
      obtain ⟨n, hq⟩ : ∃ n, ⟨.idleWait, .queued .success n⟩ ∈ w.session.pending := by
        simpa [TimerSees] using hn
      obtain ⟨-, -, -, rfl⟩ := Session.of_step_recv hs
      refine ⟨⟨?_, n, ?_⟩, not_idle_of_lastIo (t := w.now) rfl ?_⟩
      · cases d <;> exact hsd
      · exact List.mem_append_left _ ((List.mem_erase_of_ne (by simp)).mpr hq)
      · rw [hTs]
        dsimp only
        omega
    | send d bytes sent k =>
      obtain ⟨n, hq⟩ : ∃ n, ⟨.idleWait, .queued .success n⟩ ∈ w.session.pending := by
        simpa [TimerSees] using hn
      obtain ⟨-, -, -, rfl⟩ := Session.of_step_send hs
      refine ⟨⟨hsd, n, ?_⟩, not_idle_of_lastIo (t := w.now) rfl ?_⟩
      · exact List.mem_append_left _ ((List.mem_erase_of_ne (by simp)).mpr hq)
      · dsimp only
        omega
    | dispatch op ec m => exact absurd trivial hn

end World

section Run

variable (now b : Nat) (ct it : UInt32)

/-- **What the idle timer measures.**  In every run that the timer tells apart
from traffic, it shuts down idle sessions only.  And in every run at all, a
state in which it would shut down idle sessions only is followed by another
exactly when the timer tells the step apart, if it expires on time. -/
theorem idle_timeout (hit : 0 < it) :
    (∀ w, ReachesIn World.step World.TimerSees (World.start now b ct it) w →
      w.IdleCut → w.Idle) ∧
    ∀ w v e, Reaches World.step (World.start now b ct it) w → w.step e = some v →
      w.session.shuttingDown = false → (w.IdleCut → w.Idle) →
      (∀ ec, e = .session (.complete .idleWait ec) → w.now = w.session.idleExpiry) →
        ((v.IdleCut → v.Idle) ↔ w.TimerSees e) := by
  constructor
  · intro w h hc
    refine World.ExpiredIdle.idle_of_idleCut ?_ hc
    refine h.invariant (I := World.ExpiredIdle) ?_ fun hi hok he => hi.step hok he
    rintro ⟨n, hn⟩
    simp [World.start] at hn
  · intro w v e h he hsd hw hexp
    have hT : 0 < w.session.idleTimeoutMs := by
      rw [World.idleTimeoutMs_of_reaches h]
      exact hit
    constructor
    · intro hv
      by_contra hn
      obtain ⟨hc, hi⟩ := World.not_idle_of_not_timerSees hT hsd hexp he hn
      exact hi (hv hc)
    · intro hok
      have hi : w.ExpiredIdle := fun hx => hw ⟨hsd, hx⟩
      exact (hi.step hok he).idle_of_idleCut

end Run

/-- A byte of the client is relayed after one millisecond, which arms the timer
anew; nothing follows, and the wait that expires on time finds an idle session. -/
theorem idle_timeout_rearmed : ∃ w v, run World.step (World.start 0 0 1000 2)
      [.session (.complete .connect .success), .session (.dispatch .connect .success 0), .tick,
        .session (.recv .up [1]), .session (.dispatch (.read .up) .success 1),
        .session (.send .up 1 [] 1), .session (.complete (.write .up 1 [1]) .success),
        .session (.dispatch (.write .up 1 [1]) .success 0), .tick, .tick] = some w ∧
    w.trace.lastIo = some 1 ∧ w.now = 3 ∧
    w.step (.session (.complete .idleWait .success)) = some v ∧ v.IdleCut ∧ v.Idle := by
  obtain ⟨w, v, hw, hv, hio, hnow, hsd, hexp, hit, hp, hsd', hq⟩ : ∃ w v : World,
      run World.step (World.start 0 0 1000 2)
        [.session (.complete .connect .success), .session (.dispatch .connect .success 0), .tick,
          .session (.recv .up [1]), .session (.dispatch (.read .up) .success 1),
          .session (.send .up 1 [] 1), .session (.complete (.write .up 1 [1]) .success),
          .session (.dispatch (.write .up 1 [1]) .success 0), .tick, .tick] = some w ∧
      w.step (.session (.complete .idleWait .success)) = some v ∧ w.trace.lastIo = some 1 ∧
      w.now = 3 ∧ w.session.shuttingDown = false ∧ w.session.idleExpiry = 3 ∧
      w.session.idleTimeoutMs = 2 ∧
      w.session.pending = [⟨.connectWait, .queued .operationAborted 0⟩,
        ⟨.idleWait, .queued .operationAborted 0⟩, ⟨.read .down, .waiting⟩, ⟨.idleWait, .waiting⟩,
        ⟨.read .up, .waiting⟩] ∧
      v.session.shuttingDown = false ∧ ⟨.idleWait, .queued .success 0⟩ ∈ v.session.pending :=
    ⟨_, _, rfl, rfl, rfl, rfl, rfl, rfl, rfl, rfl, rfl, by decide⟩
  have hcut : ¬ w.IdleCut := by
    rintro ⟨-, n, hn⟩
    simp [hp] at hn
  have hsees : w.TimerSees (.session (.complete .idleWait .success)) := by
    intro t ht
    obtain rfl := Option.some.inj (hio.symm.trans ht)
    rw [hit, hexp]
    decide
  have hidle : v.IdleCut → v.Idle :=
    ((idle_timeout 0 0 1000 2 (by decide)).2 w v _ (reaches_of_run hw) hv hsd
      (fun hc => absurd hc hcut) fun _ _ => hnow.trans hexp.symm).mpr hsees
  exact ⟨w, v, hw, hio, hnow, hv, ⟨hsd', 0, hq⟩, hidle ⟨hsd', 0, hq⟩⟩

/-- **A busy download is cut.**  The backend sends a byte in every millisecond,
each is relayed at once, and the idle wait expires all the same. -/
theorem idle_cuts_download : ¬ ∀ (now b : Nat) (ct it : UInt32) (w : World), 0 < it →
    Reaches World.step (World.start now b ct it) w → w.IdleCut → w.Idle := by
  intro h
  let es : List World.Event :=
    [.session (.complete .connect .success), .session (.dispatch .connect .success 0), .tick,
      .session (.recv .down [1]), .session (.dispatch (.read .down) .success 1),
      .session (.send .down 1 [] 1), .session (.complete (.write .down 1 [1]) .success),
      .session (.dispatch (.write .down 1 [1]) .success 0), .tick,
      .session (.recv .down [2]), .session (.dispatch (.read .down) .success 1),
      .session (.send .down 1 [] 1), .session (.complete .idleWait .success)]
  have hrun : (run World.step (World.start 0 0 1000 2) es).map (fun w =>
      (w.session.shuttingDown, decide (⟨.idleWait, .queued .success 0⟩ ∈ w.session.pending),
        w.trace.lastIo, w.session.idleTimeoutMs, w.now)) = some (false, true, some 2, 2, 2) := by
    decide
  obtain ⟨w, hw, hv⟩ := Option.map_eq_some_iff.mp hrun
  simp only [Prod.mk.injEq, decide_eq_true_eq] at hv
  obtain ⟨hsd, hq, hio, hT, hnow⟩ := hv
  have hi := h 0 0 1000 2 w (by decide) (reaches_of_run hw) ⟨hsd, 0, hq⟩ 2 hio
  rw [hT, hnow] at hi
  exact absurd hi (by decide)

end BitBridge.Proxy
