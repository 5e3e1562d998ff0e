import BitBridge.Health.Rounds
import BitBridge.Health.Stop

/-!
# A stopped checker comes to rest

`Stop` closes no probe.  A connect that is in flight is bounded by the timer of
its probe, so that time and the loop alone finish what is pending.

* `weigh_handle`: the handlers of a stopped checker start nothing.
* `exists_rest`: **from every state of a run in which the checker is stopped a
  silent network lets it come to rest.**
-/

namespace BitBridge.Health

open Proactor Steps

/-- The turns that a pending operation takes: a wait ends, and its handler runs. -/
def turns (p : Pending Op) : Nat :=
  match p.status with
  | .waiting => 2
  | .queued _ _ => 1

theorem turns_abort (f : Op → Bool) (p : Pending Op) : turns (p.abort f) ≤ turns p := by
  unfold Pending.abort
  split
  · next h =>
    rw [turns, turns, h.2]
    exact Nat.le_succ 1
  · exact Nat.le_refl _

/-- **After `Stop` a handler starts nothing.** -/
theorem HealthChecker.weigh_handle (isIpLiteral : Bytes → Bool) (now : Nat) (pool : ServicePool)
    {c : HealthChecker} (h : c.stopped = true) (op : Op) (ec : ErrorCode) :
    weigh turns (c.handle isIpLiteral now pool op ec).checker.pending ≤ weigh turns c.pending := by
  have hcancel : ∀ (f : Op → Bool) (l : List (Pending Op)),
      weigh turns (cancel f l) ≤ weigh turns l := fun f => weigh_cancel (turns_abort f)
  cases op with
  | round =>
    rw [handle, if_pos (.inr h)]
  | timeout probe =>
    rw [handle]
    split
    · exact Nat.le_refl _
    · exact hcancel _ _
  | connect probe index =>
    rcases connect_checker isIpLiteral now pool c probe index ec with ht | ht <;> rw [ht]
    · exact hcancel _ _
    · exact (hcancel _ _).trans (hcancel _ _)

def HealthChecker.Event.Silent : HealthChecker.Event → Prop
  | .complete (.connect _ _) _ => False
  | _ => True

namespace Monitor

variable {isIpLiteral : Bytes → Bool} {now : Nat} {nodes : List ServiceNode}
  {config : HealthCheckConfig} {m : Monitor}

def Quiet (_ : Monitor) : Event → Prop
  | .tick => True
  | .checker e => e.Silent
  | _ => False

theorem ticks (hthrew : m.threw = false) :
    ∀ k, ReachesIn (step isIpLiteral) Quiet m { m with now := m.now + k }
  | 0 => .refl
  | k + 1 => by
    refine (ticks hthrew k).tail (e := .tick) trivial ?_
    exact if_neg (by simp [hthrew])

theorem step_checker {e : HealthChecker.Event} {t : Turn} (hthrew : m.threw = false)
    (h : m.checker.step isIpLiteral m.now m.pool e = some t) :
    m.step isIpLiteral (.checker e) = some { m with
      pool := t.pool, checker := t.checker, threw := t.threw,
      outcomes := note m.outcomes e } := by
  rw [step, if_neg (by simp [hthrew]), act, h, Option.map_some]

theorem exists_handled (h : Reaches (step isIpLiteral) (start now nodes config) m)
    (hthrew : m.threw = false) (hstop : m.checker.Stopped) {op : Op} {ec : ErrorCode}
    (hm : ⟨op, .queued ec 0⟩ ∈ m.checker.pending) :
    ∃ v, ReachesIn (step isIpLiteral) Quiet m v ∧ v.threw = false ∧
      weigh turns v.checker.pending < weigh turns m.checker.pending := by
  obtain ⟨t, ht⟩ : ∃ t, m.checker.step isIpLiteral m.now m.pool (.dispatch op ec) = some t :=
    ⟨_, if_pos hm⟩
  have hup : t.threw = false := by
    refine (regular_of_reaches h).not_threw (fun hs => ?_) hthrew ht
    rw [hstop.stopped] at hs
    cases hs
  refine ⟨_, .single (e := .checker (.dispatch op ec)) trivial (step_checker hthrew ht), hup, ?_⟩
  obtain ⟨-, rfl⟩ := HealthChecker.of_step_dispatch ht
  have hle := HealthChecker.weigh_handle isIpLiteral m.now m.pool
    (c := { m.checker with pending := consume m.checker.pending op ec 0 }) hstop.stopped op ec
  have herase := weigh_erase turns hm
  have hone : turns (⟨op, .queued ec 0⟩ : Pending Op) = 1 := rfl
  dsimp only [consume] at hle ⊢
  omega

theorem exists_expired (h : Reaches (step isIpLiteral) (start now nodes config) m)
    (hthrew : m.threw = false) {k : Nat} (hm : ⟨.timeout k, .waiting⟩ ∈ m.checker.pending) :
    ∃ v, ReachesIn (step isIpLiteral) Quiet m v ∧ v.threw = false ∧
      weigh turns v.checker.pending < weigh turns m.checker.pending := by
  have hlt := (regular_of_reaches h).timed hthrew k _ hm
  let late : Monitor := { m with now := m.now + m.checker.probes[k].expiry }
  have hmay : late.checker.mayComplete late.now (.timeout k) .success := by
    rw [HealthChecker.mayComplete, List.getElem?_eq_getElem hlt]
    simp [late]
  have hs : late.checker.step isIpLiteral late.now late.pool (.complete (.timeout k) .success) =
      some ⟨late.pool, { late.checker with
        pending := resolve late.checker.pending (.timeout k) .success 0 }, false⟩ :=
    if_pos ⟨hm, hmay⟩
  refine ⟨_, (ticks hthrew _).tail (e := .checker (.complete (.timeout k) .success)) trivial
    (step_checker (m := late) hthrew hs), rfl, ?_⟩
  have herase := weigh_erase turns hm
  have htwo : turns (⟨.timeout k, .waiting⟩ : Pending Op) = 2 := rfl
  show weigh turns (m.checker.pending.erase _ ++ [_]) < _
  rw [weigh_append, weigh_singleton]
  show _ + 1 < _
  omega

/-- A stopped checker with something pending has a handler to run, or a timer
that waits. -/
theorem queued_or_timeout (h : Reaches (step isIpLiteral) (start now nodes config) m)
    (hthrew : m.threw = false) (hstop : m.checker.Stopped) {p : Pending Op}
    (hp : p ∈ m.checker.pending) :
    (∃ op ec, ⟨op, .queued ec 0⟩ ∈ m.checker.pending) ∨
      ∃ k, ⟨.timeout k, .waiting⟩ ∈ m.checker.pending := by
  obtain ⟨op, _ | ⟨ec, n⟩⟩ := p
  · cases op with
    | round => exact absurd hp hstop.noRound
    | timeout k => exact .inr ⟨k, hp⟩
    | connect k i =>
      obtain ⟨st, rfl | rfl, ht⟩ := ((regular_of_reaches h).guarded hthrew).timer hp
      · exact .inr ⟨k, ht⟩
      · exact .inl ⟨_, _, ht⟩
  · obtain rfl := plain_of_reaches h _ _ _ hp
    exact .inl ⟨op, ec, hp⟩

/-- **A stopped checker comes to rest**, whatever the network does not answer. -/
theorem exists_rest (h : Reaches (step isIpLiteral) (start now nodes config) m)
    (hthrew : m.threw = false) (hstop : m.checker.Stopped) :
    ∃ v, ReachesIn (step isIpLiteral) Quiet m v ∧ v.threw = false ∧ v.checker.pending = [] := by
  have hprogress : ∀ u, (Reaches (step isIpLiteral) (start now nodes config) u ∧
      u.threw = false ∧ u.checker.Stopped) → u.checker.pending ≠ [] →
        ∃ v, ReachesIn (step isIpLiteral) Quiet u v ∧
          (Reaches (step isIpLiteral) (start now nodes config) v ∧ v.threw = false ∧
            v.checker.Stopped) ∧ weigh turns v.checker.pending < weigh turns u.checker.pending := by
    rintro u ⟨hu, hup, hrest⟩ hne
    obtain ⟨p, hp⟩ := List.exists_mem_of_ne_nil _ hne
    obtain ⟨v, hv, hvup, hlt⟩ : ∃ v, ReachesIn (step isIpLiteral) Quiet u v ∧ v.threw = false ∧
        weigh turns v.checker.pending < weigh turns u.checker.pending := by
      rcases queued_or_timeout hu hup hrest hp with ⟨op, ec, hm⟩ | ⟨k, hm⟩
      · exact exists_handled hu hup hrest hm
      · exact exists_expired hu hup hm
    have hstopped : v.checker.Stopped :=
      hv.invariant (I := fun v => v.checker.Stopped) hrest fun hi _ hs => (stopped_step hi hs).1
    exact ⟨v, hv, ⟨hu.trans hv.toReaches, hvup, hstopped⟩, hlt⟩
  obtain ⟨v, hv, ⟨-, hup, -⟩, hend⟩ := exists_goal _ hprogress ⟨h, hthrew, hstop⟩
  exact ⟨v, hv, hup, hend⟩

end Monitor

end BitBridge.Health
