import BitBridge.LoadBalancer.Dispatch

/-!
# What a load balancer is for

A `Dispatcher` has no sockets, no clock and no strategy.  It gives each client
that comes to a service that has not failed too many probes in a row, or to none
when there is no such service, and it takes the client back when its connection
has ended.

* `Shows`: the events of a dispatcher that a program has logged, and those that
  its probes have brought.
* `refined_step`: a step of the program is some steps of the dispatcher.
* `refines_dispatcher`: **every run of the program is a run of the dispatcher**,
  with either strategy.
-/

namespace BitBridge

open Steps

/-- How many clients each service has, and how many probes it failed in a row. -/
structure Dispatcher where
  serving : Nat → Nat
  failures : Nat → Nat

namespace Dispatcher

inductive Event
  | assign (i : Nat)
  | turnAway
  | release (i : Nat)
  | probe (i : Nat) (failed : Bool)
  deriving DecidableEq, Repr

def Event.isProbe : Event → Bool
  | .probe _ _ => true
  | _ => false

def init : Dispatcher := ⟨fun _ => 0, fun _ => 0⟩

def setServing (d : Dispatcher) (i k : Nat) : Dispatcher :=
  { d with serving := Function.update d.serving i k }

/-- One of `size` services that has failed fewer than `limit` probes in a row. -/
def Available (size limit : Nat) (d : Dispatcher) (i : Nat) : Prop :=
  i < size ∧ d.failures i < limit

instance (size limit : Nat) (d : Dispatcher) (i : Nat) : Decidable (d.Available size limit i) :=
  inferInstanceAs (Decidable (_ ∧ _))

def step (size limit : Nat) (d : Dispatcher) : Event → Option Dispatcher
  | .assign i =>
    if d.Available size limit i then some (d.setServing i (d.serving i + 1)) else none
  | .turnAway => if ∀ i < size, ¬ d.Available size limit i then some d else none
  | .release i => if 0 < d.serving i then some (d.setServing i (d.serving i - 1)) else none
  | .probe i failed => some { d with
      failures := Function.update d.failures i (if failed then d.failures i + 1 else 0) }

theorem run_assign_release {size limit i : Nat} {d : Dispatcher} (h : d.Available size limit i) :
    run (step size limit) d [.assign i, .release i] = some d := by
  have hassign : step size limit d (.assign i) = some (d.setServing i (d.serving i + 1)) := if_pos h
  have hone : (d.setServing i (d.serving i + 1)).serving i = d.serving i + 1 :=
    Function.update_self ..
  have hrelease : step size limit (d.setServing i (d.serving i + 1)) (.release i) = some d := by
    rw [step, hone, if_pos (Nat.succ_pos _), Nat.add_sub_cancel, setServing, setServing,
      Function.update_idem, Function.update_eq_self]
  rw [run_cons hassign, run_cons hrelease]
  rfl

end Dispatcher

namespace LoadBalancer

open Proactor Proxy Health

variable {σ : Type} {E : Env σ} {s v : LoadBalancer σ} {e : Event}

/-- The program as a dispatcher: its live sessions, and the outcomes of its probes. -/
def dispatcher (s : LoadBalancer σ) : Dispatcher := ⟨s.live, failedRun s.outcomes⟩

def Entry.shown : Entry → Option Dispatcher.Event
  | .increment i _ => some (.assign i)
  | .decrement i _ => some (.release i)
  | .dropped => some .turnAway
  | _ => none

def shownProbe (o : Outcome) : Dispatcher.Event := .probe o.index o.failed

structure Shows (log : List Entry) (outcomes : List Outcome) (es : List Dispatcher.Event) :
    Prop where
  log : es.filter (fun e => !e.isProbe) = log.filterMap Entry.shown
  outcomes : es.filter Dispatcher.Event.isProbe = outcomes.map shownProbe

theorem Shows.append {l l' : List Entry} {o o' : List Outcome} {es es' : List Dispatcher.Event}
    (h : Shows l o es) (h' : Shows l' o' es') : Shows (l ++ l') (o ++ o') (es ++ es') where
  log := by rw [List.filter_append, h.log, h'.log, List.filterMap_append]
  outcomes := by rw [List.filter_append, h.outcomes, h'.outcomes, List.map_append]

/-- The step took the dispatcher through these events, and showed them. -/
def Refined (size limit : Nat) (s v : LoadBalancer σ) : Prop :=
  ∃ es l o, run (Dispatcher.step size limit) s.dispatcher es = some v.dispatcher ∧
    v.log = s.log ++ l ∧ v.outcomes = s.outcomes ++ o ∧ Shows l o es

namespace Refined

variable {size limit : Nat}

theorem unseen (hl : v.live = s.live) (ho : v.outcomes = s.outcomes) {l : List Entry}
    (hlog : v.log = s.log ++ l) (hnone : l.filterMap Entry.shown = []) :
    Refined size limit s v := by
  refine ⟨[], l, [], ?_, hlog, ho.trans (List.append_nil _).symm, hnone.symm, rfl⟩
  rw [run, dispatcher, dispatcher, hl, ho]

theorem same (hl : v.live = s.live) (ho : v.outcomes = s.outcomes) (hlog : v.log = s.log) :
    Refined size limit s v := unseen hl ho (hlog.trans (List.append_nil _).symm) rfl

end Refined

theorem live_append (l : List Session) (x : Session) (i : Nat) :
    (l ++ [x]).countP (isLiveOf i) = l.countP (isLiveOf i) + if isLiveOf i x then 1 else 0 := by
  rw [List.countP_append, List.countP_singleton]

theorem live_of_started {x : Session} (hv : v.sessions = s.sessions ++ [x])
    (hlive : x.pending ≠ []) :
    v.live = Function.update s.live x.backend (s.live x.backend + 1) := by
  funext j
  rw [live, hv, live_append]
  by_cases hj : j = x.backend
  · rw [hj, Function.update_self, if_pos (by simp [isLiveOf, hlive])]
    rfl
  · rw [Function.update_of_ne hj, if_neg (by simp [isLiveOf, Ne.symm hj])]
    rfl

theorem live_of_refused {x : Session} (hv : v.sessions = s.sessions ++ [x])
    (hdead : x.pending = []) : v.live = s.live := by
  funext j
  rw [live, hv, live_append, if_neg (by simp [isLiveOf, hdead])]
  rfl

/-- **A session takes a turn**: it stays, or its service has one client less. -/
theorem refined_setSession {size limit k : Nat} {x y : Session} (hk : s.sessions[k]? = some x)
    (hx : x.pending ≠ []) (hb : y.backend = x.backend) :
    Refined size limit s (s.setSession k y) := by
  have hcount : ∀ i, (s.sessions.set k y).countP (isLiveOf i) +
      (if isLiveOf i x then 1 else 0) = s.live i + if isLiveOf i y then 1 else 0 :=
    fun i => countP_set_add (isLiveOf i) y hk
  by_cases hy : y.pending = []
  · have hend : s.setSession k y =
        { s with sessions := s.sessions.set k y }.decrementConnections y.backend := if_pos hy
    have hlive : ∀ i, (s.sessions.set k y).countP (isLiveOf i) +
        (if x.backend = i then 1 else 0) = s.live i := by
      intro i
      have hc := hcount i
      have hyl : isLiveOf i y = false := by simp [isLiveOf, hy]
      have hxl : isLiveOf i x = decide (x.backend = i) := by simp [isLiveOf, hx]
      rw [hyl, hxl] at hc
      simpa using hc
    have hself := hlive x.backend
    rw [if_pos rfl] at hself
    have hupdate : live (s.setSession k y) =
        Function.update s.live x.backend (s.live x.backend - 1) := by
      funext j
      rw [hend]
      show (s.sessions.set k y).countP (isLiveOf j) = _
      by_cases hj : j = x.backend
      · rw [hj, Function.update_self]
        omega
      · have hother := hlive j
        rw [if_neg (Ne.symm hj)] at hother
        rw [Function.update_of_ne hj]
        omega
    refine ⟨[.release x.backend], [.decrement y.backend _], [], ?_, by rw [hend]; rfl, ?_, ?_, rfl⟩
    · have hpos : 0 < s.dispatcher.serving x.backend := by
        show 0 < s.live x.backend
        omega
      rw [run, Dispatcher.step, if_pos hpos, Option.bind_some, run, dispatcher, dispatcher,
        hupdate, Dispatcher.setServing, hend]
      rfl
    · rw [hend]
      exact (List.append_nil _).symm
    · rw [hb]
      rfl
  · have hkeep : s.setSession k y = { s with sessions := s.sessions.set k y } := if_neg hy
    rw [hkeep]
    refine .same ?_ rfl rfl
    funext i
    have hc := hcount i
    have hsame : isLiveOf i y = isLiveOf i x := by simp [isLiveOf, hx, hy, hb]
    rw [hsame] at hc
    exact Nat.add_right_cancel hc

def Agrees (size limit : Nat) (s : LoadBalancer σ) : Prop :=
  ∀ i, s.pool.healthyAt i = true ↔ s.dispatcher.Available size limit i

/-- **A client comes**: the strategy gives it to an available service, or there is none. -/
theorem refined_accepted {size limit : Nat} (hb : s.strategy.BuiltOn s.pool)
    (ha : s.Agrees size limit) {peer : Option Bytes} {fuel : Nat} {ec : ErrorCode}
    (h : Accepted E s peer fuel ec v) : Refined size limit s v := by
  have havail : ∀ {key : Bytes} {i : Nat} {t : Strategy σ},
      s.strategy.selectService E.dist fuel s.pool key = some (some (.ok i), t) →
        s.dispatcher.Available size limit i := by
    intro key i t hsel
    rcases (Strategy.selectService_spec hb hsel).1 with ⟨j, hj, hh⟩ | ⟨⟨err, herr⟩, -⟩
    · cases hj
      exact (ha i).mp hh
    · cases herr
  cases h with
  | aborted => exact .same rfl rfl rfl
  | failed => exact .unseen rfl rfl (l := [.asyncAccept]) rfl rfl
  | gone => exact .unseen rfl rfl (l := [.threw]) rfl rfl
  | lost => exact .unseen rfl rfl (l := [.threw]) rfl rfl
  | @dropped _ err t hp hsel =>
    have hnone : ∀ i < size, ¬ s.dispatcher.Available size limit i := by
      intro i _ hi
      rcases (Strategy.selectService_spec hb hsel).1 with ⟨j, hj, -⟩ | ⟨-, hall⟩
      · cases hj
      · have hh := (ha i).mpr hi
        rw [hall i] at hh
        cases hh
    refine ⟨[.turnAway], [.dropped, .asyncAccept], [], ?_, List.append_assoc s.log _ _,
      (List.append_nil _).symm, rfl, rfl⟩
    rw [run, Dispatcher.step, if_pos hnone]
    rfl
  | @started _ i svc t hp hsel hi hip =>
    refine ⟨[.assign i], [.increment i _, .asyncAccept], [], ?_, List.append_assoc s.log _ _,
      (List.append_nil _).symm, rfl, rfl⟩
    have hlive := live_of_started (s := s)
      (v := (((s.setStrategy t).incrementConnections i).addSession
        (.started s.now i s.connectTimeoutMs s.idleTimeoutMs)).acceptNext) rfl
      (Session.started_ne_nil _ _ _ _)
    rw [run, Dispatcher.step, if_pos (havail hsel), Option.bind_some, run, dispatcher, dispatcher,
      hlive]
    rfl
  | @refused _ i svc t hp hsel hi hip =>
    have hlog : ∀ a b : UInt64, ((s.log ++ [.increment i a]) ++ [.decrement i b]) ++ [.threw] =
        s.log ++ [.increment i a, .decrement i b, .threw] := by
      intro a b
      rw [List.append_assoc, List.append_assoc]
      rfl
    refine ⟨[.assign i, .release i], _, [], ?_, hlog _ _, (List.append_nil _).symm, rfl, rfl⟩
    have hlive := live_of_refused (s := s)
      (v := ((((s.setStrategy t).incrementConnections i).addSession
        (.new i s.connectTimeoutMs s.idleTimeoutMs)).decrementConnections i).throw) rfl rfl
    rw [Dispatcher.run_assign_release (havail hsel), dispatcher, dispatcher, hlive]
    rfl

/-- **A step of the program is some steps of the dispatcher.** -/
theorem refined_step {size limit : Nat} (hb : s.strategy.BuiltOn s.pool)
    (ha : s.Agrees size limit) (h : s.step E e = some v) : Refined size limit s v := by
  cases stepped_of_step h with
  | tick => exact .same rfl rfl rfl
  | complete => exact .same rfl rfl rfl
  | @accept ec _ _ _ _ _ hacc =>
    have had : Agrees size limit (s.dequeue .accept ec) := ha
    exact refined_accepted (s := s.dequeue .accept ec) hb had hacc
  | signal =>
    unfold onSignal
    split <;> exact .same rfl rfl rfl
  | session _ hx hy =>
    exact refined_setSession hx (pending_ne_nil_of_step hy) (Session.step_binding hy).1
  | @checker e c t _ _ _ =>
    have hother : note s.outcomes e = s.outcomes → Refined size limit s { s with
        pool := t.pool
        checker := some t.checker
        running := !t.threw
        outcomes := note s.outcomes e } := fun ho => .same rfl ho rfl
    cases e with
    | dispatch op ec =>
      cases op with
      | connect probe index =>
        refine ⟨[.probe index ec.failed], [], [⟨probe, index, ec.failed⟩], ?_,
          (List.append_nil _).symm, rfl, rfl, rfl⟩
        have hfail : failedRun (s.outcomes ++ [⟨probe, index, ec.failed⟩]) =
            Function.update (failedRun s.outcomes) index
              (if ec.failed then failedRun s.outcomes index + 1 else 0) := by
          funext j
          rw [failedRun_append]
          by_cases hj : index = j
          · rw [if_pos hj, hj, Function.update_self]
          · rw [if_neg hj, Function.update_of_ne (Ne.symm hj)]
        rw [run, Dispatcher.step, Option.bind_some, run, dispatcher, dispatcher]
        exact congrArg (fun f => some (Dispatcher.mk s.live f)) hfail.symm
      | _ => exact hother rfl
    | _ => exact hother rfl
  | destroy _ hx hp => exact refined_setSession hx (List.ne_nil_of_mem hp) rfl

/-- **Every run of the program is a run of the dispatcher.**  There are events of
it that lead to the program's live sessions and failed probes, and these are the
ones in the log and the outcomes; the flags that the strategies read are the
dispatcher's.  So either strategy only picks one of the services that it allows. -/
theorem refines_dispatcher {now : Nat} {nodes : List ServiceNode} {strategy : Strategy σ}
    {conn : ConnectionConfig} {hc : HealthCheckConfig}
    (hb : strategy.BuiltOn (.ofNodes nodes))
    (h : Reaches (step E) (start now nodes strategy conn hc) s) :
    s.Agrees nodes.length (max 1 hc.unhealthyThreshold.toNat) ∧
      ∃ es, run (Dispatcher.step nodes.length (max 1 hc.unhealthyThreshold.toNat))
          Dispatcher.init es = some s.dispatcher ∧ Shows s.log s.outcomes es := by
  have hagrees : ∀ {t : LoadBalancer σ}, Reaches (step E) (start now nodes strategy conn hc) t →
      t.Agrees nodes.length (max 1 hc.unhealthyThreshold.toNat) := by
    intro t ht i
    rw [healthyAt_iff ht, Exhausted, Nat.not_le]
    rfl
  refine ⟨hagrees h, ?_⟩
  have hinv := h.invariant (I := fun s => Reaches (step E) (start now nodes strategy conn hc) s ∧
    ∃ es, run (Dispatcher.step nodes.length (max 1 hc.unhealthyThreshold.toNat)) Dispatcher.init
      es = some s.dispatcher ∧ Shows s.log s.outcomes es) ⟨.refl, [], ?_, ?_⟩ ?_
  · exact hinv.2
  · unfold start
    split <;> rfl
  · unfold start
    split <;> exact ⟨rfl, rfl⟩
  · rintro t u e ⟨ht, es, hes, hshow⟩ - hs
    obtain ⟨es', l, o, hes', hl, ho, hshow'⟩ :=
      refined_step (builtOn_of_reaches hb ht) (hagrees ht) hs
    refine ⟨ht.tail trivial hs, es ++ es', ?_, ?_⟩
    · rw [run_append, hes, Option.bind_some, hes']
    · rw [hl, ho]
      exact hshow.append hshow'

/-- The first client of a program with one service. -/
theorem refines_dispatcher_first : ∃ (s : LoadBalancer Unit) (es : List Dispatcher.Event),
    s.live 0 = 1 ∧ run (Dispatcher.step 1 3) Dispatcher.init es = some s.dispatcher ∧
      es.filter (fun e => !e.isProbe) = [.assign 0] := by
  obtain ⟨s, hs, hlive, hlog⟩ : ∃ s : LoadBalancer Unit,
      run (step ⟨fun _ => true, fun _ rng => (0, rng)⟩) (start 0 [{}] (.p2c ⟨()⟩) {} {})
        [.complete .accept .success, .accept .success (some []) 0] = some s ∧ s.live 0 = 1 ∧
        s.log.filterMap Entry.shown = [.assign 0] := ⟨_, rfl, rfl, rfl⟩
  have hb : (Strategy.p2c ⟨()⟩ : Strategy Unit).BuiltOn (.ofNodes [{}]) := trivial
  obtain ⟨-, es, hes, hshow⟩ := refines_dispatcher hb (reaches_of_run hs)
  exact ⟨s, es, hlive, hes, hshow.log.trans hlog⟩

end LoadBalancer

end BitBridge
