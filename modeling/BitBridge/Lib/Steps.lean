import Mathlib.Data.List.Basic

/-!
# Runs of a machine given by a partial step function

A machine is a function `step : S → E → Option S`: what an event does to a
state, or `none` when the event cannot happen there.  `ReachesIn step ok s t`
says that a run takes `s` to `t` and that each of its steps meets `ok`, a
condition on the state before the step and on the event.  `Reaches` asks
nothing of the steps.

* `ReachesIn.invariant`: what one step preserves, a run preserves.
* `ReachesIn.image`: where each step is a step of another machine or changes
  nothing of what that one sees, a run is a run of the other.
* `exists_goal`: a run that can always lower a rank can reach its goal.
* `run`: a list of events played from a state, for runs on concrete events
  (`reachesIn_of_forall`, `reaches_of_run`, `reachesIn_of_run`).
-/

namespace Steps

variable {S E : Type*} {step : S → E → Option S} {ok : S → E → Prop} {s t u : S}

/-- A run takes `s` to the indexed state, and each of its steps meets `ok`. -/
inductive ReachesIn (step : S → E → Option S) (ok : S → E → Prop) (s : S) : S → Prop
  | refl : ReachesIn step ok s s
  | tail {t u : S} {e : E} : ReachesIn step ok s t → ok t e → step t e = some u →
      ReachesIn step ok s u

/-- A run of any steps takes `s` to `t`. -/
abbrev Reaches (step : S → E → Option S) (s t : S) : Prop := ReachesIn step (fun _ _ => True) s t

namespace ReachesIn

theorem single {e : E} (hok : ok s e) (h : step s e = some t) : ReachesIn step ok s t :=
  .tail .refl hok h

theorem trans (h : ReachesIn step ok s t) (g : ReachesIn step ok t u) : ReachesIn step ok s u := by
  induction g with
  | refl => exact h
  | tail _ hok hs ih => exact .tail ih hok hs

/-- **What one step preserves, a run preserves.** -/
theorem invariant {I : S → Prop} (h : ReachesIn step ok s t) (h0 : I s)
    (hstep : ∀ {t u e}, I t → ok t e → step t e = some u → I u) : I t := by
  induction h with
  | refl => exact h0
  | tail _ hok hs ih => exact hstep ih hok hs

theorem mono {ok' : S → E → Prop} (h : ReachesIn step ok s t) (himp : ∀ t e, ok t e → ok' t e) :
    ReachesIn step ok' s t := by
  induction h with
  | refl => exact .refl
  | tail _ hok hs ih => exact .tail ih (himp _ _ hok) hs

/-- **What another machine sees of a run.**  `I` is what the runs preserve, and
`f` is what the other machine sees of a state. -/
theorem image {T F : Type*} {step' : T → F → Option T} {ok' : T → F → Prop} (f : S → T)
    {I : S → Prop} (h : ReachesIn step ok s t) (h0 : I s)
    (hstep : ∀ {t u e}, I t → ok t e → step t e = some u → I u)
    (hsee : ∀ {t u e}, I t → ok t e → step t e = some u →
      f u = f t ∨ ∃ e', ok' (f t) e' ∧ step' (f t) e' = some (f u)) :
    ReachesIn step' ok' (f s) (f t) := by
  induction h with
  | refl => exact .refl
  | tail hr hok hs ih =>
    rcases hsee (hr.invariant h0 hstep) hok hs with heq | ⟨e', hok', hs'⟩
    · rw [heq]
      exact ih
    · exact .tail ih hok' hs'

theorem toReaches (h : ReachesIn step ok s t) : Reaches step s t := h.mono fun _ _ _ => trivial

end ReachesIn

/-- **Progress.**  Where every state short of the goal has a run to one of lower
rank, there is a run to the goal. -/
theorem exists_goal {I goal : S → Prop} (rank : S → Nat)
    (hprogress : ∀ s, I s → ¬ goal s → ∃ t, ReachesIn step ok s t ∧ I t ∧ rank t < rank s)
    (h : I s) : ∃ t, ReachesIn step ok s t ∧ I t ∧ goal t := by
  induction hr : rank s using Nat.strongRecOn generalizing s with
  | ind r ih =>
    by_cases hgoal : goal s
    · exact ⟨s, .refl, h, hgoal⟩
    · obtain ⟨t, ht, hit, hlt⟩ := hprogress s h hgoal
      obtain ⟨u, hu, hiu, hend⟩ := ih _ (hr ▸ hlt) hit rfl
      exact ⟨u, ht.trans hu, hiu, hend⟩

def run (step : S → E → Option S) : S → List E → Option S
  | s, [] => some s
  | s, e :: es => (step s e).bind fun t => run step t es

theorem run_cons {e : E} {es : List E} (h : step s e = some t) :
    run step s (e :: es) = run step t es := by
  rw [run, h, Option.bind_some]

theorem run_append (s : S) (es es' : List E) :
    run step s (es ++ es') = (run step s es).bind fun t => run step t es' := by
  induction es generalizing s with
  | nil => rfl
  | cons e es ih =>
    rw [List.cons_append, run, run, Option.bind_assoc]
    exact congrArg _ (funext ih)

/-- Playing events that meet `ok` in every state. -/
theorem reachesIn_of_forall {es : List E} (hok : ∀ e ∈ es, ∀ s, ok s e)
    (h : run step s es = some t) : ReachesIn step ok s t := by
  induction es generalizing s with
  | nil =>
    rw [run, Option.some.injEq] at h
    exact h ▸ .refl
  | cons e es ih =>
    obtain ⟨he, hes⟩ := List.forall_mem_cons.mp hok
    rw [run, Option.bind_eq_some_iff] at h
    obtain ⟨m, hm, hr⟩ := h
    exact (ReachesIn.single (he s) hm).trans (ih hes hr)

theorem reaches_of_run {es : List E} (h : run step s es = some t) : Reaches step s t :=
  reachesIn_of_forall (fun _ _ _ => trivial) h

theorem reachesIn_of_run [∀ s e, Decidable (ok s e)] {es : List E}
    (h : run (fun s e => if ok s e then step s e else none) s es = some t) :
    ReachesIn step ok s t := by
  refine (reaches_of_run h).invariant (I := ReachesIn step ok s) .refl ?_
  intro t u e hi _ hs
  rw [Option.ite_none_right_eq_some] at hs
  exact hi.tail hs.1 hs.2

end Steps
