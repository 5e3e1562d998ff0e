import BitBridge.Lib.Steps
import Mathlib.Data.List.Flatten
import Mathlib.Data.List.Perm.Basic
import Mathlib.Order.Basic
import Mathlib.Order.Nat

/-!
# One relaxed atomic object

The values of an atomic object have one order, its modification order.  A
read-modify-write reads the last value; a relaxed load may read any value that
is not older than what its thread has seen, and `seen` says how far that is.
A happens-before edge between two threads is `sync`.

`ο` are the updates that the program makes, and `apply` says what an update
makes of a value, or `none` when it has nothing to do.  A `fetch` is one step.
A loop of `compare_exchange_weak` loads a value, and for as long as the update
has something to do it tries to exchange; an attempt that fails, which it may do
for no reason, leaves it with another value.

* `Sequential`: **every update acts on the value right before it.**
* `sequential_of_reaches`, `loads_of_reaches`: what holds in every run.
* `foldl_calls`, `Ordered`: **a run is as if its calls were made one by one**, in an
  order that is that of each thread.
* `exists_finish`: a loop that is left alone ends.
-/

namespace Atomic

open Steps

/-- The object with its threads.  `updates` are the calls that made the values
behind the first, and a call that ended without an update is in `refused` with
the place of the value that it saw.  `ended` are the calls as they ended. -/
structure Location (α τ ο : Type*) where
  history : List α
  updates : List (τ × ο)
  seen : τ → Nat
  loop : τ → Option (ο × Nat)
  refused : List ((τ × ο) × Nat)
  ended : List (τ × ο)

inductive Event (τ ο : Type*)
  | fetch (t : τ) (o : ο)
  | load (t : τ) (n : Nat)
  | begin (t : τ) (o : ο) (n : Nat)
  | exchange (t : τ)
  | retry (t : τ) (n : Nat)
  | sync (t u : τ)

namespace Location

variable {α τ ο : Type*} [DecidableEq τ] {apply : ο → α → Option α}
  {s v : Location α τ ο} {e : Event τ ο}

def fresh (a : α) : Location α τ ο := ⟨[a], [], fun _ => 0, fun _ => none, [], []⟩

/-- May a load of the thread read the value at this place? -/
def Readable (s : Location α τ ο) (t : τ) (n : Nat) : Prop := s.seen t ≤ n ∧ n < s.history.length

instance (s : Location α τ ο) (t : τ) (n : Nat) : Decidable (s.Readable t n) :=
  inferInstanceAs (Decidable (_ ∧ _))

def see (s : Location α τ ο) (t : τ) (n : Nat) : Location α τ ο :=
  { s with seen := Function.update s.seen t n }

def push (s : Location α τ ο) (t : τ) (o : ο) (a : α) : Location α τ ο :=
  { s with
    history := s.history ++ [a]
    updates := s.updates ++ [(t, o)]
    seen := Function.update s.seen t s.history.length
    loop := Function.update s.loop t none
    ended := s.ended ++ [(t, o)] }

/-- A loop with the value at this place: it goes on, or it has nothing to do. -/
def examine (apply : ο → α → Option α) (s : Location α τ ο) (t : τ) (o : ο) (n : Nat) :
    Location α τ ο :=
  if ((s.history[n]?).bind (apply o)).isSome then
    { s.see t n with loop := Function.update s.loop t (some (o, n)) }
  else
    { s.see t n with
      loop := Function.update s.loop t none
      refused := s.refused ++ [((t, o), n)]
      ended := s.ended ++ [(t, o)] }

@[simp] theorem examine_history (s : Location α τ ο) (t : τ) (o : ο) (n : Nat) :
    (s.examine apply t o n).history = s.history := by
  unfold examine
  split <;> rfl

@[simp] theorem examine_updates (s : Location α τ ο) (t : τ) (o : ο) (n : Nat) :
    (s.examine apply t o n).updates = s.updates := by
  unfold examine
  split <;> rfl

@[simp] theorem examine_seen (s : Location α τ ο) (t : τ) (o : ο) (n : Nat) :
    (s.examine apply t o n).seen = Function.update s.seen t n := by
  unfold examine
  split <;> rfl

/-! ### One order of the updates -/

/-- Each update acted on the value right before it and made the next one. -/
structure Sequential (apply : ο → α → Option α) (s : Location α τ ο) : Prop where
  length : s.history.length = s.updates.length + 1
  acts : ∀ {n p}, s.updates[n]? = some p → ∃ a b, s.history[n]? = some a ∧
    s.history[n + 1]? = some b ∧ apply p.2 a = some b

omit [DecidableEq τ] in
theorem sequential_fresh (a : α) : Sequential apply (fresh a : Location α τ ο) :=
  ⟨rfl, fun h => nomatch h⟩

omit [DecidableEq τ] in
theorem Sequential.congr (h : s.Sequential apply) (hh : v.history = s.history)
    (hu : v.updates = s.updates) : v.Sequential apply :=
  ⟨by rw [hh, hu]; exact h.length, fun {_ _} ho => by rw [hh]; exact h.acts (hu ▸ ho)⟩

/-- **An update of the last value.** -/
theorem Sequential.push (h : s.Sequential apply) {a b : α} {o : ο}
    (ha : s.history.getLast? = some a) (hb : apply o a = some b) (t : τ) :
    (s.push t o b).Sequential apply := by
  have hlen := h.length
  refine ⟨?_, fun {n p} ho => ?_⟩
  · show (s.history ++ [b]).length = (s.updates ++ [(t, o)]).length + 1
    rw [List.length_append, List.length_append, hlen]
    rfl
  · show ∃ a' b', (s.history ++ [b])[n]? = some a' ∧ (s.history ++ [b])[n + 1]? = some b' ∧
      apply p.2 a' = some b'
    have ho' : (s.updates ++ [(t, o)])[n]? = some p := ho
    by_cases hn : n < s.updates.length
    · rw [List.getElem?_append_left hn] at ho'
      rw [List.getElem?_append_left (by omega), List.getElem?_append_left (by omega)]
      exact h.acts ho'
    · have hle := (List.getElem?_eq_some_iff.mp ho').1
      rw [List.length_append, List.length_singleton] at hle
      obtain rfl : n = s.updates.length := by omega
      rw [List.getElem?_concat_length, Option.some.injEq] at ho'
      subst ho'
      refine ⟨a, b, ?_, ?_, hb⟩
      · rw [List.getElem?_append_left (by omega), ← ha, List.getLast?_eq_getElem?, hlen]
        rfl
      · rw [← hlen, List.getElem?_concat_length]

/-! ### What the threads have seen -/

/-- A thread has seen values that are there, a loop has something to do with the
value that it holds, and one that was refused had nothing to do. -/
structure Loads (apply : ο → α → Option α) (s : Location α τ ο) : Prop where
  seen : ∀ t, s.seen t < s.history.length
  loop : ∀ {t o n}, s.loop t = some (o, n) → n ≤ s.seen t ∧
    ∃ a, s.history[n]? = some a ∧ (apply o a).isSome = true
  refused : ∀ p ∈ s.refused, ∃ a, s.history[p.2]? = some a ∧ apply p.1.2 a = none

omit [DecidableEq τ] in
theorem loads_fresh (a : α) : Loads apply (fresh a : Location α τ ο) :=
  ⟨fun _ => Nat.one_pos, fun h => (nomatch h), fun _ hp => (nomatch hp)⟩

namespace Loads

theorem push (h : s.Loads apply) (t : τ) (o : ο) (b : α) : (s.push t o b).Loads apply where
  seen u := by
    show Function.update s.seen t s.history.length u < (s.history ++ [b]).length
    rw [List.length_append, List.length_singleton]
    by_cases hu : u = t
    · rw [hu, Function.update_self]
      omega
    · rw [Function.update_of_ne hu]
      have := h.seen u
      omega
  loop {u o' n} hl := by
    by_cases hu : u = t
    · subst hu
      have hnone : Function.update s.loop u none u = some (o', n) := hl
      rw [Function.update_self] at hnone
      cases hnone
    · have hold : Function.update s.loop t none u = some (o', n) := hl
      rw [Function.update_of_ne hu] at hold
      obtain ⟨hn, a, ha, hsome⟩ := h.loop hold
      refine ⟨?_, a, ?_, hsome⟩
      · show n ≤ Function.update s.seen t s.history.length u
        rw [Function.update_of_ne hu]
        exact hn
      · exact (List.getElem?_append_left (List.getElem?_eq_some_iff.mp ha).1).trans ha
  refused p hp := by
    obtain ⟨a, ha, hnone⟩ := h.refused p hp
    exact ⟨a, (List.getElem?_append_left (List.getElem?_eq_some_iff.mp ha).1).trans ha, hnone⟩

theorem see (h : s.Loads apply) {t : τ} {n : Nat} (hn : s.Readable t n) :
    (s.see t n).Loads apply where
  seen u := by
    show Function.update s.seen t n u < s.history.length
    by_cases hu : u = t
    · rw [hu, Function.update_self]
      exact hn.2
    · rw [Function.update_of_ne hu]
      exact h.seen u
  loop {u o m} hl := by
    obtain ⟨hm, ha⟩ := h.loop hl
    refine ⟨?_, ha⟩
    show m ≤ Function.update s.seen t n u
    by_cases hu : u = t
    · rw [hu, Function.update_self]
      exact Nat.le_trans (hu ▸ hm) hn.1
    · rw [Function.update_of_ne hu]
      exact hm
  refused := h.refused

theorem examine (h : s.Loads apply) {t : τ} {n : Nat} (hn : s.Readable t n) (o : ο) :
    (s.examine apply t o n).Loads apply := by
  have hs := h.see hn
  obtain ⟨a, ha⟩ : ∃ a, s.history[n]? = some a := ⟨_, List.getElem?_eq_getElem hn.2⟩
  unfold Location.examine
  rw [ha, Option.bind_some]
  split
  · next hsome =>
    refine ⟨hs.seen, fun {u o' m} hl => ?_, hs.refused⟩
    have hl' : Function.update s.loop t (some (o, n)) u = some (o', m) := hl
    by_cases hu : u = t
    · subst hu
      rw [Function.update_self, Option.some.injEq, Prod.mk.injEq] at hl'
      obtain ⟨rfl, rfl⟩ := hl'
      refine ⟨?_, a, ha, hsome⟩
      exact Nat.le_of_eq (Function.update_self u n s.seen).symm
    · rw [Function.update_of_ne hu] at hl'
      exact hs.loop hl'
  · next hnone =>
    refine ⟨hs.seen, fun {u o' m} hl => ?_, fun p hp => ?_⟩
    · have hl' : Function.update s.loop t none u = some (o', m) := hl
      by_cases hu : u = t
      · subst hu
        rw [Function.update_self] at hl'
        cases hl'
      · rw [Function.update_of_ne hu] at hl'
        exact hs.loop hl'
    · rcases List.mem_append.mp hp with hp | hp
      · exact hs.refused p hp
      · rw [List.mem_singleton.mp hp]
        exact ⟨a, ha, by simpa using hnone⟩

theorem sync (h : s.Loads apply) (t u : τ) :
    Loads apply { s with seen := Function.update s.seen u (max (s.seen u) (s.seen t)) } where
  seen w := by
    show Function.update s.seen u (max (s.seen u) (s.seen t)) w < s.history.length
    by_cases hw : w = u
    · rw [hw, Function.update_self]
      exact Nat.max_lt.mpr ⟨h.seen u, h.seen t⟩
    · rw [Function.update_of_ne hw]
      exact h.seen w
  loop {w o n} hl := by
    obtain ⟨hn, ha⟩ := h.loop hl
    refine ⟨?_, ha⟩
    show n ≤ Function.update s.seen u (max (s.seen u) (s.seen t)) w
    by_cases hw : w = u
    · rw [hw, Function.update_self]
      exact Nat.le_trans (hw ▸ hn) (Nat.le_max_left _ _)
    · rw [Function.update_of_ne hw]
      exact hn
  refused := h.refused

end Loads

/-! ### Steps -/

section Step

variable [DecidableEq α]

def step (apply : ο → α → Option α) (s : Location α τ ο) : Event τ ο → Option (Location α τ ο)
  | .fetch t o =>
    if s.loop t = none then s.history.getLast?.bind fun a => (apply o a).map (s.push t o) else none
  | .load t n => if s.loop t = none ∧ s.Readable t n then some (s.see t n) else none
  | .begin t o n =>
    if s.loop t = none ∧ s.Readable t n then some (s.examine apply t o n) else none
  | .exchange t => (s.loop t).bind fun l => s.history.getLast?.bind fun a =>
    if s.history[l.2]? = some a then (apply l.1 a).map (s.push t l.1) else none
  | .retry t n => (s.loop t).bind fun l =>
    if s.Readable t n then some (s.examine apply t l.1 n) else none
  | .sync t u => some { s with seen := Function.update s.seen u (max (s.seen u) (s.seen t)) }

/-- What a step does, by what it is for. -/
inductive Stepped (apply : ο → α → Option α) (s : Location α τ ο) :
    Event τ ο → Location α τ ο → Prop
  | fetch {t : τ} {o : ο} {a b : α} (hl : s.loop t = none) (ha : s.history.getLast? = some a)
    (hb : apply o a = some b) : Stepped apply s (.fetch t o) (s.push t o b)
  | load {t : τ} {n : Nat} (hl : s.loop t = none) (hn : s.Readable t n) :
    Stepped apply s (.load t n) (s.see t n)
  | begin {t : τ} {o : ο} {n : Nat} (hl : s.loop t = none) (hn : s.Readable t n) :
    Stepped apply s (.begin t o n) (s.examine apply t o n)
  | exchange {t : τ} {o : ο} {n : Nat} {a b : α} (hl : s.loop t = some (o, n))
    (ha : s.history.getLast? = some a) (hn : s.history[n]? = some a) (hb : apply o a = some b) :
    Stepped apply s (.exchange t) (s.push t o b)
  | retry {t : τ} {o : ο} {m n : Nat} (hl : s.loop t = some (o, m)) (hn : s.Readable t n) :
    Stepped apply s (.retry t n) (s.examine apply t o n)
  | sync {t u : τ} : Stepped apply s (.sync t u)
    { s with seen := Function.update s.seen u (max (s.seen u) (s.seen t)) }

/-- **The form of every step.** -/
theorem stepped_of_step (h : s.step apply e = some v) : Stepped apply s e v := by
  cases e with
  | fetch t o =>
    rw [step, Option.ite_none_right_eq_some, Option.bind_eq_some_iff] at h
    obtain ⟨hl, a, ha, h⟩ := h
    obtain ⟨b, hb, rfl⟩ := Option.map_eq_some_iff.mp h
    exact .fetch hl ha hb
  | load t n =>
    rw [step, Option.ite_none_right_eq_some] at h
    obtain ⟨⟨hl, hn⟩, h⟩ := h
    obtain rfl := Option.some.inj h
    exact .load hl hn
  | begin t o n =>
    rw [step, Option.ite_none_right_eq_some] at h
    obtain ⟨⟨hl, hn⟩, h⟩ := h
    obtain rfl := Option.some.inj h
    exact .begin hl hn
  | exchange t =>
    rw [step, Option.bind_eq_some_iff] at h
    obtain ⟨⟨o, n⟩, hl, h⟩ := h
    rw [Option.bind_eq_some_iff] at h
    obtain ⟨a, ha, h⟩ := h
    rw [Option.ite_none_right_eq_some] at h
    obtain ⟨b, hb, rfl⟩ := Option.map_eq_some_iff.mp h.2
    exact .exchange hl ha h.1 hb
  | retry t n =>
    rw [step, Option.bind_eq_some_iff] at h
    obtain ⟨⟨o, m⟩, hl, h⟩ := h
    rw [Option.ite_none_right_eq_some] at h
    obtain rfl := Option.some.inj h.2
    exact .retry hl h.1
  | sync t u =>
    obtain rfl := Option.some.inj h
    exact .sync

theorem Sequential.step (h : s.Sequential apply) (hs : s.step apply e = some v) :
    v.Sequential apply := by
  cases stepped_of_step hs with
  | fetch _ ha hb => exact h.push ha hb _
  | load => exact h.congr rfl rfl
  | begin => exact h.congr (examine_history ..) (examine_updates ..)
  | exchange _ ha _ hb => exact h.push ha hb _
  | retry => exact h.congr (examine_history ..) (examine_updates ..)
  | sync => exact h.congr rfl rfl

/-- **The updates of every run are in one order**, each on the value before it. -/
theorem sequential_of_reaches {a : α} (h : Reaches (step apply) (fresh a) s) :
    s.Sequential apply :=
  h.invariant (sequential_fresh a) fun hi _ hs => hi.step hs

theorem Loads.step (h : s.Loads apply) (hs : s.step apply e = some v) : v.Loads apply := by
  cases stepped_of_step hs with
  | fetch => exact h.push _ _ _
  | load _ hn => exact h.see hn
  | begin _ hn => exact h.examine hn _
  | exchange => exact h.push _ _ _
  | retry _ hn => exact h.examine hn _
  | sync => exact h.sync _ _

theorem loads_of_reaches {a : α} (h : Reaches (step apply) (fresh a) s) : s.Loads apply :=
  h.invariant (loads_fresh a) fun hi _ hs => hi.step hs

theorem history_step {n : Nat} {a : α} (ha : s.history[n]? = some a)
    (hs : s.step apply e = some v) : v.history[n]? = some a := by
  have hpush : ∀ b, (s.history ++ [b])[n]? = some a := fun b =>
    (List.getElem?_append_left (List.getElem?_eq_some_iff.mp ha).1).trans ha
  cases stepped_of_step hs with
  | fetch => exact hpush _
  | load => exact ha
  | begin => exact (congrArg (·[n]?) (examine_history ..)).trans ha
  | exchange => exact hpush _
  | retry => exact (congrArg (·[n]?) (examine_history ..)).trans ha
  | sync => exact ha

theorem first_of_reaches {a : α} (h : Reaches (step apply) (fresh a) s) :
    s.history[0]? = some a :=
  h.invariant (I := fun s => s.history[0]? = some a) rfl fun hi _ hs => history_step hi hs

/-! ### A loop ends when it is left alone -/

/-- **No thread waits for another.**  A loop that is left alone is over after it
has loaded the last value: its exchange succeeds, or it has nothing to do. -/
theorem exists_finish (h : s.Loads apply) {t : τ} {l : ο × Nat} (hl : s.loop t = some l) :
    ∃ n v, v.loop t = none ∧
      (run (step apply) s [.retry t n, .exchange t] = some v ∧
          v.updates = s.updates ++ [(t, l.1)] ∧ v.refused = s.refused ∨
        s.step apply (.retry t n) = some v ∧ v.updates = s.updates ∧ v.refused ≠ []) := by
  have hseen := h.seen t
  have hread : s.Readable t (s.history.length - 1) := ⟨by omega, by omega⟩
  obtain ⟨a, ha⟩ : ∃ a, s.history[s.history.length - 1]? = some a :=
    ⟨_, List.getElem?_eq_getElem hread.2⟩
  have hretry : s.step apply (.retry t (s.history.length - 1)) =
      some (s.examine apply t l.1 (s.history.length - 1)) := by
    rw [step, hl, Option.bind_some, if_pos hread]
  cases hb : apply l.1 a with
  | none =>
    have hex : s.examine apply t l.1 (s.history.length - 1) =
        { s.see t (s.history.length - 1) with
          loop := Function.update s.loop t none
          refused := s.refused ++ [((t, l.1), s.history.length - 1)]
          ended := s.ended ++ [(t, l.1)] } := by
      rw [examine, ha, Option.bind_some, hb, if_neg (by simp)]
    refine ⟨_, _, ?_, .inr ⟨hretry, examine_updates .., ?_⟩⟩
    · rw [hex]
      exact Function.update_self ..
    · rw [hex]
      exact List.append_ne_nil_of_right_ne_nil _ (List.cons_ne_nil _ _)
  | some b =>
    have hex : s.examine apply t l.1 (s.history.length - 1) =
        { s.see t (s.history.length - 1) with
          loop := Function.update s.loop t (some (l.1, s.history.length - 1)) } := by
      rw [examine, ha, Option.bind_some, hb, if_pos Option.isSome_some]
    have hlast : s.history.getLast? = some a := by rw [List.getLast?_eq_getElem?, ha]
    have hexchange : (s.examine apply t l.1 (s.history.length - 1)).step apply (.exchange t) =
        some ((s.examine apply t l.1 (s.history.length - 1)).push t l.1 b) := by
      have hloop : (s.examine apply t l.1 (s.history.length - 1)).loop t =
          some (l.1, s.history.length - 1) := by
        rw [hex]
        exact Function.update_self ..
      rw [step, hloop, Option.bind_some, examine_history, hlast, Option.bind_some, if_pos ha, hb]
      rfl
    refine ⟨_, _, Function.update_self ..,
      .inl ⟨(run_cons hretry).trans ((run_cons hexchange).trans rfl), ?_, ?_⟩⟩
    · exact congrArg (· ++ [(t, l.1)]) (examine_updates ..)
    · rw [hex]
      rfl

end Step

/-! ### One order of the calls -/

/-- The calls that had nothing to do with the value at this place, and then the
update of that value. -/
def callsAt (s : Location α τ ο) (n : Nat) : List (τ × ο) :=
  (s.refused.filter fun p => p.2 = n).map Prod.fst ++ (s.updates[n]?).toList

/-- All calls that are over, each with the value that it saw. -/
def calls (s : Location α τ ο) : List (τ × ο) := (List.range s.history.length).flatMap s.callsAt

/-- A call on one thread: when it has nothing to do it leaves the value. -/
def call (apply : ο → α → Option α) (a : α) (p : τ × ο) : α := (apply p.2 a).getD a

omit [DecidableEq τ] in
/-- The calls that had nothing to do leave the value that they saw. -/
theorem foldl_refused (hl : s.Loads apply) {n : Nat} {a : α} (ha : s.history[n]? = some a) :
    ((s.refused.filter fun p => p.2 = n).map Prod.fst).foldl (call apply) a = a := by
  have hnone : ∀ q ∈ (s.refused.filter fun p => p.2 = n).map Prod.fst, apply q.2 a = none := by
    intro q hq
    obtain ⟨p, hp, rfl⟩ := List.mem_map.mp hq
    obtain ⟨hm, hpn⟩ := List.mem_filter.mp hp
    obtain ⟨c, hc, hno⟩ := hl.refused p hm
    rw [of_decide_eq_true hpn, ha, Option.some.injEq] at hc
    exact hc ▸ hno
  refine List.foldlRecOn _ (motive := fun b => b = a) _ rfl fun b hb q hq => ?_
  rw [hb, call, hnone q hq, Option.getD_none]

omit [DecidableEq τ] in
theorem foldl_callsAt (h : s.Sequential apply) (hl : s.Loads apply) {n : Nat} {a b : α}
    (ha : s.history[n]? = some a) (hb : s.history[n + 1]? = some b) :
    (s.callsAt n).foldl (call apply) a = b := by
  have hn : n < s.updates.length := by
    have hlt := (List.getElem?_eq_some_iff.mp hb).1
    have hlen := h.length
    omega
  have hup := List.getElem?_eq_getElem hn
  obtain ⟨a', b', ha', hb', hab⟩ := h.acts hup
  obtain rfl : a' = a := Option.some.inj (ha'.symm.trans ha)
  obtain rfl : b' = b := Option.some.inj (hb'.symm.trans hb)
  rw [callsAt, List.foldl_append, foldl_refused hl ha, hup]
  show call apply a' _ = b'
  rw [call, hab, Option.getD_some]

omit [DecidableEq τ] in
/-- The value at a place is that after the calls before it, made one by one. -/
theorem foldl_calls_take (h : s.Sequential apply) (hl : s.Loads apply) {a : α}
    (h0 : s.history[0]? = some a) : ∀ {n : Nat} {b : α}, s.history[n]? = some b →
      ((List.range n).flatMap s.callsAt).foldl (call apply) a = b
  | 0, b, hb => Option.some.inj (h0.symm.trans hb)
  | n + 1, b, hb => by
    have hlt := (List.getElem?_eq_some_iff.mp hb).1
    have hc := List.getElem?_eq_getElem (Nat.lt_of_succ_lt hlt)
    rw [List.range_succ, List.flatMap_append, List.foldl_append, foldl_calls_take h hl h0 hc,
      List.flatMap_singleton]
    exact foldl_callsAt h hl hc hb

omit [DecidableEq τ] in
/-- **The last value is that after all calls**, made one by one. -/
theorem foldl_calls (h : s.Sequential apply) (hl : s.Loads apply) {a b : α}
    (h0 : s.history[0]? = some a) (hb : s.history.getLast? = some b) :
    s.calls.foldl (call apply) a = b := by
  have hlen := h.length
  rw [List.getLast?_eq_getElem?, hlen, Nat.add_sub_cancel] at hb
  have hnone : s.updates[s.updates.length]? = none := List.getElem?_eq_none (Nat.le_refl _)
  rw [calls, hlen, List.range_succ, List.flatMap_append, List.foldl_append,
    foldl_calls_take h hl h0 hb, List.flatMap_singleton, callsAt, hnone, Option.toList_none,
    List.append_nil]
  exact foldl_refused hl hb

/-- The calls that are over are in one order which is that of each thread: a
thread has seen the values that its calls acted on. -/
structure Ordered (s : Location α τ ο) : Prop where
  update : ∀ {n p}, s.updates[n]? = some p → n < s.seen p.1
  refused : ∀ p ∈ s.refused, p.2 ≤ s.seen p.1.1
  calls : ∀ t, s.calls.filter (fun p => p.1 = t) = s.ended.filter fun p => p.1 = t

theorem ordered_fresh (a : α) : Ordered (fresh a : Location α τ ο) :=
  ⟨fun h => (nomatch h), fun _ hp => (nomatch hp), fun _ => rfl⟩

namespace Ordered

theorem mono (h : s.Ordered) (hh : v.history = s.history) (hu : v.updates = s.updates)
    (hr : v.refused = s.refused) (ho : v.ended = s.ended) (hs : s.seen ≤ v.seen) :
    v.Ordered where
  update hp := Nat.lt_of_lt_of_le (h.update (hu ▸ hp)) (hs _)
  refused p hp := Nat.le_trans (h.refused p (hr ▸ hp)) (hs _)
  calls t := by
    have hat : v.callsAt = s.callsAt := by
      funext n
      rw [callsAt, callsAt, hr, hu]
    rw [Location.calls, hat, hh, ho]
    exact h.calls t

/-- **A new update is the last call.** -/
theorem calls_push (hseq : s.Sequential apply) (hl : s.Loads apply) (t : τ) (o : ο) (b : α) :
    (s.push t o b).calls = s.calls ++ [(t, o)] := by
  have hlen := hseq.length
  have hlater : (s.push t o b).callsAt (s.updates.length + 1) = [] := by
    have hnone : (s.updates ++ [(t, o)])[s.updates.length + 1]? = none :=
      List.getElem?_eq_none (by rw [List.length_append, List.length_singleton])
    have hfilter : s.refused.filter (fun p => p.2 = s.updates.length + 1) = [] := by
      refine List.filter_eq_nil_iff.mpr fun p hp => ?_
      obtain ⟨a, ha, -⟩ := hl.refused p hp
      have hlt := (List.getElem?_eq_some_iff.mp ha).1
      rw [decide_eq_true_eq]
      omega
    show (s.refused.filter fun p => p.2 = s.updates.length + 1).map Prod.fst ++
      ((s.updates ++ [(t, o)])[s.updates.length + 1]?).toList = []
    rw [hnone, hfilter]
    rfl
  have hlast : (s.push t o b).callsAt s.updates.length =
      s.callsAt s.updates.length ++ [(t, o)] := by
    show _ ++ ((s.updates ++ [(t, o)])[s.updates.length]?).toList = (_ ++ _) ++ _
    rw [List.getElem?_concat_length, List.getElem?_eq_none (Nat.le_refl _), Option.toList_none,
      List.append_nil]
    rfl
  have hbefore : ∀ n ∈ List.range s.updates.length,
      (s.push t o b).callsAt n = s.callsAt n := by
    intro n hn
    show _ ++ ((s.updates ++ [(t, o)])[n]?).toList = _ ++ _
    rw [List.getElem?_append_left (List.mem_range.mp hn)]
    rfl
  have hlen' : (s.push t o b).history.length = s.updates.length + 1 + 1 := by
    show (s.history ++ [b]).length = _
    rw [List.length_append, List.length_singleton, hlen]
  rw [Location.calls, Location.calls, hlen', hlen, List.range_succ, List.range_succ,
    List.flatMap_append, List.flatMap_append, List.flatMap_append, List.flatMap_singleton,
    List.flatMap_singleton, List.flatMap_singleton, hlater, hlast, List.append_nil,
    List.flatMap_congr hbefore, List.append_assoc]

theorem push (h : s.Ordered) (hseq : s.Sequential apply) (hl : s.Loads apply) (t : τ) (o : ο)
    (b : α) : (s.push t o b).Ordered := by
  have hlen := hseq.length
  have hmono : s.seen ≤ Function.update s.seen t s.history.length :=
    le_update_self_iff.mpr (Nat.le_of_lt (hl.seen t))
  refine ⟨fun {n p} hp => ?_, fun p hp => ?_, fun u => ?_⟩
  · show n < Function.update s.seen t s.history.length p.1
    have hp' : (s.updates ++ [(t, o)])[n]? = some p := hp
    by_cases hn : n < s.updates.length
    · rw [List.getElem?_append_left hn] at hp'
      exact Nat.lt_of_lt_of_le (h.update hp') (hmono p.1)
    · have hle := (List.getElem?_eq_some_iff.mp hp').1
      rw [List.length_append, List.length_singleton] at hle
      obtain rfl : n = s.updates.length := by omega
      rw [List.getElem?_concat_length, Option.some.injEq] at hp'
      rw [← hp', Function.update_self]
      omega
  · exact Nat.le_trans (h.refused p hp) (hmono p.1.1)
  · show (s.push t o b).calls.filter _ = (s.ended ++ [(t, o)]).filter _
    rw [calls_push hseq hl, List.filter_append, List.filter_append, h.calls u]

/-- Behind what a thread has seen there is no call of it. -/
theorem filter_callsAt_eq_nil (h : s.Ordered) {t : τ} {n : Nat} (hn : s.seen t < n) :
    (s.callsAt n).filter (fun p => p.1 = t) = [] := by
  refine List.filter_eq_nil_iff.mpr fun p hp => ?_
  rw [decide_eq_true_eq]
  rintro rfl
  rcases List.mem_append.mp hp with hp | hp
  · obtain ⟨q, hq, rfl⟩ := List.mem_map.mp hp
    obtain ⟨hm, hqn⟩ := List.mem_filter.mp hq
    have hle := h.refused q hm
    have heq := of_decide_eq_true hqn
    omega
  · have hlt := h.update (Option.mem_toList.mp hp)
    omega

/-- **A call that had nothing to do stands behind the earlier calls of its
thread**, at the place that it saw. -/
theorem filter_calls (h : s.Ordered) {t : τ} {n : Nat} (hn : s.Readable t n) {o : ο}
    (hh : v.history = s.history) (hu : v.updates = s.updates)
    (hr : v.refused = s.refused ++ [((t, o), n)]) (u : τ) :
    v.calls.filter (fun p => p.1 = u) = (s.calls ++ [(t, o)]).filter fun p => p.1 = u := by
  have hat : ∀ m, v.callsAt m = (s.refused.filter fun p => p.2 = m).map Prod.fst ++
      ((if n = m then [(t, o)] else []) ++ (s.updates[m]?).toList) := by
    intro m
    rw [callsAt, hr, hu, List.filter_append, List.map_append, List.append_assoc]
    by_cases hm : n = m <;> simp [hm]
  have hother : ∀ m, n ≠ m → v.callsAt m = s.callsAt m := by
    intro m hm
    rw [hat, if_neg hm, List.nil_append, callsAt]
  obtain ⟨k, hk⟩ : ∃ k, s.history.length = n + 1 + k := Nat.exists_eq_add_of_le hn.2
  have hbefore : (List.range n).flatMap v.callsAt = (List.range n).flatMap s.callsAt :=
    List.flatMap_congr fun m hm => hother m (Nat.ne_of_gt (List.mem_range.mp hm))
  have hafter : ((List.range k).map (n + 1 + ·)).flatMap v.callsAt =
      ((List.range k).map (n + 1 + ·)).flatMap s.callsAt := by
    refine List.flatMap_congr fun m hm => hother m ?_
    obtain ⟨i, -, rfl⟩ := List.mem_map.mp hm
    omega
  rw [Location.calls, Location.calls, hh, hk, List.range_add, List.range_succ,
    List.flatMap_append, List.flatMap_append, List.flatMap_append, List.flatMap_append,
    List.flatMap_singleton, List.flatMap_singleton, hbefore, hafter, hat, if_pos rfl, callsAt]
  simp only [List.filter_append]
  by_cases htu : t = u
  · subst htu
    have hlate : (((List.range k).map (n + 1 + ·)).flatMap s.callsAt).filter
        (fun p => p.1 = t) = [] := by
      rw [List.filter_flatMap]
      refine List.flatMap_eq_nil_iff.mpr fun m hm => ?_
      obtain ⟨i, -, rfl⟩ := List.mem_map.mp hm
      have hseen := hn.1
      exact h.filter_callsAt_eq_nil (by omega)
    have hupdate : (s.updates[n]?).toList.filter (fun p => p.1 = t) = [] := by
      refine List.filter_eq_nil_iff.mpr fun p hp => ?_
      rw [decide_eq_true_eq]
      rintro rfl
      have hlt := h.update (Option.mem_toList.mp hp)
      have hseen := hn.1
      omega
    rw [hlate, hupdate]
    simp only [List.append_nil, List.append_assoc]
  · have hnone : [(t, o)].filter (fun p => p.1 = u) = [] := by simp [htu]
    rw [hnone, List.nil_append, List.append_nil]

theorem examine (h : s.Ordered) {t : τ} {n : Nat} (hn : s.Readable t n) (o : ο) :
    (s.examine apply t o n).Ordered := by
  have hmono : s.seen ≤ Function.update s.seen t n := le_update_self_iff.mpr hn.1
  unfold Location.examine
  split
  · exact h.mono rfl rfl rfl rfl hmono
  refine ⟨fun hp => Nat.lt_of_lt_of_le (h.update hp) (hmono _), fun p hp => ?_, fun u => ?_⟩
  · rcases List.mem_append.mp hp with hp | hp
    · exact Nat.le_trans (h.refused p hp) (hmono _)
    · rw [List.mem_singleton.mp hp]
      exact Nat.le_of_eq (Function.update_self t n s.seen).symm
  · refine (h.filter_calls (o := o) hn ?_ ?_ ?_ u).trans ?_
    · rfl
    · rfl
    · rfl
    show _ = (s.ended ++ [(t, o)]).filter _
    rw [List.filter_append, List.filter_append, h.calls u]

variable [DecidableEq α]

theorem step (h : s.Ordered) (hseq : s.Sequential apply) (hl : s.Loads apply)
    (hs : s.step apply e = some v) : v.Ordered := by
  cases stepped_of_step hs with
  | fetch => exact h.push hseq hl _ _ _
  | load _ hn => exact h.mono rfl rfl rfl rfl (le_update_self_iff.mpr hn.1)
  | begin _ hn => exact h.examine hn _
  | exchange => exact h.push hseq hl _ _ _
  | retry _ hn => exact h.examine hn _
  | sync => exact h.mono rfl rfl rfl rfl (le_update_self_iff.mpr (Nat.le_max_left _ _))

end Ordered

section Reached

variable [DecidableEq α]

theorem ordered_of_reaches {a : α} (h : Reaches (step apply) (fresh a) s) : s.Ordered := by
  have hinv := h.invariant (I := fun s => s.Sequential apply ∧ s.Loads apply ∧ s.Ordered)
    ⟨sequential_fresh a, loads_fresh a, ordered_fresh a⟩ ?_
  · exact hinv.2.2
  · rintro t u e ⟨hseq, hl, ho⟩ - hs
    exact ⟨hseq.step hs, hl.step hs, ho.step hseq hl hs⟩

end Reached

omit [DecidableEq τ] in
theorem flatMap_updates (l : List (τ × ο)) : ∀ m,
    ((List.range m).flatMap fun n => (l[n]?).toList) = l.take m
  | 0 => by rw [List.take_zero]; rfl
  | m + 1 => by
    rw [List.range_succ, List.flatMap_append, flatMap_updates l m, List.flatMap_singleton,
      List.take_add_one]

omit [DecidableEq τ] in
theorem updates_sublist (h : s.Sequential apply) : s.updates.Sublist s.calls := by
  have hlen := h.length
  have hall := flatMap_updates s.updates s.history.length
  rw [List.take_of_length_le (by omega)] at hall
  have hsub := List.Sublist.flatMap_right (List.range s.history.length) (g := s.callsAt)
    (f := fun n => (s.updates[n]?).toList) fun n _ => List.sublist_append_right _ _
  exact hall ▸ hsub

end Location

end Atomic
