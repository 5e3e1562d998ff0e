import BitBridge.Lib.Atomic
import BitBridge.Lib.Positions
import BitBridge.State.ServicePool
import Mathlib.Data.List.Nodup

/-!
# The counter of active connections between threads

`m_activeConnections` (`core/state/ServiceState.cpp`) is an atomic that is only
used with relaxed order.  `IncrementConnections` is a `fetch_add`, and
`DecrementConnections` a load and then a loop of `compare_exchange_weak` that
ends at 0.  Here any threads call them, and the steps of two calls may mix.

A `Call` of a decrement has the place of the increment that it takes back, which
the code does not see: a session takes back the one of its own start.

* `calls_one_by_one`: **a run is as if its calls were made one by one.**
* `no_decrement_lost`: when each decrement takes back an increment of its own
  that its thread has seen, none finds a 0, so none is lost.
-/

namespace BitBridge

open Steps Atomic

inductive Call
  | increment
  | decrement (taken : Nat)
  deriving DecidableEq, Repr

namespace Call

def run : Call → ServiceState → ServiceState
  | increment, s => s.incrementConnections
  | decrement _, s => s.decrementConnections

/-- What the call writes over the value that it finds, if it writes. -/
def apply : Call → UInt64 → Option UInt64
  | increment, v => some (v + 1)
  | decrement _, v => if v > 0 then some (v - 1) else none

def taken? : Call → Option Nat
  | increment => none
  | decrement p => some p

@[simp] theorem taken?_eq_some {c : Call} {p : Nat} : c.taken? = some p ↔ c = decrement p := by
  cases c <;> simp [taken?]

theorem run_eq (c : Call) (s : ServiceState) :
    c.run s = { s with activeConnections := (c.apply s.activeConnections).getD s.activeConnections
      } := by
  cases c with
  | increment => rfl
  | decrement p =>
    show s.decrementConnections = _
    rw [ServiceState.decrementConnections, apply]
    by_cases h : s.activeConnections > 0
    · rw [if_pos h, if_pos h]
      rfl
    · rw [if_neg h, if_neg h]
      rfl

theorem foldl_run {τ : Type} (l : List (τ × Call)) (s : ServiceState) :
    l.foldl (fun t p => p.2.run t) s =
      { s with activeConnections := l.foldl (Location.call apply) s.activeConnections } := by
  induction l generalizing s with
  | nil => rfl
  | cons p l ih =>
    rw [List.foldl_cons, run_eq, ih, List.foldl_cons]
    rfl

end Call

/-- An atomic operation of a thread of `τ` on the counter: the `n` are the places
of the values that a load or a failed exchange gives. -/
inductive CounterEvent (τ : Type)
  | incrementConnections (t : τ)
  | getActiveConnections (t : τ) (n : Nat)
  | decrementConnections (t : τ) (taken n : Nat)
  | exchanged (t : τ)
  | exchangeFailed (t : τ) (n : Nat)
  | sync (t u : τ)

def CounterEvent.toEvent {τ : Type} : CounterEvent τ → Event τ Call
  | incrementConnections t => .fetch t .increment
  | getActiveConnections t n => .load t n
  | decrementConnections t taken n => .begin t (.decrement taken) n
  | exchanged t => .exchange t
  | exchangeFailed t n => .retry t n
  | sync t u => .sync t u

abbrev ActiveConnections (τ : Type) := Location UInt64 τ Call

namespace ActiveConnections

variable {τ : Type} [DecidableEq τ] {s v : ActiveConnections τ} {e : CounterEvent τ}

def step (s : ActiveConnections τ) (e : CounterEvent τ) : Option (ActiveConnections τ) :=
  Location.step Call.apply s e.toEvent

theorem location_of_reaches {ok : ActiveConnections τ → CounterEvent τ → Prop} {a : UInt64}
    (h : ReachesIn step ok (Location.fresh a) s) :
    Reaches (Location.step Call.apply) (Location.fresh a) s := by
  refine h.invariant (I := Reaches (Location.step Call.apply) (Location.fresh a)) .refl ?_
  intro t u e ht _ hs
  exact ht.tail trivial hs

def increments (l : List (τ × Call)) : Nat := l.countP fun p => p.2 = .increment

/-- The increments that have been taken back. -/
def taken (l : List (τ × Call)) : List Nat := l.filterMap fun p => p.2.taken?

def Increments (l : List (τ × Call)) (p : Nat) : Prop :=
  l[p]?.any (fun q => q.2 = .increment) = true

instance (l : List (τ × Call)) (p : Nat) : Decidable (Increments l p) :=
  inferInstanceAs (Decidable (_ = true))

/-- A decrement takes back an increment that its thread has seen and that no
other call takes back. -/
def Owed (s : ActiveConnections τ) : CounterEvent τ → Prop
  | .decrementConnections t p _ => Increments s.updates p ∧ p < s.seen t ∧
    p ∉ taken s.updates ∧ ∀ u, (s.loop u).map Prod.fst ≠ some (.decrement p)
  | _ => True

omit [DecidableEq τ] in
/-- Without overflow the counter is the increments that have not been taken back. -/
theorem toNat_history (h : s.Sequential Call.apply) (h0 : s.history[0]? = some 0)
    (hn : increments s.updates < 2 ^ 64) : ∀ {n : Nat} {a : UInt64}, s.history[n]? = some a →
      a.toNat + (taken (s.updates.take n)).length = increments (s.updates.take n)
  | 0, a, ha => by
    obtain rfl := Option.some.inj (h0.symm.trans ha)
    rw [List.take_zero]
    rfl
  | n + 1, b, hb => by
    have hlen := h.length
    have hlt := (List.getElem?_eq_some_iff.mp hb).1
    obtain ⟨p, hp⟩ : ∃ p, s.updates[n]? = some p :=
      ⟨_, List.getElem?_eq_getElem (by omega)⟩
    obtain ⟨a, b', ha, hb', hab⟩ := h.acts hp
    obtain rfl : b' = b := Option.some.inj (hb'.symm.trans hb)
    have ih := toNat_history h h0 hn ha
    have hle : increments (s.updates.take (n + 1)) ≤ increments s.updates :=
      (List.take_sublist _ _).countP_le
    rw [List.take_add_one, hp, Option.toList_some, increments, List.countP_append] at hle
    rw [List.take_add_one, hp, Option.toList_some, increments, taken, List.filterMap_append,
      List.length_append, List.countP_append]
    rw [increments, taken] at ih
    obtain ⟨t, c⟩ := p
    cases c with
    | increment =>
      obtain rfl : a + 1 = b' := Option.some.inj hab
      have hone : [(t, Call.increment)].countP (fun p => p.2 = .increment) = 1 := rfl
      have hnil : ([(t, Call.increment)].filterMap fun p => p.2.taken?).length = 0 := rfl
      rw [hone] at hle ⊢
      rw [hnil]
      have hsum : (a + 1).toNat = a.toNat + 1 := by
        rw [UInt64.toNat_add, UInt64.toNat_one, Nat.mod_eq_of_lt (by omega)]
      omega
    | decrement q =>
      rw [Call.apply, Option.ite_none_right_eq_some] at hab
      obtain ⟨hpos, hab⟩ := hab
      obtain rfl := Option.some.inj hab
      have hzero : [(t, Call.decrement q)].countP (fun p => p.2 = .increment) = 0 := rfl
      have hone : ([(t, Call.decrement q)].filterMap fun p => p.2.taken?).length = 1 := rfl
      rw [hzero, hone]
      have hpos' : 0 < a.toNat := UInt64.lt_iff_toNat_lt.mp hpos
      have hsub : (a - 1).toNat = a.toNat - 1 :=
        UInt64.toNat_sub_of_le _ _ (UInt64.le_iff_toNat_le.mpr hpos')
      omega

/-- Every decrement takes back an increment of its own, and none has found a 0. -/
structure Settled (s : ActiveConnections τ) : Prop where
  nodup : (taken s.updates).Nodup
  earlier : ∀ {n t p}, s.updates[n]? = some (t, .decrement p) → p < n ∧ Increments s.updates p
  loop : ∀ {t c n}, s.loop t = some (c, n) → ∃ p, c = .decrement p ∧ p < n ∧
    Increments s.updates p ∧ p ∉ taken s.updates
  apart : ∀ {t u p n m}, s.loop t = some (.decrement p, n) → s.loop u = some (.decrement p, m) →
    t = u
  refused : increments s.updates < 2 ^ 64 → s.refused = []

namespace Settled

omit [DecidableEq τ] in
/-- **A decrement whose increment is older than a value does not find a 0 there**:
the others have taken back different ones. -/
theorem ne_zero (h : s.Settled) (hseq : s.Sequential Call.apply) (h0 : s.history[0]? = some 0)
    (hn : increments s.updates < 2 ^ 64) {p n : Nat} {a : UInt64} (ha : s.history[n]? = some a)
    (hpn : p < n) (hp : Increments s.updates p) (hfree : p ∉ taken s.updates) : a > 0 := by
  have heq := toNat_history hseq h0 hn ha
  have hsub : (taken (s.updates.take n)).Sublist (taken s.updates) :=
    (List.take_sublist _ _).filterMap _
  have hnodup : (p :: taken (s.updates.take n)).Nodup :=
    List.nodup_cons.mpr ⟨fun hm => hfree (hsub.subset hm), h.nodup.sublist hsub⟩
  have hle : (p :: taken (s.updates.take n)).length ≤ increments (s.updates.take n) := by
    refine Positions.length_le_countP hnodup fun q hq => ?_
    rcases List.mem_cons.mp hq with rfl | hq
    · exact ⟨hpn, hp⟩
    · obtain ⟨⟨t, c⟩, hm, hc⟩ := List.mem_filterMap.mp hq
      obtain rfl : c = .decrement q := Call.taken?_eq_some.mp hc
      obtain ⟨i, hi, hget⟩ := List.mem_take_iff_getElem.mp hm
      obtain ⟨hqi, hinc⟩ := h.earlier (List.getElem?_eq_some_iff.mpr ⟨by omega, hget⟩)
      exact ⟨by omega, hinc⟩
  rw [List.length_cons] at hle
  refine UInt64.lt_iff_toNat_lt.mpr ?_
  show 0 < a.toNat
  omega

omit [DecidableEq τ] in
theorem fresh : Settled (Location.fresh 0 : ActiveConnections τ) :=
  ⟨List.nodup_nil, fun h => (nomatch h), fun h => (nomatch h), fun h => (nomatch h), fun _ => rfl⟩

omit [DecidableEq τ] in
theorem congr (h : s.Settled) (hu : v.updates = s.updates) (hl : v.loop = s.loop)
    (hr : v.refused = s.refused) : v.Settled where
  nodup := hu ▸ h.nodup
  earlier hp := by
    rw [hu] at hp ⊢
    exact h.earlier hp
  loop hp := by
    rw [hu]
    exact h.loop (hl ▸ hp)
  apart ht hu' := h.apart (hl ▸ ht) (hl ▸ hu')
  refused hn := by
    rw [hr]
    exact h.refused (hu ▸ hn)

omit [DecidableEq τ] in
theorem increments_append {l : List (τ × Call)} {p : Nat} (h : Increments l p)
    (m : List (τ × Call)) : Increments (l ++ m) p := by
  obtain ⟨q, hq, -⟩ := (Option.any_eq_true _ _).mp h
  rw [Increments, List.getElem?_append_left (List.getElem?_eq_some_iff.mp hq).1]
  exact h

/-- **A call writes.**  A decrement takes its increment back. -/
theorem push (h : s.Settled) {t : τ} {c : Call} (b : UInt64)
    (hc : ∀ p, c = .decrement p → Increments s.updates p ∧ p ∉ taken s.updates ∧
      ∀ {u m}, s.loop u = some (.decrement p, m) → u = t) : Settled (s.push t c b) := by
  have htaken : taken (s.updates ++ [(t, c)]) = taken s.updates ++ c.taken?.toList := by
    rw [taken, List.filterMap_append]
    cases c <;> rfl
  have hother : ∀ {u d}, (s.push t c b).loop u = some d → u ≠ t ∧ s.loop u = some d := by
    intro u d hd
    have hd' : Function.update s.loop t none u = some d := hd
    by_cases hut : u = t
    · subst hut
      rw [Function.update_self] at hd'
      cases hd'
    · rw [Function.update_of_ne hut] at hd'
      exact ⟨hut, hd'⟩
  refine ⟨?_, fun {n u p} hp => ?_, fun {u d n} hd => ?_, fun hu hw => ?_, fun hn => ?_⟩
  · show (taken (s.updates ++ [(t, c)])).Nodup
    rw [htaken]
    cases c with
    | increment => exact (List.append_nil _).symm ▸ h.nodup
    | decrement p =>
      exact List.Nodup.append h.nodup (List.nodup_singleton p)
        (List.disjoint_singleton.mpr (hc p rfl).2.1)
  · have hp' : (s.updates ++ [(t, c)])[n]? = some (u, .decrement p) := hp
    show p < n ∧ Increments (s.updates ++ [(t, c)]) p
    by_cases hn : n < s.updates.length
    · rw [List.getElem?_append_left hn] at hp'
      obtain ⟨hlt, hinc⟩ := h.earlier hp'
      exact ⟨hlt, increments_append hinc _⟩
    · have hle := (List.getElem?_eq_some_iff.mp hp').1
      rw [List.length_append, List.length_singleton] at hle
      obtain rfl : n = s.updates.length := by omega
      rw [List.getElem?_concat_length, Option.some.injEq, Prod.mk.injEq] at hp'
      obtain ⟨hinc, -, -⟩ := hc p hp'.2
      obtain ⟨q, hq, -⟩ := (Option.any_eq_true _ _).mp hinc
      exact ⟨(List.getElem?_eq_some_iff.mp hq).1, increments_append hinc _⟩
  · obtain ⟨hut, hd'⟩ := hother hd
    obtain ⟨p, rfl, hpn, hinc, hfree⟩ := h.loop hd'
    refine ⟨p, rfl, hpn, increments_append hinc _, ?_⟩
    show p ∉ taken (s.updates ++ [(t, c)])
    rw [htaken, List.mem_append, not_or]
    refine ⟨hfree, fun hp => ?_⟩
    have hcp := Call.taken?_eq_some.mp (Option.mem_toList.mp hp)
    exact hut ((hc p hcp).2.2 hd')
  · exact h.apart (hother hu).2 (hother hw).2
  · have hle : increments s.updates ≤ increments (s.updates ++ [(t, c)]) :=
      (List.sublist_append_left _ _).countP_le
    exact h.refused (Nat.lt_of_le_of_lt hle hn)

/-- **A loop looks at a value**: it has something to do. -/
theorem examine (h : s.Settled) (hseq : s.Sequential Call.apply)
    (h0 : s.history[0]? = some 0) {t : τ} {p n : Nat} (hn : s.Readable t n) (hpn : p < n)
    (hp : Increments s.updates p) (hfree : p ∉ taken s.updates)
    (halone : ∀ {u m}, s.loop u = some (.decrement p, m) → u = t) :
    Settled (s.examine Call.apply t (.decrement p) n) := by
  obtain ⟨a, ha⟩ : ∃ a, s.history[n]? = some a := ⟨_, List.getElem?_eq_getElem hn.2⟩
  unfold Location.examine
  rw [ha, Option.bind_some]
  split
  · have hcases : ∀ {u d}, Function.update s.loop t (some (.decrement p, n)) u = some d →
        u = t ∧ d = (.decrement p, n) ∨ u ≠ t ∧ s.loop u = some d := by
      intro u d hd
      by_cases hut : u = t
      · subst hut
        rw [Function.update_self, Option.some.injEq] at hd
        exact .inl ⟨rfl, hd.symm⟩
      · rw [Function.update_of_ne hut] at hd
        exact .inr ⟨hut, hd⟩
    refine ⟨h.nodup, h.earlier, fun {u d m} hd => ?_, fun {u w q m k} hu hw => ?_, h.refused⟩
    · rcases hcases hd with ⟨-, hd⟩ | ⟨-, hd⟩
      · obtain ⟨rfl, rfl⟩ := Prod.mk.inj hd
        exact ⟨p, rfl, hpn, hp, hfree⟩
      · exact h.loop hd
    · rcases hcases hu with ⟨rfl, hd⟩ | ⟨hut, hd⟩ <;> rcases hcases hw with ⟨rfl, hd'⟩ | ⟨hwt, hd'⟩
      · rfl
      · obtain ⟨hq, -⟩ := Prod.mk.inj hd
        exact (halone (hq ▸ hd')).symm
      · obtain ⟨hq, -⟩ := Prod.mk.inj hd'
        exact halone (hq ▸ hd)
      · exact h.apart hd hd'
  · next hnone =>
    refine ⟨h.nodup, h.earlier, fun {u d m} hd => ?_, fun {u w q m k} hu hw => ?_, fun hlt => ?_⟩
    · have hd' : Function.update s.loop t none u = some (d, m) := hd
      by_cases hut : u = t
      · subst hut
        rw [Function.update_self] at hd'
        cases hd'
      · rw [Function.update_of_ne hut] at hd'
        exact h.loop hd'
    · have hu' : Function.update s.loop t none u = some (.decrement q, m) := hu
      have hw' : Function.update s.loop t none w = some (.decrement q, k) := hw
      by_cases hut : u = t
      · subst hut
        rw [Function.update_self] at hu'
        cases hu'
      by_cases hwt : w = t
      · subst hwt
        rw [Function.update_self] at hw'
        cases hw'
      rw [Function.update_of_ne hut] at hu'
      rw [Function.update_of_ne hwt] at hw'
      exact h.apart hu' hw'
    · have hpos := h.ne_zero hseq h0 hlt ha hpn hp hfree
      rw [Call.apply, if_pos hpos] at hnone
      exact absurd rfl hnone

theorem step (h : s.Settled) (hseq : s.Sequential Call.apply) (hl : s.Loads Call.apply)
    (h0 : s.history[0]? = some 0) (hok : Owed s e) (hs : step s e = some v) : v.Settled := by
  have hst := Location.stepped_of_step hs
  cases e with
  | incrementConnections t =>
    cases hst with
    | fetch =>
      refine h.push _ fun p hp => ?_
      cases hp
  | getActiveConnections t n =>
    cases hst with
    | load => exact h.congr rfl rfl rfl
  | decrementConnections t p n =>
    obtain ⟨hinc, hseen, hfree, hloop⟩ := hok
    cases hst with
    | begin _ hn =>
      refine h.examine hseq h0 hn (Nat.lt_of_lt_of_le hseen hn.1) hinc hfree fun {u m} hu => ?_
      exact absurd (by rw [hu]; rfl) (hloop u)
  | exchanged t =>
    cases hst with
    | exchange hlt =>
      obtain ⟨p, rfl, -, hinc, hfree⟩ := h.loop hlt
      refine h.push _ fun q hq => ?_
      obtain rfl := Call.decrement.inj hq
      exact ⟨hinc, hfree, fun hu => h.apart hu hlt⟩
  | exchangeFailed t n =>
    cases hst with
    | retry hlt hn =>
      obtain ⟨p, rfl, hpm, hinc, hfree⟩ := h.loop hlt
      have hm := (hl.loop hlt).1
      have hseen := hn.1
      exact h.examine hseq h0 hn (by omega) hinc hfree fun hu => h.apart hu hlt
  | sync t u =>
    cases hst with
    | sync => exact h.congr rfl rfl rfl

end Settled

theorem settled_of_reaches (h : ReachesIn step Owed (Location.fresh 0) s) : s.Settled := by
  have hinv := h.invariant (I := fun s => Reaches (Location.step Call.apply) (Location.fresh 0) s ∧
    Settled s) ⟨.refl, Settled.fresh⟩ ?_
  · exact hinv.2
  · rintro t u e ⟨hr, ht⟩ hok hs
    exact ⟨hr.tail trivial hs, ht.step (Location.sequential_of_reaches hr)
      (Location.loads_of_reaches hr) (Location.first_of_reaches hr) hok hs⟩

/-- A decrement that is left alone is over after it has tried once more. -/
theorem exists_decrement (h : ReachesIn step Owed (Location.fresh 0) s)
    (hn : increments s.updates < 2 ^ 64) {t : τ} {l : Call × Nat} (hl : s.loop t = some l) :
    ∃ n v, run step s [.exchangeFailed t n, .exchanged t] = some v ∧ v.loop t = none ∧
      v.updates = s.updates ++ [(t, l.1)] := by
  obtain ⟨n, v, hnone, ⟨hrun, hupd, -⟩ | ⟨hs, hupd, hne⟩⟩ :=
    Location.exists_finish (Location.loads_of_reaches (location_of_reaches h)) hl
  · exact ⟨n, v, hrun, hnone, hupd⟩
  · have hv : ReachesIn step Owed (Location.fresh 0) v :=
      h.tail (e := .exchangeFailed t n) trivial hs
    exact absurd ((settled_of_reaches hv).refused (hupd ▸ hn)) hne

/-- **No decrement is lost**: when each takes back an increment of its own that
its thread has seen, none finds a 0, and the counter is the increments that have
not been taken back.  No decrement waits for another thread. -/
theorem no_decrement_lost (h : ReachesIn step Owed (Location.fresh 0) s)
    (hn : increments s.updates < 2 ^ 64) :
    s.refused = [] ∧ (taken s.updates).Nodup ∧
      (∀ a, s.history.getLast? = some a →
        a.toNat + (taken s.updates).length = increments s.updates) ∧
      ∀ t l, s.loop t = some l → ∃ n v,
        run step s [.exchangeFailed t n, .exchanged t] = some v ∧ v.loop t = none ∧
          v.updates = s.updates ++ [(t, l.1)] := by
  have hset := settled_of_reaches h
  have hr := location_of_reaches h
  have hseq := Location.sequential_of_reaches hr
  refine ⟨hset.refused hn, hset.nodup, fun a ha => ?_, fun t l hl => exists_decrement h hn hl⟩
  have hlen := hseq.length
  rw [List.getLast?_eq_getElem?, hlen, Nat.add_sub_cancel] at ha
  have heq := toNat_history hseq (Location.first_of_reaches hr) hn ha
  rwa [List.take_length] at heq

/-- Two threads, and a decrement that starts from a value that is not the last. -/
theorem no_decrement_lost_two : ∃ s : ActiveConnections Bool,
    s.history = [0, 1, 2, 1] ∧ s.refused = [] ∧ (taken s.updates).Nodup := by
  have h : ReachesIn step Owed (Location.fresh 0 : ActiveConnections Bool) _ :=
    .tail (e := .exchanged true) (.tail (e := .exchangeFailed true 2)
      (.tail (e := .decrementConnections true 0 1)
        (.tail (e := .incrementConnections false)
          (.tail (e := .incrementConnections true) .refl trivial rfl) trivial rfl)
        ⟨by decide, by decide, by decide, by decide⟩ rfl) trivial rfl) trivial rfl
  obtain ⟨hrefused, hnodup, -⟩ := no_decrement_lost h (by decide)
  exact ⟨_, rfl, hrefused, hnodup⟩

end ActiveConnections

end BitBridge
