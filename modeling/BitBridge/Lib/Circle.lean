import Mathlib.Data.List.Rotate
import Mathlib.Order.Lattice

/-!
# Walking once round a sorted circle

The items of a list are points on a circle, each at the place `f` gives it.  A
walk starts at `h`, goes up to the top and on from the bottom, and passes each
item once.  When the list is sorted and no two items share a place, the walk is
the list rotated to the first item not below `h`.

* `Before h a b`: the walk from `h` passes the place `a` before the place `b`.
* `pairwise_sweep`: **a sorted list, rotated, is sorted by the walk.**
* `find?_sweep`: the first item of the walk with a property is the one that is
  passed before all others that have it.  So it depends on the set of items,
  not on the list.
-/

namespace Circle

variable {α β : Type*} [LinearOrder α]

/-- Walking up from `h` and round, the place `a` is passed before `b`. -/
def Before (h a b : α) : Prop := h ≤ a ∧ (b < h ∨ a < b) ∨ b < h ∧ a < b

theorem Before.asymm {h a b : α} (hab : Before h a b) : ¬ Before h b a := by
  rintro (⟨h1, h2⟩ | ⟨h1, h2⟩)
  · rcases hab with ⟨h3, h4⟩ | ⟨h3, h4⟩
    · rcases h2 with h2 | h2
      · exact absurd h3 (not_le.mpr h2)
      · rcases h4 with h4 | h4
        · exact absurd h1 (not_le.mpr h4)
        · exact lt_asymm h2 h4
    · exact absurd h1 (not_le.mpr h3)
  · rcases hab with ⟨h3, -⟩ | ⟨-, h4⟩
    · exact absurd h3 (not_le.mpr h1)
    · exact lt_asymm h2 h4

/-- Where the walk starts in a sorted list. -/
def lowerBound (f : β → α) (h : α) (l : List β) : Nat := l.findIdx fun e => h ≤ f e

/-- The list in the order of the walk. -/
def sweep (f : β → α) (h : α) (l : List β) : List β := l.rotate (lowerBound f h l)

theorem mem_sweep {f : β → α} {h : α} {l : List β} {e : β} : e ∈ sweep f h l ↔ e ∈ l :=
  List.mem_rotate

/-- Below the start of the walk lie the items below `h`, and from it on the others. -/
theorem lowerBound_split {f : β → α} (h : α) {l : List β} (hl : l.Pairwise fun a b => f a < f b) :
    (∀ e ∈ l.take (lowerBound f h l), f e < h) ∧ ∀ e ∈ l.drop (lowerBound f h l), h ≤ f e := by
  induction l with
  | nil => exact ⟨fun e he => (nomatch he), fun e he => (nomatch he)⟩
  | cons a l ih =>
    obtain ⟨ha, hl⟩ := List.pairwise_cons.mp hl
    rcases le_or_gt h (f a) with hle | hlt
    · have h0 : lowerBound f h (a :: l) = 0 := by simp [lowerBound, List.findIdx_cons, hle]
      rw [h0]
      refine ⟨fun e he => (nomatch he), ?_⟩
      intro e he
      rcases List.mem_cons.mp he with rfl | he
      · exact hle
      · exact hle.trans (ha e he).le
    · have h1 : lowerBound f h (a :: l) = lowerBound f h l + 1 := by
        simp [lowerBound, List.findIdx_cons, not_le.mpr hlt]
      rw [h1, List.take_succ_cons, List.drop_succ_cons]
      refine ⟨?_, (ih hl).2⟩
      intro e he
      rcases List.mem_cons.mp he with rfl | he
      · exact hlt
      · exact (ih hl).1 e he

theorem lowerBound_le_length (f : β → α) (h : α) (l : List β) : lowerBound f h l ≤ l.length :=
  List.findIdx_le_length

/-- **The walk passes the list's items one after the other.** -/
theorem pairwise_sweep {f : β → α} (h : α) {l : List β} (hl : l.Pairwise fun a b => f a < f b) :
    (sweep f h l).Pairwise fun a b => Before h (f a) (f b) := by
  obtain ⟨htake, hdrop⟩ := lowerBound_split h hl
  rw [sweep, List.rotate_eq_drop_append_take (lowerBound_le_length f h l), List.pairwise_append]
  refine ⟨?_, ?_, fun a ha b hb => .inl ⟨hdrop a ha, .inl (htake b hb)⟩⟩
  · refine (hl.drop).imp_of_mem fun {a b} ha _ hab => ?_
    exact .inl ⟨hdrop a ha, .inr hab⟩
  · refine (hl.take).imp_of_mem fun {a b} _ hb hab => ?_
    exact .inr ⟨htake b hb, hab⟩

/-- In a list sorted by an asymmetric order, the first item with a property
comes before every other one. -/
theorem find?_eq_some_of_pairwise {R : β → β → Prop} (hR : ∀ {a b}, R a b → ¬ R b a) {p : β → Bool}
    {x : β} : ∀ {l : List β}, l.Pairwise R →
      (l.find? p = some x ↔ x ∈ l ∧ p x = true ∧ ∀ y ∈ l, p y = true → y = x ∨ R x y)
  | [], _ => by simp
  | a :: l, hl => by
    obtain ⟨ha, hl⟩ := List.pairwise_cons.mp hl
    rw [List.find?_cons]
    cases hp : p a with
    | true =>
      simp only [Option.some.injEq]
      constructor
      · rintro rfl
        refine ⟨List.mem_cons_self, hp, ?_⟩
        intro y hy _
        rcases List.mem_cons.mp hy with rfl | hy
        · exact .inl rfl
        · exact .inr (ha y hy)
      · rintro ⟨hx, -, hmin⟩
        rcases hmin a List.mem_cons_self hp with h1 | h1
        · exact h1
        · rcases List.mem_cons.mp hx with rfl | hx
          · rfl
          · exact absurd h1 (hR (ha x hx))
    | false =>
      simp only [find?_eq_some_of_pairwise hR hl]
      have hne : ∀ y, p y = true → y ≠ a := fun y hy he => by
        rw [he, hp] at hy
        cases hy
      constructor
      · rintro ⟨hx, hpx, hmin⟩
        refine ⟨List.mem_cons_of_mem a hx, hpx, ?_⟩
        intro y hy hpy
        exact hmin y ((List.mem_cons.mp hy).resolve_left (hne y hpy)) hpy
      · rintro ⟨hx, hpx, hmin⟩
        refine ⟨(List.mem_cons.mp hx).resolve_left (hne x hpx), hpx, ?_⟩
        intro y hy hpy
        exact hmin y (List.mem_cons_of_mem a hy) hpy

/-- **What a walk finds** is the item with the property that it passes first. -/
theorem find?_sweep {f : β → α} (h : α) {l : List β} (hl : l.Pairwise fun a b => f a < f b)
    {p : β → Bool} {x : β} : (sweep f h l).find? p = some x ↔
      x ∈ l ∧ p x = true ∧ ∀ y ∈ l, p y = true → y = x ∨ Before h (f x) (f y) := by
  rw [find?_eq_some_of_pairwise (fun hab => hab.asymm) (pairwise_sweep h hl)]
  simp only [mem_sweep]

theorem find?_sweep_eq_none {f : β → α} {h : α} {l : List β} {p : β → Bool} :
    (sweep f h l).find? p = none ↔ ∀ y ∈ l, p y = false := by
  rw [List.find?_eq_none]
  simp only [mem_sweep, Bool.not_eq_true]

@[simp] theorem length_sweep (f : β → α) (h : α) (l : List β) : (sweep f h l).length = l.length :=
  List.length_rotate ..

theorem getElem?_sweep {f : β → α} {h : α} {l : List β} {k : Nat} (hk : k < l.length) :
    l[(lowerBound f h l + k) % l.length]? = (sweep f h l)[k]? := by
  rw [sweep, List.getElem?_rotate hk, Nat.add_comm]

end Circle
