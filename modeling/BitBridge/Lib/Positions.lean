import Mathlib.Data.List.Basic
import Mathlib.Order.Basic

/-!
# Erasing positions of a list

Erasing one position of a list moves what stands behind it.  When several
positions are erased, the last one first, none of the others moves.

* `foldr_eraseIdx`: **erasing increasing positions, the last one first**, leaves
  what stands at the others.
* `unselected_filter_range`: erasing where a predicate holds is a filter.
* `length_le_countP`: as many different positions as elements that stand there.
-/

namespace Positions

variable {α : Type*}

/-- What stands at no position of `l`, in order, when the first element stands
at the position `n`. -/
def unselectedFrom (n : Nat) (l : List Nat) (xs : List α) : List α :=
  ((xs.zipIdx n).filter fun p => p.2 ∉ l).map Prod.fst

def unselected (l : List Nat) (xs : List α) : List α := unselectedFrom 0 l xs

@[simp] theorem unselectedFrom_nil (n : Nat) (l : List Nat) :
    unselectedFrom n l ([] : List α) = [] := rfl

theorem unselectedFrom_cons_of_mem {n : Nat} {l : List Nat} (h : n ∈ l) (x : α) (xs : List α) :
    unselectedFrom n l (x :: xs) = unselectedFrom (n + 1) l xs := by
  rw [unselectedFrom, List.zipIdx_cons, List.filter_cons_of_neg (by simpa using h)]
  rfl

theorem unselectedFrom_cons_of_not_mem {n : Nat} {l : List Nat} (h : n ∉ l) (x : α)
    (xs : List α) : unselectedFrom n l (x :: xs) = x :: unselectedFrom (n + 1) l xs := by
  rw [unselectedFrom, List.zipIdx_cons, List.filter_cons_of_pos (by simpa using h)]
  rfl

theorem unselectedFrom_cons_lt {n i : Nat} (h : i < n) (l : List Nat) (xs : List α) :
    unselectedFrom n (i :: l) xs = unselectedFrom n l xs := by
  rw [unselectedFrom, unselectedFrom]
  refine congrArg (List.map Prod.fst) (List.filter_congr fun p hp => ?_)
  have hle : n ≤ p.2 := List.le_snd_of_mem_zipIdx hp
  have hne : p.2 ≠ i := by omega
  simp [hne]

theorem foldr_eraseIdx_cons {n : Nat} (x : α) : ∀ (l : List Nat) (xs : List α),
    (∀ i ∈ l, n < i) → l.foldr (fun i ys => ys.eraseIdx (i - n)) (x :: xs) =
      x :: l.foldr (fun i ys => ys.eraseIdx (i - (n + 1))) xs
  | [], _, _ => rfl
  | i :: l, xs, h => by
    have hi := h i List.mem_cons_self
    have hsub : i - n = (i - (n + 1)) + 1 := by omega
    rw [List.foldr_cons, foldr_eraseIdx_cons x l xs fun j hj => h j (List.mem_cons_of_mem _ hj),
      hsub, List.eraseIdx_cons_succ, List.foldr_cons]

theorem foldr_eraseIdx_nil (n : Nat) (l : List Nat) :
    l.foldr (fun i ys => ys.eraseIdx (i - n)) ([] : List α) = [] := by
  induction l with
  | nil => rfl
  | cons i l ih => rw [List.foldr_cons, ih, List.eraseIdx_nil]

theorem foldr_eraseIdx_from (xs : List α) : ∀ (n : Nat) (l : List Nat), l.Pairwise (· < ·) →
    (∀ i ∈ l, n ≤ i) →
      l.foldr (fun i ys => ys.eraseIdx (i - n)) xs = unselectedFrom n l xs := by
  induction xs with
  | nil =>
    intro n l _ _
    rw [unselectedFrom_nil, foldr_eraseIdx_nil]
  | cons x xs ih =>
    intro n l hl hn
    cases l with
    | nil =>
      rw [unselectedFrom_cons_of_not_mem (List.not_mem_nil),
        ← ih (n + 1) [] List.Pairwise.nil (List.forall_mem_nil _)]
      rfl
    | cons i l =>
      obtain ⟨hlt, hl'⟩ := List.pairwise_cons.mp hl
      have hi := hn i List.mem_cons_self
      rcases Nat.eq_or_lt_of_le hi with rfl | hni
      · rw [List.foldr_cons, foldr_eraseIdx_cons x l xs hlt, Nat.sub_self,
          List.eraseIdx_cons_zero, unselectedFrom_cons_of_mem List.mem_cons_self,
          unselectedFrom_cons_lt (Nat.lt_succ_self n)]
        exact ih (n + 1) l hl' hlt
      · have hall : ∀ j ∈ i :: l, n < j := by
          intro j hj
          rcases List.mem_cons.mp hj with rfl | hj
          · exact hni
          · exact Nat.lt_trans hni (hlt j hj)
        rw [foldr_eraseIdx_cons x (i :: l) xs hall,
          unselectedFrom_cons_of_not_mem fun h => Nat.lt_irrefl n (hall n h),
          ih (n + 1) (i :: l) hl hall]

/-- **Erasing increasing positions, the last one first**, leaves what stands at
the others. -/
theorem foldr_eraseIdx {l : List Nat} (h : l.Pairwise (· < ·)) (xs : List α) :
    l.foldr (fun i ys => ys.eraseIdx i) xs = unselected l xs :=
  foldr_eraseIdx_from xs 0 l h fun i _ => Nat.zero_le i

theorem unselected_map {β : Type*} (g : α → β) (l : List Nat) (xs : List α) :
    unselected l (xs.map g) = (unselected l xs).map g := by
  simp only [unselected, unselectedFrom, List.zipIdx_map, List.filter_map, List.map_map]
  rfl

@[simp] theorem unselected_nil (xs : List α) : unselected [] xs = xs := by
  simp [unselected, unselectedFrom, List.zipIdx_map_fst]

theorem filter_range_of_le {f : α → Bool} {xs : List α} {n : Nat} (h : xs.length ≤ n) :
    ((List.range n).filter fun i => xs[i]?.any f) =
      (List.range xs.length).filter fun i => xs[i]?.any f := by
  obtain ⟨k, rfl⟩ := Nat.exists_eq_add_of_le h
  have hbeyond : (((List.range k).map fun i => xs.length + i).filter fun i => xs[i]?.any f) =
      [] := by
    refine List.filter_eq_nil_iff.mpr fun j hj => ?_
    obtain ⟨i, -, rfl⟩ := List.mem_map.mp hj
    simp
  rw [List.range_add, List.filter_append, hbeyond, List.append_nil]

/-- **Erasing every position where an element with `f` stands.** -/
theorem unselected_filter_range (f : α → Bool) (xs : List α) :
    unselected ((List.range xs.length).filter fun i => xs[i]?.any f) xs =
      xs.filter fun x => !f x := by
  have hkeep : ∀ p ∈ xs.zipIdx 0,
      decide (p.2 ∉ (List.range xs.length).filter fun i => xs[i]?.any f) = !f p.1 := by
    intro p hp
    obtain ⟨hlt, hx⟩ := List.getElem?_eq_some_iff.mp (List.mem_zipIdx_iff_getElem?.mp hp)
    simp [hlt, hx]
  rw [unselected, unselectedFrom, List.filter_congr hkeep]
  conv_rhs => rw [← List.zipIdx_map_fst 0 xs, List.filter_map]
  rfl

theorem length_filter_range (f : α → Bool) (xs : List α) : ∀ n,
    ((List.range n).filter fun i => xs[i]?.any f).length = (xs.take n).countP f
  | 0 => by rw [List.take_zero]; rfl
  | n + 1 => by
    rw [List.range_succ, List.filter_append, List.length_append, length_filter_range f xs n,
      List.take_add_one, List.countP_append]
    congr 1
    cases hx : xs[n]? with
    | none => simp [hx]
    | some x => by_cases hf : f x = true <;> simp [hx, hf]

/-- **Different positions before `n` where an element with `f` stands** are at
most as many as these. -/
theorem length_le_countP {f : α → Bool} {xs : List α} {n : Nat} {l : List Nat} (hl : l.Nodup)
    (h : ∀ i ∈ l, i < n ∧ xs[i]?.any f = true) : l.length ≤ (xs.take n).countP f := by
  rw [← length_filter_range]
  refine List.Nodup.length_le_of_subset hl fun i hi => ?_
  obtain ⟨hn, hf⟩ := h i hi
  exact List.mem_filter.mpr ⟨List.mem_range.mpr hn, hf⟩

end Positions
