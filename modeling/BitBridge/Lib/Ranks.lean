import Mathlib.Data.List.Sort

/-!
# Ranks in a list

What stands at the position `k` of a list once it is sorted depends on the
elements only, and not on their order.

* `HasRank`: more than `k` elements are at most `x`, and all but `k` are at
  least `x`.
* `hasRank_of_getElem?`: **so it is at the position `k` of a sorted list.**
* `HasRank.le`: a higher rank is a greater element.
-/

namespace Ranks

variable {α : Type*} [LinearOrder α] {l l' : List α} {x y : α} {j k : Nat}

structure HasRank (l : List α) (k : Nat) (x : α) : Prop where
  mem : x ∈ l
  atMost : k < l.countP (· ≤ x)
  atLeast : l.length ≤ k + l.countP (x ≤ ·)

/-- **At the position `k` of a sorted list** stands an element of the rank `k`. -/
theorem hasRank_of_getElem? (h : l.Pairwise (· ≤ ·)) (hx : l[k]? = some x) : HasRank l k x := by
  refine ⟨List.mem_of_getElem? hx, ?_, ?_⟩
  · induction l generalizing k with
    | nil => cases hx
    | cons a l ih =>
      obtain ⟨ha, hl⟩ := List.pairwise_cons.mp h
      cases k with
      | zero =>
        obtain rfl := Option.some.inj hx
        rw [List.countP_cons_of_pos (by simp)]
        omega
      | succ k =>
        have hk := ih hl hx
        rw [List.countP_cons_of_pos (by simpa using ha x (List.mem_of_getElem? hx))]
        omega
  · induction l generalizing k with
    | nil => cases hx
    | cons a l ih =>
      obtain ⟨ha, hl⟩ := List.pairwise_cons.mp h
      cases k with
      | zero =>
        obtain rfl := Option.some.inj hx
        have hall : (a :: l).countP (a ≤ ·) = (a :: l).length := by
          refine List.countP_eq_length.mpr fun y hy => ?_
          rcases List.mem_cons.mp hy with rfl | hy
          · simp
          · simpa using ha y hy
        omega
      | succ k =>
        have hk := ih hl hx
        rw [List.countP_cons, List.length_cons]
        omega

/-- **A higher rank is a greater element.** -/
theorem HasRank.le (hx : HasRank l j x) (hy : HasRank l k y) (hjk : j ≤ k) : x ≤ y := by
  by_contra hlt
  have hle : l.countP (x ≤ ·) ≤ l.countP (fun z => ¬ decide (z ≤ y) = true) := by
    refine List.countP_mono_left fun z _ hz => ?_
    have hxz : x ≤ z := by simpa using hz
    have hzy : ¬ z ≤ y := fun h => hlt (hxz.trans h)
    simpa using hzy
  have hlen := List.length_eq_countP_add_countP (fun z => decide (z ≤ y)) (l := l)
  have hatMost := hy.atMost
  have hatLeast := hx.atLeast
  omega

theorem HasRank.perm (h : HasRank l k x) (hp : l.Perm l') : HasRank l' k x where
  mem := hp.mem_iff.mp h.mem
  atMost := by
    rw [← hp.countP_eq]
    exact h.atMost
  atLeast := by
    rw [← hp.countP_eq, ← hp.length_eq]
    exact h.atLeast

end Ranks
