import Mathlib.Algebra.Group.Nat.Defs
import Mathlib.Logic.Function.Basic

/-!
# Steps of a word generator

A generator of pseudo-random words scrambles a word by multiplying it with an
odd constant, by rotating it, and by an exclusive or with its own shift.  None
of these loses anything.

* `mul_injective`, `rotateLeft_injective`.
* `xorShiftLeft_injective`, `xorShiftRight_injective`: **a word that is its own
  shift is zero**, and so is the difference of two words that are scrambled
  alike.
-/

namespace Word

variable {w k : Nat}

/-- A rotation, written with two shifts. -/
def rotateLeft (x : BitVec w) (k : Nat) : BitVec w := (x <<< k) ||| (x >>> (w - k))

/-- A constant with an inverse can be divided out. -/
theorem mul_injective {c d : BitVec w} (h : c * d = 1#w) :
    Function.Injective fun x : BitVec w => x * c := by
  intro x y hxy
  calc
    x = x * c * d := by rw [BitVec.mul_assoc, h, BitVec.mul_one]
    _ = y * c * d := congrArg (· * d) hxy
    _ = y := by rw [BitVec.mul_assoc, h, BitVec.mul_one]

theorem getLsbD_rotateLeft_lt (x : BitVec w) {i : Nat} (h : i + k < w) :
    (rotateLeft x k).getLsbD (i + k) = x.getLsbD i := by
  have hover : ¬w - k + (i + k) < w := by omega
  rw [rotateLeft, BitVec.getLsbD_or, BitVec.getLsbD_shiftLeft, BitVec.getLsbD_ushiftRight,
    BitVec.getLsbD_of_ge x _ (Nat.not_lt.mp hover), Bool.or_false, Nat.add_sub_cancel]
  simp [h]

theorem getLsbD_rotateLeft_ge (x : BitVec w) {i : Nat} (hk : k ≤ w) (hi : i < w)
    (h : w ≤ i + k) : (rotateLeft x k).getLsbD (i + k - w) = x.getLsbD i := by
  have hback : w - k + (i + k - w) = i := by omega
  have hlow : i + k - w < k := by omega
  rw [rotateLeft, BitVec.getLsbD_or, BitVec.getLsbD_shiftLeft, BitVec.getLsbD_ushiftRight, hback]
  simp [hlow]

theorem rotateLeft_injective (hk : k ≤ w) :
    Function.Injective fun x : BitVec w => rotateLeft x k := by
  intro x y hxy
  have hxy : rotateLeft x k = rotateLeft y k := hxy
  refine BitVec.eq_of_getLsbD_eq fun i hi => ?_
  rcases Nat.lt_or_ge (i + k) w with h | h
  · rw [← getLsbD_rotateLeft_lt x h, hxy, getLsbD_rotateLeft_lt y h]
  · rw [← getLsbD_rotateLeft_ge x hk hi h, hxy, getLsbD_rotateLeft_ge y hk hi h]

/-! ### A word and its own shift -/

theorem xor_eq_xor {x y a b : BitVec w} (h : x ^^^ a = y ^^^ b) : x ^^^ y = a ^^^ b := by
  rw [← BitVec.xor_eq_zero_iff] at h ⊢
  rw [← h]
  ac_rfl

theorem eq_zero_of_shiftLeft {z : BitVec w} (hk : 0 < k) (h : z = z <<< k) : z = 0#w := by
  have hall : ∀ n, z = z <<< (n * k) := by
    intro n
    induction n with
    | zero => rw [Nat.zero_mul, BitVec.shiftLeft_zero]
    | succ n ih =>
      rw [Nat.succ_mul, BitVec.shiftLeft_add, ← ih]
      exact h
  rw [hall w, BitVec.shiftLeft_eq_zero (Nat.le_mul_of_pos_right w hk)]

theorem eq_zero_of_shiftRight {z : BitVec w} (hk : 0 < k) (h : z = z >>> k) : z = 0#w := by
  have hall : ∀ n, z = z >>> (n * k) := by
    intro n
    induction n with
    | zero => rw [Nat.zero_mul, BitVec.ushiftRight_zero]
    | succ n ih =>
      rw [Nat.succ_mul, BitVec.shiftRight_add, ← ih]
      exact h
  rw [hall w, BitVec.ushiftRight_eq_zero (Nat.le_mul_of_pos_right w hk)]

theorem xorShiftLeft_injective (hk : 0 < k) :
    Function.Injective fun x : BitVec w => x ^^^ x <<< k := by
  intro x y hxy
  have hdiff : x ^^^ y = (x ^^^ y) <<< k := by
    rw [BitVec.shiftLeft_xor_distrib]
    exact xor_eq_xor hxy
  exact BitVec.xor_eq_zero_iff.mp (eq_zero_of_shiftLeft hk hdiff)

theorem xorShiftRight_injective (hk : 0 < k) :
    Function.Injective fun x : BitVec w => x ^^^ x >>> k := by
  intro x y hxy
  have hdiff : x ^^^ y = (x ^^^ y) >>> k := by
    rw [BitVec.ushiftRight_xor_distrib]
    exact xor_eq_xor hxy
  exact BitVec.xor_eq_zero_iff.mp (eq_zero_of_shiftRight hk hdiff)

end Word
