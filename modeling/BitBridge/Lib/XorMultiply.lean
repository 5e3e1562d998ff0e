import BitBridge.Lib.Word
import Mathlib.Data.Int.ModEq

/-!
# Hashing by exclusive or and multiplication

A letter of `k` bits goes into a word of `w` bits by an exclusive or, and the
word is then multiplied with a constant.  The words of two texts differ little
as integers after one letter; every further letter multiplies the difference
and changes it by little.

* `run_injective`: the letters that two texts end with alike do not bring them
  together.
* `closes_of_run`: **what two texts that meet leave behind**: a difference that
  is brought to zero modulo `2 ^ w` by small changes.
* `run_inj_right`: **where no small difference closes in `n` letters**, texts of
  one length of at most `n + 1` letters never meet.
* `run_window`: neither do texts that differ in such a stretch only.
-/

namespace XorMultiply

variable {w k : Nat}

def absorb (h : BitVec w) (x : BitVec k) : BitVec w := h ^^^ x.setWidth w

def step (c h : BitVec w) (x : BitVec k) : BitVec w := absorb h x * c

/-- The word of a text. -/
def run (c h : BitVec w) (l : List (BitVec k)) : BitVec w := l.foldl (step c) h

@[simp] theorem run_nil (c h : BitVec w) : run c h ([] : List (BitVec k)) = h := rfl

@[simp] theorem run_cons (c h : BitVec w) (x : BitVec k) (l : List (BitVec k)) :
    run c h (x :: l) = run c (step c h x) l := rfl

theorem run_append (c h : BitVec w) (l m : List (BitVec k)) :
    run c h (l ++ m) = run c (run c h l) m := List.foldl_append

/-! ### One letter -/

theorem absorb_div (h : BitVec w) (x : BitVec k) :
    (absorb h x).toNat / 2 ^ k = h.toNat / 2 ^ k := by
  have hx : x.toNat % 2 ^ w < 2 ^ k := (Nat.mod_le _ _).trans_lt x.isLt
  rw [absorb, BitVec.toNat_xor, BitVec.toNat_setWidth, Nat.xor_div_two_pow,
    Nat.div_eq_of_lt hx, Nat.xor_zero]

theorem absorb_injective (hk : k ≤ w) (h : BitVec w) :
    Function.Injective fun x : BitVec k => absorb h x := by
  intro x y hxy
  have hset : x.setWidth w = y.setWidth w := (BitVec.xor_right_inj h).mp hxy
  calc
    x = (x.setWidth w).setWidth k := by
      rw [BitVec.setWidth_setWidth_of_le _ hk, BitVec.setWidth_eq]
    _ = (y.setWidth w).setWidth k := by rw [hset]
    _ = y := by rw [BitVec.setWidth_setWidth_of_le _ hk, BitVec.setWidth_eq]

theorem natAbs_sub_lt {a b : Nat} (h : a / 2 ^ k = b / 2 ^ k) :
    ((a : Int) - b).natAbs < 2 ^ k := by
  have ha := Nat.div_add_mod a (2 ^ k)
  have hb := Nat.div_add_mod b (2 ^ k)
  have hpos : 0 < 2 ^ k := Nat.two_pow_pos k
  have hra := Nat.mod_lt a hpos
  have hrb := Nat.mod_lt b hpos
  rw [h] at ha
  omega

/-- Two letters change a difference by little. -/
theorem exists_drift (h h' : BitVec w) (x y : BitVec k) :
    ∃ e : Int, e.natAbs < 2 ^ (k + 1) ∧
      ((absorb h x).toNat : Int) - (absorb h' y).toNat = h.toNat - h'.toNat + e := by
  have hx := natAbs_sub_lt (absorb_div h x)
  have hy := natAbs_sub_lt (absorb_div h' y)
  refine ⟨((absorb h x).toNat - h.toNat) - ((absorb h' y).toNat - h'.toNat), ?_, ?_⟩
  · rw [Nat.pow_succ]
    omega
  · omega

theorem toNat_mul_modEq (a c : BitVec w) :
    ((a * c).toNat : Int) ≡ a.toNat * c.toNat [ZMOD 2 ^ w] := by
  rw [BitVec.toNat_mul]
  push_cast
  exact Int.mod_modEq _ _

theorem sub_mul_modEq (a b c : BitVec w) :
    ((a * c).toNat : Int) - (b * c).toNat ≡ (a.toNat - b.toNat) * c.toNat [ZMOD 2 ^ w] := by
  rw [Int.sub_mul]
  exact (toNat_mul_modEq a c).sub (toNat_mul_modEq b c)

/-! ### The same letters -/

section Unit

variable {c d : BitVec w}

theorem step_injective (hc : c * d = 1#w) (x : BitVec k) :
    Function.Injective fun h => step c h x := by
  intro h h' hs
  exact (BitVec.xor_left_inj _).mp (Word.mul_injective hc hs)

/-- **The same letters keep two words apart.** -/
theorem run_injective (hc : c * d = 1#w) (l : List (BitVec k)) :
    Function.Injective fun h => run c h l := by
  induction l with
  | nil => exact fun _ _ hr => hr
  | cons x l ih => exact ih.comp (step_injective hc x)

end Unit

/-! ### Differences that close -/

/-- A difference of two words may be gone after `n` letters. -/
def Closes (c : BitVec w) (k : Nat) : Nat → Int → Prop
  | 0, d => d ≡ 0 [ZMOD 2 ^ w]
  | n + 1, d => ∃ e : Int, e.natAbs < 2 ^ (k + 1) ∧ Closes c k n ((d + e) * c.toNat)

/-- No difference that one letter makes closes in `n` letters. -/
def Separates (c : BitVec w) (k n : Nat) : Prop :=
  ∀ d : Int, d.natAbs < 2 ^ k → Closes c k n (d * c.toNat) → d = 0

variable {c : BitVec w} {n : Nat}

theorem Closes.congr {d d' : Int} (h : Closes c k n d) (hd : d ≡ d' [ZMOD 2 ^ w]) :
    Closes c k n d' := by
  induction n generalizing d d' with
  | zero => exact hd.symm.trans h
  | succ n ih =>
    obtain ⟨e, he, h⟩ := h
    exact ⟨e, he, ih h ((hd.add_right e).mul_right _)⟩

theorem Closes.of_zero {d : Int} (hd : (0 : Int) ≡ d [ZMOD 2 ^ w]) : Closes c k n d := by
  refine Closes.congr ?_ hd
  induction n with
  | zero => exact Int.ModEq.refl _
  | succ n ih => exact ⟨0, Nat.two_pow_pos _, by simpa using ih⟩

theorem Closes.succ {d : Int} (h : Closes c k n d) : Closes c k (n + 1) d := by
  induction n generalizing d with
  | zero => exact of_zero h.symm
  | succ n ih =>
    obtain ⟨e, he, h⟩ := h
    exact ⟨e, he, ih h⟩

/-- The multiplication after the last letter does not matter. -/
theorem Closes.last {c' : BitVec w} (hc : c * c' = 1#w) {d : Int} (h : Closes c k 1 d) :
    ∃ e : Int, e.natAbs < 2 ^ (k + 1) ∧ d + e ≡ 0 [ZMOD 2 ^ w] := by
  obtain ⟨e, he, h⟩ := h
  refine ⟨e, he, ?_⟩
  have hone : (c.toNat * c'.toNat : Int) ≡ 1 [ZMOD 2 ^ w] := by
    refine (toNat_mul_modEq c c').symm.trans ?_
    rw [hc, BitVec.toNat_ofNat]
    push_cast
    exact Int.mod_modEq _ _
  calc
    d + e = (d + e) * 1 := (Int.mul_one _).symm
    _ ≡ (d + e) * (c.toNat * c'.toNat) [ZMOD 2 ^ w] := hone.symm.mul_left _
    _ = (d + e) * c.toNat * c'.toNat := (Int.mul_assoc _ _ _).symm
    _ ≡ 0 * c'.toNat [ZMOD 2 ^ w] := h.mul_right _
    _ = 0 := Int.zero_mul _

theorem Separates.mono {m : Nat} (h : Separates c k n) (hm : m ≤ n) : Separates c k m := by
  induction hm with
  | refl => exact h
  | step _ ih => exact ih fun d hd hcl => h d hd hcl.succ

/-- **Texts that meet leave a difference that closes.** -/
theorem closes_of_run {h h' : BitVec w} {l m : List (BitVec k)} (hl : l.length = n)
    (hm : m.length = n) (hr : run c h l = run c h' m) :
    Closes c k n (h.toNat - h'.toNat) := by
  induction n generalizing h h' l m with
  | zero =>
    rw [List.length_eq_zero_iff.mp hl, List.length_eq_zero_iff.mp hm, run_nil, run_nil] at hr
    rw [hr, Int.sub_self]
    exact Closes.of_zero (Int.ModEq.refl 0)
  | succ n ih =>
    obtain ⟨x, l, rfl⟩ := List.exists_cons_of_length_eq_add_one hl
    obtain ⟨y, m, rfl⟩ := List.exists_cons_of_length_eq_add_one hm
    rw [run_cons, run_cons] at hr
    obtain ⟨e, he, hd⟩ := exists_drift h h' x y
    refine ⟨e, he, ?_⟩
    rw [← hd]
    exact (ih (Nat.succ.inj hl) (Nat.succ.inj hm) hr).congr (sub_mul_modEq _ _ _)

/-! ### Texts of one length -/

theorem head_eq_of_run (hk : k ≤ w) (hs : Separates c k n) {h : BitVec w} {x y : BitVec k}
    {l m : List (BitVec k)} (hl : l.length ≤ n) (hlm : l.length = m.length)
    (hr : run c h (x :: l) = run c h (y :: m)) : x = y := by
  have hclose := (closes_of_run rfl hlm.symm hr).congr (sub_mul_modEq _ _ _)
  have hsmall : ((absorb h x).toNat - (absorb h y).toNat : Int).natAbs < 2 ^ k :=
    natAbs_sub_lt ((absorb_div h x).trans (absorb_div h y).symm)
  have hzero := hs.mono hl _ hsmall hclose
  have habs : absorb h x = absorb h y := BitVec.eq_of_toNat_eq (by omega)
  exact absorb_injective hk h habs

/-- **Short texts of one length never meet.** -/
theorem run_inj_right (hk : k ≤ w) (hs : Separates c k n) :
    ∀ {h : BitVec w} {l m : List (BitVec k)}, l.length ≤ n + 1 → l.length = m.length →
      run c h l = run c h m → l = m
  | _, [], m, _, hlm, _ => (List.length_eq_zero_iff.mp hlm.symm).symm
  | h, x :: l, m, hl, hlm, hr => by
    obtain ⟨y, m, rfl⟩ := List.exists_cons_of_length_eq_add_one hlm.symm
    have htail : l.length = m.length := Nat.succ.inj hlm
    obtain rfl := head_eq_of_run hk hs (Nat.le_of_succ_le_succ hl) htail hr
    rw [run_inj_right hk hs (Nat.le_of_succ_le hl) htail hr]

/-- **Texts that differ in a short stretch only never meet**, wherever it is. -/
theorem run_window (hk : k ≤ w) {d : BitVec w} (hc : c * d = 1#w) (hs : Separates c k n)
    {h : BitVec w} {p l m s : List (BitVec k)} (hl : l.length ≤ n + 1)
    (hlm : l.length = m.length) (hr : run c h (p ++ l ++ s) = run c h (p ++ m ++ s)) : l = m := by
  rw [run_append, run_append, run_append c h (p ++ m), run_append] at hr
  exact run_inj_right hk hs hl hlm (run_injective hc s hr)

end XorMultiply
