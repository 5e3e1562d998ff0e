import BitBridge.Lib.Word
import Mathlib.Data.Finite.Prod
import Mathlib.Data.Fintype.EquivFin

/-!
# The generator of the P2C strategy

`Xoshiro256StarStar` (`core/routing/Xoshiro256.cpp`) draws the numbers from
which `P2CStrategy` takes its two candidates; it draws the second again for as
long as it is the first.

* `finalise_injective`, `pairwise_new`: the finaliser of the constructor loses
  nothing, so the four words of a new state are different.
* `step_bijective`, `step_eq_zero`: a call permutes the states, and only the
  zero state leads to zero.
* `eq_zero_of_outputs`: **five equal outputs in a row** come from the zero state.
* `never_degenerates`: no seed leads there.
-/

namespace BitBridge

open Word

/-- `m_state`. -/
structure Xoshiro256StarStar where
  s0 : BitVec 64
  s1 : BitVec 64
  s2 : BitVec 64
  s3 : BitVec 64
  deriving DecidableEq

namespace Xoshiro256StarStar

def finalise (z : BitVec 64) : BitVec 64 :=
  let z := (z ^^^ (z >>> 30)) * 0xbf58476d1ce4e5b9#64
  let z := (z ^^^ (z >>> 27)) * 0x94d049bb133111eb#64
  z ^^^ (z >>> 31)

/-- `SplitMix64`: the number, and the state it leaves. -/
def splitMix64 (state : BitVec 64) : BitVec 64 × BitVec 64 :=
  let state := state + 0x9e3779b97f4a7c15#64
  (finalise state, state)

def new (seed : BitVec 64) : Xoshiro256StarStar :=
  let (s0, seed) := splitMix64 seed
  let (s1, seed) := splitMix64 seed
  let (s2, seed) := splitMix64 seed
  let (s3, _) := splitMix64 seed
  ⟨s0, s1, s2, s3⟩

/-- `operator()`: the number, and the state it leaves. -/
def call (s : Xoshiro256StarStar) : BitVec 64 × Xoshiro256StarStar :=
  let result := rotateLeft (s.s1 * 5#64) 7 * 9#64
  let t := s.s1 <<< 17
  let s2 := s.s2 ^^^ s.s0
  let s3 := s.s3 ^^^ s.s1
  let s1 := s.s1 ^^^ s2
  let s0 := s.s0 ^^^ s3
  let s2 := s2 ^^^ t
  let s3 := rotateLeft s3 45
  (result, ⟨s0, s1, s2, s3⟩)

def output (s : Xoshiro256StarStar) : BitVec 64 := s.call.1

def step (s : Xoshiro256StarStar) : Xoshiro256StarStar := s.call.2

def after (s : Xoshiro256StarStar) (n : Nat) : Xoshiro256StarStar := step^[n] s

def zero : Xoshiro256StarStar := ⟨0, 0, 0, 0⟩

theorem after_succ (s : Xoshiro256StarStar) (n : Nat) : s.after (n + 1) = (s.after n).step :=
  Function.iterate_succ_apply' step n s

theorem after_add (s : Xoshiro256StarStar) (n k : Nat) : (s.after n).after k = s.after (n + k) := by
  rw [after, after, after, Nat.add_comm, Function.iterate_add_apply]

/-! ### The constructor -/

theorem finalise_injective : Function.Injective finalise := by
  have h1 : Function.Injective fun z : BitVec 64 => (z ^^^ z >>> 30) * 0xbf58476d1ce4e5b9#64 :=
    (mul_injective (d := 0x96de1b173f119089#64) (by decide)).comp
      (xorShiftRight_injective (by decide))
  have h2 : Function.Injective fun z : BitVec 64 => (z ^^^ z >>> 27) * 0x94d049bb133111eb#64 :=
    (mul_injective (d := 0x319642b2d24d8ec3#64) (by decide)).comp
      (xorShiftRight_injective (by decide))
  exact (xorShiftRight_injective (w := 64) (k := 31) (by decide)).comp (h2.comp h1)

/-- **The four words of a new state are different.** -/
theorem pairwise_new (seed : BitVec 64) :
    [(new seed).s0, (new seed).s1, (new seed).s2, (new seed).s3].Pairwise (· ≠ ·) := by
  have hne : ∀ {x y : BitVec 64}, x ≠ y → finalise x ≠ finalise y :=
    fun h he => h (finalise_injective he)
  simp only [List.pairwise_cons, List.mem_cons, List.not_mem_nil, or_false, forall_eq_or_imp,
    forall_eq, List.Pairwise.nil, and_true, new, splitMix64]
  refine ⟨⟨hne ?_, hne ?_, hne ?_⟩, ⟨hne ?_, hne ?_⟩, hne ?_, ?_⟩
  all_goals first | bv_omega | simp

theorem new_ne_zero (seed : BitVec 64) : new seed ≠ zero := by
  intro h
  have hp := pairwise_new seed
  rw [h] at hp
  exact absurd hp (by decide)

/-! ### A call -/

theorem step_injective : Function.Injective step := by
  rintro ⟨a, b, c, d⟩ ⟨a', b', c', d'⟩ h
  simp only [step, call, mk.injEq] at h
  obtain ⟨h0, h1, h2, h3⟩ := h
  have hd : d ^^^ b = d' ^^^ b' := rotateLeft_injective (by decide) h3
  have ha : a = a' := by
    rw [hd] at h0
    exact (BitVec.xor_left_inj _).mp h0
  -- the second and the third word differ by the second and its shift
  have hb : b = b' := by
    have h12 : (b ^^^ (c ^^^ a)) ^^^ (c ^^^ a ^^^ b <<< 17) =
        (b' ^^^ (c' ^^^ a')) ^^^ (c' ^^^ a' ^^^ b' <<< 17) := by rw [h1, h2]
    have hself : ∀ x y z : BitVec 64, (x ^^^ y) ^^^ (y ^^^ z) = x ^^^ z := by
      intro x y z
      rw [BitVec.xor_assoc, ← BitVec.xor_assoc y y z, BitVec.xor_self, BitVec.zero_xor]
    rw [hself, hself] at h12
    exact xorShiftLeft_injective (by decide) h12
  subst ha hb
  have hc : c = c' := (BitVec.xor_left_inj a).mp ((BitVec.xor_right_inj b).mp h1)
  have hd' : d = d' := (BitVec.xor_left_inj b).mp hd
  rw [hc, hd']

instance : Finite Xoshiro256StarStar := by
  refine Finite.of_injective
    (fun s => (s.s0.toFin, s.s1.toFin, s.s2.toFin, s.s3.toFin)) ?_
  rintro ⟨a, b, c, d⟩ ⟨a', b', c', d'⟩ h
  simp only [Prod.mk.injEq, BitVec.toFin_inj] at h
  obtain ⟨rfl, rfl, rfl, rfl⟩ := h
  rfl

theorem step_bijective : Function.Bijective step :=
  ⟨step_injective, Finite.injective_iff_surjective.mp step_injective⟩

theorem step_zero : step zero = zero := by decide

theorem step_eq_zero {s : Xoshiro256StarStar} : s.step = zero ↔ s = zero :=
  ⟨fun h => step_injective (h.trans step_zero.symm), fun h => h ▸ step_zero⟩

/-- **The zero state is never reached** from another. -/
theorem after_ne_zero {s : Xoshiro256StarStar} (h : s ≠ zero) (n : Nat) : s.after n ≠ zero := by
  induction n with
  | zero => exact h
  | succ n ih =>
    rw [after_succ]
    exact fun hz => ih (step_eq_zero.mp hz)

/-! ### The stream -/

theorem output_injective {s s' : Xoshiro256StarStar} (h : s.output = s'.output) :
    s.s1 = s'.s1 := by
  have h9 : Function.Injective fun x : BitVec 64 => x * 9#64 :=
    mul_injective (d := 0x8e38e38e38e38e39#64) (by decide)
  have h5 : Function.Injective fun x : BitVec 64 => x * 5#64 :=
    mul_injective (d := 0xcccccccccccccccd#64) (by decide)
  exact h5 (rotateLeft_injective (by decide) (h9 h))

theorem step_of_same {s : Xoshiro256StarStar} (h : s.step.s1 = s.s1) :
    s.s2 = s.s0 ∧ s.step.s2 = s.s1 <<< 17 := by
  have h1 : s.s1 ^^^ (s.s2 ^^^ s.s0) = s.s1 ^^^ 0#64 := h.trans BitVec.xor_zero.symm
  have h2 : s.s2 ^^^ s.s0 = 0#64 := (BitVec.xor_right_inj s.s1).mp h1
  refine ⟨BitVec.xor_eq_zero_iff.mp h2, ?_⟩
  calc
    s.step.s2 = s.s2 ^^^ s.s0 ^^^ s.s1 <<< 17 := rfl
    _ = s.s1 <<< 17 := by rw [h2, BitVec.zero_xor]

/-- **Five equal outputs in a row** come from the zero state. -/
theorem eq_zero_of_outputs {s : Xoshiro256StarStar}
    (h : ∀ k < 5, (s.after k).output = s.output) : s = zero := by
  have hsame : ∀ k < 4, (s.after k).step.s1 = (s.after k).s1 := by
    intro k hk
    rw [← after_succ]
    exact output_injective ((h (k + 1) (by omega)).trans (h k (by omega)).symm)
  have hone : ∀ k < 5, (s.after k).s1 = s.s1 := fun k hk => output_injective (h k hk)
  -- from the first state on the words 0 and 2 are the shifted word 1
  have htwo : ∀ k < 4, (s.after (k + 1)).s2 = s.s1 <<< 17 := by
    intro k hk
    rw [after_succ, (step_of_same (hsame k hk)).2, hone k (by omega)]
  have hzero : ∀ k < 3, (s.after (k + 1)).s0 = s.s1 <<< 17 := by
    intro k hk
    rw [← (step_of_same (hsame (k + 1) (by omega))).1, htwo k (by omega)]
  -- so the word 3 is the word 1
  have hthree : ∀ k < 2, (s.after (k + 1)).s3 = s.s1 := by
    intro k hk
    have h0 : (s.after (k + 2)).s0 =
        (s.after (k + 1)).s0 ^^^ ((s.after (k + 1)).s3 ^^^ (s.after (k + 1)).s1) := by
      rw [after_succ]
      rfl
    rw [hzero (k + 1) (by omega), hzero k (by omega), hone (k + 1) (by omega)] at h0
    have hx : (s.after (k + 1)).s3 ^^^ s.s1 = 0#64 := by
      refine (BitVec.xor_right_inj (s.s1 <<< 17)).mp ?_
      rw [← h0, BitVec.xor_zero]
    exact BitVec.xor_eq_zero_iff.mp hx
  -- and it is rotated from zero
  have hs1 : s.s1 = 0#64 := by
    have h3 : (s.after 2).s3 = rotateLeft ((s.after 1).s3 ^^^ (s.after 1).s1) 45 := by
      rw [after_succ]
      rfl
    rw [hthree 0 (by omega), hone 1 (by omega), BitVec.xor_self, hthree 1 (by omega)] at h3
    rw [h3]
    decide
  have hstep : s.step = zero := by
    have hafter : s.after 1 = s.step := rfl
    have e0 := hzero 0 (by omega)
    have e1 := hone 1 (by omega)
    have e2 := htwo 0 (by omega)
    have e3 := hthree 0 (by omega)
    rw [Nat.zero_add, hafter, hs1] at e0 e2 e3
    rw [hafter, hs1] at e1
    calc
      s.step = ⟨s.step.s0, s.step.s1, s.step.s2, s.step.s3⟩ := rfl
      _ = ⟨0#64 <<< 17, 0#64, 0#64 <<< 17, 0#64⟩ := by rw [e0, e1, e2, e3]
      _ = zero := by decide
  exact step_eq_zero.mp hstep

/-- **The generator never degenerates.**  For every seed: the four words of the
new state are different, no number of calls leads to the zero state, a call is a
bijection that leads to zero from zero only, and of five numbers in a row one
differs from the first, wherever the stream is entered and whatever state but
zero it comes from. -/
theorem never_degenerates (seed : BitVec 64) :
    [(new seed).s0, (new seed).s1, (new seed).s2, (new seed).s3].Pairwise (· ≠ ·) ∧
    (∀ n, (new seed).after n ≠ zero) ∧
    Function.Bijective step ∧ (∀ s, s.step = zero ↔ s = zero) ∧
    (∀ s, s ≠ zero → ∃ k < 5, (s.after k).output ≠ s.output) ∧
    ∀ n v, ∃ k < 5, ((new seed).after (n + k)).output ≠ v := by
  have hfive : ∀ s, s ≠ zero → ∃ k < 5, (s.after k).output ≠ s.output := by
    intro s hs
    by_contra hno
    refine hs (eq_zero_of_outputs fun k hk => ?_)
    by_contra hne
    exact hno ⟨k, hk, hne⟩
  refine ⟨pairwise_new seed, after_ne_zero (new_ne_zero seed), step_bijective,
    fun s => step_eq_zero, hfive, fun n v => ?_⟩
  by_contra hno
  obtain ⟨k, hk, hne⟩ := hfive _ (after_ne_zero (new_ne_zero seed) n)
  have heq : ∀ j < 5, ((new seed).after (n + j)).output = v := by
    intro j hj
    by_contra hj'
    exact hno ⟨j, hj, hj'⟩
  rw [after_add] at hne
  exact hne ((heq k hk).trans (heq 0 (by omega)).symm)

end Xoshiro256StarStar

end BitBridge
