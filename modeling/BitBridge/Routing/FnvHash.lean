import BitBridge.Lib.XorMultiply
import BitBridge.Routing.HashRing

/-!
# Labels that FNV-1a keeps apart

`fnv::Hash64` multiplies with `2 ^ 40 + 435` after each byte.  The words of two
texts differ by less than `2 ^ 8` before the multiplication that follows their
first different byte.  Two multiplications leave `870 * 2 ^ 40` of each unit of
that difference, which stays within 64 bits and is more than two further bytes
can take back.

* `separates`: no difference that a byte makes closes in two bytes.
* `hash64_window`: **texts that differ in at most three bytes in a row** have
  different hashes.
* `nearby_labels`: so have two labels of a service whose numbers have as many
  digits, and two labels of one number whose names differ in a byte.
-/

namespace BitBridge

namespace fnv

open XorMultiply

theorem hash64_eq (data : Bytes) : (hash64 data).toBitVec =
    run FNV_PRIME.toBitVec FNV_OFFSET_BASIS.toBitVec (data.map UInt8.toBitVec) := by
  have hfold : ∀ hash : UInt64,
      (data.foldl (fun hash c => (hash ^^^ c.toUInt64) * FNV_PRIME) hash).toBitVec =
        run FNV_PRIME.toBitVec hash.toBitVec (data.map UInt8.toBitVec) := by
    induction data with
    | nil => exact fun hash => rfl
    | cons c data ih => exact fun hash => ih _
  exact hfold FNV_OFFSET_BASIS

theorem prime_unit : FNV_PRIME.toBitVec * 0xce965057aff6957b#64 = 1#64 := by decide

/-- **Two bytes cannot undo the difference that a byte makes.** -/
theorem separates : Separates FNV_PRIME.toBitVec 8 2 := by
  intro d hd hclose
  obtain ⟨e, he, hclose⟩ := hclose
  obtain ⟨f, hf, hzero⟩ := hclose.last prime_unit
  have hprime : (FNV_PRIME.toBitVec.toNat : Int) = 2 ^ 40 + 435 := by decide
  rw [hprime] at hzero
  -- the square of the prime is `870 * 2 ^ 40 + 435 ^ 2` modulo `2 ^ 64`
  have hdvd : (2 : Int) ^ 64 ∣ (870 * d + e) * 2 ^ 40 + (435 ^ 2 * d + 435 * e + f) := by
    refine Int.modEq_zero_iff_dvd.mp (Int.ModEq.trans ?_ hzero)
    refine Int.modEq_iff_dvd.mpr ⟨2 ^ 16 * d, ?_⟩
    omega
  have hexact : (870 * d + e) * 2 ^ 40 + (435 ^ 2 * d + 435 * e + f) = 0 := by
    apply Int.eq_zero_of_dvd_of_natAbs_lt_natAbs hdvd
    omega
  -- the second summand is below `2 ^ 40`, so `870 * d = -e`, and `e` is below 512
  omega

/-- **Three bytes in a row** decide the hash, whatever is before and behind them. -/
theorem hash64_window {p x y s : Bytes} (hlen : x.length = y.length) (hx : x.length ≤ 3)
    (h : hash64 (p ++ x ++ s) = hash64 (p ++ y ++ s)) : x = y := by
  have hbits := congrArg UInt64.toBitVec h
  simp only [hash64_eq, List.map_append] at hbits
  have hmap := run_window (by decide) prime_unit separates (by simpa using hx)
    (by simpa using hlen) hbits
  exact List.map_injective_iff.mpr (fun _ _ => UInt8.toBitVec_inj.mp) hmap

/-- Texts that differ in at most three bytes in a row. -/
def Near (a b : Bytes) : Prop :=
  ∃ p x y s : Bytes, x.length = y.length ∧ x.length ≤ 3 ∧ a = p ++ x ++ s ∧ b = p ++ y ++ s

theorem Near.hash64_inj {a b : Bytes} (hab : Near a b) (h : hash64 a = hash64 b) : a = b := by
  obtain ⟨p, x, y, s, hlen, hx, rfl, rfl⟩ := hab
  rw [hash64_window hlen hx h]

end fnv

namespace ConsistentHashStrategy

/-! ### Near labels -/

theorem near_of_number {name : Bytes} {v v' : Nat} (hv : v < VNODES_PER_SERVICE)
    (hlen : (decimal v).length = (decimal v').length) :
    fnv.Near (label name v) (label name v') := by
  have hthree : (decimal v).length ≤ 3 :=
    (length_decimal_le (by decide)).mpr (hv.trans (by decide))
  exact ⟨name ++ ascii "#", decimal v, decimal v', [], hlen, hthree, (List.append_nil _).symm,
    (List.append_nil _).symm⟩

theorem near_of_name (p s : Bytes) (x y : UInt8) (v : Nat) :
    fnv.Near (label (p ++ x :: s) v) (label (p ++ y :: s) v) := by
  refine ⟨p, [x], [y], s ++ ascii "#" ++ decimal v, rfl, by simp, ?_, ?_⟩ <;> simp [label]

/-- **FNV-1a separates nearby labels.**  Texts that differ in at most three bytes
in a row have different hashes, whatever they begin and end with; so have two
labels of a service whose numbers have as many digits, and the labels of one
number of two services whose names differ in one byte. -/
theorem nearby_labels :
    (∀ p s x y : Bytes, x.length = y.length → x.length ≤ 3 → x ≠ y →
      fnv.hash64 (p ++ x ++ s) ≠ fnv.hash64 (p ++ y ++ s)) ∧
    (∀ name : Bytes, ∀ v < VNODES_PER_SERVICE, ∀ v' < VNODES_PER_SERVICE, v ≠ v' →
      (decimal v).length = (decimal v').length →
        fnv.hash64 (label name v) ≠ fnv.hash64 (label name v')) ∧
    ∀ (p s : Bytes) (x y : UInt8), x ≠ y → ∀ v,
      fnv.hash64 (label (p ++ x :: s) v) ≠ fnv.hash64 (label (p ++ y :: s) v) := by
  refine ⟨?_, ?_, ?_⟩
  · intro p s x y hlen hx hne h
    apply hne
    exact fnv.hash64_window hlen hx h
  · intro name v hv v' _ hne hlen h
    apply hne
    exact (label_inj ((near_of_number hv hlen).hash64_inj h)).2
  · intro p s x y hne v h
    have hname := (label_inj ((near_of_name p s x y v).hash64_inj h)).1
    apply hne
    exact (List.cons.inj (List.append_cancel_left hname)).1

end ConsistentHashStrategy

end BitBridge
