import Mathlib.Data.List.Induction
import Mathlib.Data.List.TakeWhile
import Mathlib.Algebra.Group.Nat.Defs

/-!
# Reading a number from its digits

`std::stoi` reads in base ten: white space, an optional sign, and then as many
digits as there are.  Without a digit it throws `std::invalid_argument`, and
for a number outside `int` it throws `std::out_of_range`.

* `stoi_eq_ok_iff`: **what it returns** is the number that the text begins with.
* `stoi_append`: digits are read up to the first byte that is none.
* `stoi_append_cons`: a byte that can be no part of a number ends the text.
* `value_lt`: so few digits cannot leave `int`.
-/

namespace Stoi

inductive Error
  | invalidArgument
  | outOfRange
  deriving DecidableEq

/-- `std::isspace` in the C locale. -/
def isSpace (c : UInt8) : Bool := c = 32 ∨ (9 ≤ c ∧ c ≤ 13)

def isDigit (c : UInt8) : Bool := 48 ≤ c ∧ c ≤ 57

def value (digits : List UInt8) : Nat := digits.foldl (fun v c => 10 * v + (c.toNat - 48)) 0

/-- Whether there is a minus sign, and what stands after the sign. -/
def sign : List UInt8 → Bool × List UInt8
  | [] => (false, [])
  | c :: s => if c = 45 then (true, s) else if c = 43 then (false, s) else (false, c :: s)

def stoi (s : List UInt8) : Except Error Int :=
  let (negative, s) := sign (s.dropWhile isSpace)
  let digits := s.takeWhile isDigit
  if digits = [] then .error .invalidArgument
  else
    let v : Int := if negative then -(value digits : Int) else value digits
    if -2147483648 ≤ v ∧ v ≤ 2147483647 then .ok v else .error .outOfRange

theorem isDigit_iff {c : UInt8} : isDigit c = true ↔ 48 ≤ c.toNat ∧ c.toNat ≤ 57 := by
  rw [isDigit, decide_eq_true_iff, UInt8.le_iff_toNat_le, UInt8.le_iff_toNat_le]
  rfl

theorem of_isDigit {c : UInt8} (h : isDigit c = true) :
    isSpace c = false ∧ c ≠ 45 ∧ c ≠ 43 := by
  obtain ⟨h1, -⟩ := isDigit_iff.mp h
  refine ⟨?_, ?_, ?_⟩
  · rw [isSpace, decide_eq_false_iff_not, UInt8.le_iff_toNat_le, UInt8.le_iff_toNat_le]
    rintro (rfl | ⟨-, h2⟩)
    · exact absurd h1 (by decide)
    · have : (13 : UInt8).toNat = 13 := rfl
      omega
  · rintro rfl
    exact absurd h1 (by decide)
  · rintro rfl
    exact absurd h1 (by decide)

theorem value_concat (d : List UInt8) (c : UInt8) :
    value (d ++ [c]) = 10 * value d + (c.toNat - 48) := by
  rw [value, List.foldl_append]
  rfl

theorem value_lt {d : List UInt8} (h : ∀ c ∈ d, isDigit c = true) : value d < 10 ^ d.length := by
  induction d using List.reverseRecOn with
  | nil => decide
  | append_singleton d c ih =>
    have hd := ih fun x hx => h x (List.mem_append_left _ hx)
    obtain ⟨-, hc⟩ := isDigit_iff.mp (h c (by simp))
    rw [value_concat, List.length_append, List.length_singleton, Nat.pow_succ]
    omega

theorem takeWhile_append_of_all {α : Type*} {p : α → Bool} {d rest : List α}
    (hd : ∀ c ∈ d, p c = true) (hrest : ∀ c ∈ rest.head?, p c = false) :
    (d ++ rest).takeWhile p = d := by
  rw [List.takeWhile_append_of_pos hd]
  cases rest with
  | nil => simp
  | cons c rest => rw [List.takeWhile_cons_of_neg (by simp [hrest c rfl]), List.append_nil]

theorem takeWhile_append_cons {α : Type*} {p : α → Bool} {c : α} (hc : p c = false)
    (s rest : List α) : (s ++ c :: rest).takeWhile p = s.takeWhile p := by
  induction s with
  | nil => rw [List.nil_append, List.takeWhile_cons_of_neg (by simp [hc]), List.takeWhile_nil]
  | cons a s ih => rw [List.cons_append, List.takeWhile_cons, List.takeWhile_cons, ih]

/-! ### The texts of a number -/

/-- A sign, or none; `true` is a minus. -/
inductive Signed : Bool → List UInt8 → Prop
  | none : Signed false []
  | plus : Signed false [43]
  | minus : Signed true [45]

/-- White space, a sign or none, some digits, and no digit behind them: the text
begins with the number `v`. -/
inductive Spells : Int → List UInt8 → Prop
  | mk {negative : Bool} {blanks signs digits rest : List UInt8}
    (hblanks : ∀ c ∈ blanks, isSpace c = true) (hsigns : Signed negative signs)
    (hne : digits ≠ []) (hdigits : ∀ c ∈ digits, isDigit c = true)
    (hrest : ∀ c ∈ rest.head?, isDigit c = false) :
    Spells (if negative then -(value digits : Int) else value digits)
      (blanks ++ (signs ++ (digits ++ rest)))

theorem signed_sign (s : List UInt8) :
    ∃ signs, Signed (sign s).1 signs ∧ s = signs ++ (sign s).2 := by
  cases s with
  | nil => exact ⟨[], .none, rfl⟩
  | cons c s =>
    rw [sign]
    split
    · next hc => exact ⟨[45], .minus, by rw [hc]; rfl⟩
    · split
      · next hc => exact ⟨[43], .plus, by rw [hc]; rfl⟩
      · exact ⟨[], .none, rfl⟩

/-- Before a digit a sign is taken off, and nothing else. -/
theorem sign_append {negative : Bool} {signs d rest : List UInt8} (h : Signed negative signs)
    (hne : d ≠ []) (hd : ∀ c ∈ d, isDigit c = true) :
    sign ((signs ++ (d ++ rest)).dropWhile isSpace) = (negative, d ++ rest) := by
  cases h with
  | none =>
    obtain ⟨c, l, rfl⟩ := List.exists_cons_of_ne_nil hne
    obtain ⟨hspace, hminus, hplus⟩ := of_isDigit (hd c List.mem_cons_self)
    rw [List.nil_append, List.cons_append, List.dropWhile_cons_of_neg (by simp [hspace]), sign,
      if_neg hminus, if_neg hplus]
  | plus =>
    rw [List.singleton_append, List.dropWhile_cons_of_neg (by decide), sign, if_neg (by decide),
      if_pos rfl]
  | minus => rw [List.singleton_append, List.dropWhile_cons_of_neg (by decide), sign, if_pos rfl]

/-- **What `std::stoi` returns**: the number that the text begins with, if it is
an `int`. -/
theorem stoi_eq_ok_iff {s : List UInt8} {v : Int} :
    stoi s = .ok v ↔ Spells v s ∧ -2147483648 ≤ v ∧ v ≤ 2147483647 := by
  constructor
  · intro h
    obtain ⟨signs, hsigns, hs⟩ := signed_sign (s.dropWhile isSpace)
    generalize hafter : sign (s.dropWhile isSpace) = after at hsigns hs
    obtain ⟨negative, t⟩ := after
    simp only [stoi, hafter] at h
    generalize hv : (if negative = true then -(value (t.takeWhile isDigit) : Int)
      else value (t.takeWhile isDigit)) = w at h
    split_ifs at h with hne hrange
    obtain rfl := Except.ok.inj h
    refine ⟨?_, hrange⟩
    have hstop : ∀ c ∈ (t.dropWhile isDigit).head?, isDigit c = false := by
      intro c hc
      have hnot := List.head?_dropWhile_not isDigit t
      rwa [Option.mem_def.mp hc] at hnot
    have hblanks : ∀ c ∈ s.takeWhile isSpace, isSpace c = true := fun c => List.mem_takeWhile_imp
    have hspells := Spells.mk hblanks hsigns hne (fun c => List.mem_takeWhile_imp) hstop
    rwa [List.takeWhile_append_dropWhile, ← hs, List.takeWhile_append_dropWhile, hv] at hspells
  · rintro ⟨⟨hblanks, hsigns, hne, hdigits, hrest⟩, hmin, hmax⟩
    rw [stoi, List.dropWhile_append_of_pos hblanks, sign_append hsigns hne hdigits]
    dsimp only
    rw [takeWhile_append_of_all hdigits hrest, if_neg hne, if_pos ⟨hmin, hmax⟩]

/-- **Digits are read up to the first byte that is none.** -/
theorem stoi_append {d rest : List UInt8} (hne : d ≠ []) (hd : ∀ c ∈ d, isDigit c = true)
    (hrest : ∀ c ∈ rest.head?, isDigit c = false) (hmax : value d ≤ 2147483647) :
    stoi (d ++ rest) = .ok (value d) :=
  stoi_eq_ok_iff.mpr ⟨.mk (List.forall_mem_nil _) .none hne hd hrest, by omega, by omega⟩

theorem stoi_digits {d : List UInt8} (hne : d ≠ []) (hd : ∀ c ∈ d, isDigit c = true)
    (hmax : value d ≤ 2147483647) : stoi d = .ok (value d) := by
  have h := @stoi_append d [] hne hd (by simp) hmax
  rwa [List.append_nil] at h

theorem stoi_minus {d rest : List UInt8} (hne : d ≠ []) (hd : ∀ c ∈ d, isDigit c = true)
    (hrest : ∀ c ∈ rest.head?, isDigit c = false) (hmax : value d ≤ 2147483648) :
    stoi (45 :: (d ++ rest)) = .ok (-(value d : Int)) :=
  stoi_eq_ok_iff.mpr ⟨.mk (List.forall_mem_nil _) .minus hne hd hrest, by omega, by omega⟩

/-- **A byte that can be no part of a number** ends the text. -/
theorem stoi_append_cons {c : UInt8} (hspace : isSpace c = false) (hminus : c ≠ 45)
    (hplus : c ≠ 43) (hdigit : isDigit c = false) (s rest : List UInt8) :
    stoi (s ++ c :: rest) = stoi s := by
  have hsign : sign ((s ++ c :: rest).dropWhile isSpace) =
      ((sign (s.dropWhile isSpace)).1, (sign (s.dropWhile isSpace)).2 ++ c :: rest) := by
    rw [List.dropWhile_append]
    cases s.dropWhile isSpace with
    | nil => simp [hspace, sign, hminus, hplus]
    | cons d t =>
      rw [List.isEmpty_cons, if_neg Bool.false_ne_true, List.cons_append, sign, sign]
      split_ifs <;> rfl
  rw [stoi, stoi, hsign]
  simp only [takeWhile_append_cons hdigit]

end Stoi
