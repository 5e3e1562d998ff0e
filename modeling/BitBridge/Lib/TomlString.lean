import Mathlib.Data.List.Basic

/-!
# Strings of TOML

A basic string stands in quotes; a multi-line basic string stands in three
quotes, and a line end right behind them is not part of it.  Text is UTF-8, so
the bytes from 128 on belong to characters that need no escape.

The relations hold of every reading that TOML 1.0 allows.  They leave out that
no more than two quotes of a multi-line string stand side by side.

* `Basic.of_length_eq`: a basic string without escapes holds plain bytes only.
* `MultiLine.keeps`: a quote at the end of a line is still there in the value.
* `plain_of_literal`: **what is put between quotes as it is, is read back only if
  it is plain.**
-/

namespace TomlString

/-- The bytes that stand in a basic string as they are: no quote, no backslash
and no control character but the tab. -/
def isPlain (c : UInt8) : Bool := c = 9 ∨ (32 ≤ c ∧ c ≠ 34 ∧ c ≠ 92 ∧ c ≠ 127)

def isHex (c : UInt8) : Bool := (48 ≤ c ∧ c ≤ 57) ∨ (65 ≤ c ∧ c ≤ 70) ∨ (97 ≤ c ∧ c ≤ 102)

def hexDigit (c : UInt8) : Nat :=
  if c ≤ 57 then c.toNat - 48 else if c ≤ 70 then c.toNat - 55 else c.toNat - 87

def hexNumber (digits : List UInt8) : Nat := digits.foldl (fun n c => 16 * n + hexDigit c) 0

def shortEscapes : List (UInt8 × UInt8) :=
  [(98, 8), (116, 9), (110, 10), (102, 12), (114, 13), (34, 34), (92, 92)]

/-- An escape sequence and the bytes that it stands for. -/
inductive Escape : List UInt8 → List UInt8 → Prop
  | short {c u : UInt8} (h : (c, u) ∈ shortEscapes) : Escape [92, c] [u]
  | unicode {u : UInt8} {digits : List UInt8} {c : Char}
      (hu : u = 117 ∧ digits.length = 4 ∨ u = 85 ∧ digits.length = 8)
      (hd : ∀ d ∈ digits, isHex d = true) (hc : hexNumber digits = c.toNat) :
      Escape (92 :: u :: digits) (String.utf8EncodeChar c)

inductive Basic : List UInt8 → List UInt8 → Prop
  | nil : Basic [] []
  | plain {c : UInt8} {b v : List UInt8} (hc : isPlain c = true) (h : Basic b v) :
      Basic (c :: b) (c :: v)
  | escape {e u b v : List UInt8} (he : Escape e u) (h : Basic b v) : Basic (e ++ b) (u ++ v)

/-- The lines of a multi-line basic string and their value.  A backslash at the
end of a line takes the white space behind it away. -/
inductive Multi : List UInt8 → List UInt8 → Prop
  | nil : Multi [] []
  | plain {c : UInt8} {b v : List UInt8} (hc : isPlain c = true ∨ c = 34 ∨ c = 10)
      (h : Multi b v) : Multi (c :: b) (c :: v)
  | crlf {u b v : List UInt8} (hu : u = [10] ∨ u = [13, 10]) (h : Multi b v) :
      Multi ([13, 10] ++ b) (u ++ v)
  | escape {e u b v : List UInt8} (he : Escape e u) (h : Multi b v) : Multi (e ++ b) (u ++ v)
  | fold {w b v : List UInt8} (hw : ∀ c ∈ w, c = 32 ∨ c = 9 ∨ c = 10 ∨ c = 13) (hn : 10 ∈ w)
      (h : Multi b v) : Multi ((92 :: w) ++ b) v

inductive MultiLine : List UInt8 → List UInt8 → Prop
  | text {b v : List UInt8} (hb : b.head? ≠ some 10) (h : Multi b v) : MultiLine b v
  | newline {b v : List UInt8} (h : Multi b v) : MultiLine (10 :: b) v
  | crlf {b v : List UInt8} (h : Multi b v) : MultiLine (13 :: 10 :: b) v

/-- The text begins with a string of the value `v`. -/
inductive Literal : List UInt8 → List UInt8 → Prop
  | basic {b v : List UInt8} (rest : List UInt8) (h : Basic b v) :
      Literal (34 :: (b ++ 34 :: rest)) v
  | multiLine {b v : List UInt8} (rest : List UInt8) (h : MultiLine b v) :
      Literal (34 :: 34 :: 34 :: (b ++ 34 :: 34 :: 34 :: rest)) v

/-! ### Escapes -/

theorem length_utf8EncodeChar_le (c : Char) : (String.utf8EncodeChar c).length ≤ 4 := by
  rw [String.length_utf8EncodeChar]
  exact c.utf8Size_le_four

theorem le_of_isHex {c : UInt8} (h : isHex c = true) : 48 ≤ c.toNat := by
  rcases of_decide_eq_true h with ⟨h, -⟩ | ⟨h, -⟩ | ⟨h, -⟩ <;>
    exact Nat.le_trans (by decide) (UInt8.le_iff_toNat_le.mp h)

theorem Escape.length_lt {e u : List UInt8} (h : Escape e u) : u.length < e.length := by
  cases h with
  | short _ => exact Nat.lt_succ_self 1
  | @unicode u digits c hu _ _ =>
    have := length_utf8EncodeChar_le c
    simp only [List.length_cons]
    omega

theorem Escape.head {e u : List UInt8} (h : Escape e u) : ∃ e', e = 92 :: e' := by
  cases h with
  | short _ => exact ⟨_, rfl⟩
  | unicode _ _ _ => exact ⟨_, rfl⟩

/-- The only escape with a byte below the digits is that of the quote. -/
theorem Escape.eq_quote {e u : List UInt8} (h : Escape e u) {x : UInt8} (hx : x ∈ e)
    (hlow : x.toNat < 48) : x = 34 ∧ e = [92, 34] ∧ u = [34] := by
  have hshort : (shortEscapes.all fun p => 48 ≤ p.1.toNat || p = (34, 34)) = true := by decide
  cases h with
  | short h =>
    rcases List.mem_cons.mp hx with rfl | hx
    · exact absurd hlow (by decide)
    obtain rfl := List.mem_singleton.mp hx
    have hp := List.all_eq_true.mp hshort _ h
    simp only [Bool.or_eq_true, decide_eq_true_eq] at hp
    rcases hp with hp | hp
    · omega
    · cases hp
      exact ⟨rfl, rfl, rfl⟩
  | @unicode u digits c hu hd _ =>
    have hle : ∀ y ∈ 92 :: u :: digits, 48 ≤ y.toNat := by
      rw [List.forall_mem_cons, List.forall_mem_cons]
      refine ⟨by decide, ?_, fun d hd' => le_of_isHex (hd d hd')⟩
      rcases hu with ⟨rfl, -⟩ | ⟨rfl, -⟩ <;> decide
    exact absurd (hle x hx) (by omega)

/-! ### Basic strings -/

theorem Basic.length_le {b v : List UInt8} (h : Basic b v) : v.length ≤ b.length := by
  induction h with
  | nil => exact Nat.le_refl _
  | plain _ _ ih => exact Nat.succ_le_succ ih
  | escape he _ ih =>
    have := he.length_lt
    rw [List.length_append, List.length_append]
    omega

/-- **A basic string without escapes holds plain bytes only.** -/
theorem Basic.of_length_eq {b v : List UInt8} (h : Basic b v) (hlen : v.length = b.length) :
    v = b ∧ ∀ c ∈ b, isPlain c = true := by
  induction h with
  | nil => exact ⟨rfl, fun c hc => absurd hc List.not_mem_nil⟩
  | plain hc _ ih =>
    obtain ⟨rfl, hb⟩ := ih (Nat.succ.inj hlen)
    exact ⟨rfl, List.forall_mem_cons.mpr ⟨hc, hb⟩⟩
  | escape he h _ =>
    have h1 := he.length_lt
    have h2 := h.length_le
    rw [List.length_append, List.length_append] at hlen
    omega

theorem Basic.newline_not_mem {b v : List UInt8} (h : Basic b v) : (10 : UInt8) ∉ b := by
  intro hn
  induction h with
  | nil => cases hn
  | plain hc _ ih =>
    rcases List.mem_cons.mp hn with rfl | hn
    · cases hc
    · exact ih hn
  | escape he _ ih =>
    rcases List.mem_append.mp hn with hn | hn
    · exact absurd (he.eq_quote hn (by decide)).1 (by decide)
    · exact ih hn

theorem basic_of_plain {v : List UInt8} (h : ∀ c ∈ v, isPlain c = true) : Basic v v := by
  induction v with
  | nil => exact .nil
  | cons c v ih =>
    obtain ⟨hc, hv⟩ := List.forall_mem_cons.mp h
    exact .plain hc (ih hv)

/-! ### Multi-line strings -/

theorem Multi.length_le {b v : List UInt8} (h : Multi b v) : v.length ≤ b.length := by
  induction h with
  | nil => exact Nat.le_refl _
  | plain _ _ ih => exact Nat.succ_le_succ ih
  | crlf hu _ ih =>
    rw [List.length_append, List.length_append]
    rcases hu with rfl | rfl <;> simp only [List.length_cons, List.length_nil] <;> omega
  | escape he _ ih =>
    have := he.length_lt
    rw [List.length_append, List.length_append]
    omega
  | fold _ _ _ ih =>
    rw [List.length_append]
    omega

theorem Multi.of_cons {c : UInt8} {b v : List UInt8} (h : Multi (c :: b) v) (h92 : c ≠ 92)
    (h13 : c ≠ 13) : ∃ v', v = c :: v' ∧ Multi b v' := by
  generalize hx : c :: b = x at h
  cases h with
  | nil => cases hx
  | plain _ h =>
    cases hx
    exact ⟨_, rfl, h⟩
  | crlf _ _ => exact absurd (List.cons.inj hx).1 h13
  | escape he _ =>
    obtain ⟨e', rfl⟩ := he.head
    exact absurd (List.cons.inj hx).1 h92
  | fold _ _ _ => exact absurd (List.cons.inj hx).1 h92

section

variable {m : UInt8}

theorem Multi.of_lineEnd {q v : List UInt8} (h : Multi (10 :: m :: q) v) (h92 : m ≠ 92)
    (h13 : m ≠ 13) : ∃ z, v = 10 :: m :: z := by
  obtain ⟨v', rfl, h'⟩ := h.of_cons (by decide) (by decide)
  obtain ⟨z, rfl, -⟩ := h'.of_cons h92 h13
  exact ⟨z, rfl⟩

theorem quote_behind_or_in {e b x r : List UInt8} (h : e ++ b = x ++ 34 :: r) :
    (∃ x', x = e ++ x' ∧ b = x' ++ 34 :: r) ∨ ∃ c, e = x ++ 34 :: c ∧ r = c ++ b := by
  rcases List.append_eq_append_iff.mp h with ⟨x', hx, hb⟩ | ⟨c, he, hr⟩
  · exact .inl ⟨x', hx, hb⟩
  · cases c with
    | nil => exact .inl ⟨[], by rw [he, List.append_nil, List.append_nil], hr.symm⟩
    | cons c1 c =>
      obtain ⟨rfl, hc⟩ := List.cons.inj hr
      exact .inr ⟨c, he, hc⟩

/-- **A quote at the end of a line is kept**, and nothing before it gets longer. -/
theorem Multi.keeps {b v : List UInt8} (h : Multi b v) (h92 : m ≠ 92) (h13 : m ≠ 13) :
    ∀ {x q : List UInt8}, b = x ++ 34 :: 10 :: m :: q →
      ∃ y z, v = y ++ 34 :: 10 :: m :: z ∧ y.length ≤ x.length := by
  induction h with
  | nil =>
    intro x q hb
    simp at hb
  | @plain c b v hc h ih =>
    intro x q hb
    cases x with
    | nil =>
      cases hb
      obtain ⟨z, rfl⟩ := h.of_lineEnd h92 h13
      exact ⟨[], z, rfl, Nat.le_refl _⟩
    | cons c' x =>
      cases hb
      obtain ⟨y, z, rfl, hle⟩ := ih rfl
      exact ⟨c :: y, z, rfl, Nat.succ_le_succ hle⟩
  | @crlf u b v hu _ ih =>
    intro x q hb
    rcases quote_behind_or_in hb with ⟨x', rfl, hb'⟩ | ⟨c, hc, -⟩
    · obtain ⟨y, z, rfl, hle⟩ := ih hb'
      refine ⟨u ++ y, z, by rw [List.append_assoc], ?_⟩
      rw [List.length_append, List.length_append]
      rcases hu with rfl | rfl <;> simp only [List.length_cons, List.length_nil] <;> omega
    · exact absurd (hc ▸ by simp : (34 : UInt8) ∈ [13, 10]) (by decide)
  | @escape e u b v he h ih =>
    intro x q hb
    rcases quote_behind_or_in hb with ⟨x', rfl, hb'⟩ | ⟨c, hc, hb'⟩
    · obtain ⟨y, z, rfl, hle⟩ := ih hb'
      refine ⟨u ++ y, z, by rw [List.append_assoc], ?_⟩
      have := he.length_lt
      rw [List.length_append, List.length_append]
      omega
    · -- the quote belongs to the escape, which is then that of the quote
      obtain ⟨-, rfl, rfl⟩ := he.eq_quote (x := 34) (hc ▸ by simp) (by decide)
      rcases x with _ | ⟨a, _ | ⟨a', x⟩⟩
      · cases hc
      · cases hc
        cases hb'
        obtain ⟨z, rfl⟩ := h.of_lineEnd h92 h13
        exact ⟨[], z, rfl, Nat.zero_le _⟩
      · simp at hc
  | @fold w b v hw hn h ih =>
    intro x q hb
    rcases quote_behind_or_in hb with ⟨x', rfl, hb'⟩ | ⟨c, hc, -⟩
    · obtain ⟨y, z, rfl, hle⟩ := ih hb'
      refine ⟨y, z, rfl, ?_⟩
      rw [List.length_append]
      omega
    · rcases List.mem_cons.mp (hc ▸ by simp : (34 : UInt8) ∈ 92 :: w) with h | h
      · cases h
      · rcases hw _ h with h | h | h | h <;> cases h

theorem MultiLine.length_le {b v : List UInt8} (h : MultiLine b v) : v.length ≤ b.length := by
  cases h with
  | text _ h => exact h.length_le
  | newline h => exact Nat.le_succ_of_le h.length_le
  | crlf h => exact Nat.le_succ_of_le (Nat.le_succ_of_le h.length_le)

theorem MultiLine.keeps {x q v : List UInt8} (h : MultiLine (x ++ 34 :: 10 :: m :: q) v)
    (h92 : m ≠ 92) (h13 : m ≠ 13) :
    ∃ y z, v = y ++ 34 :: 10 :: m :: z ∧ y.length ≤ x.length := by
  generalize hb : x ++ 34 :: 10 :: m :: q = b at h
  cases h with
  | text _ h => exact h.keeps h92 h13 hb.symm
  | newline h =>
    rcases x with _ | ⟨c, x⟩
    · cases hb
    · obtain ⟨y, z, hv, hle⟩ := h.keeps h92 h13 (List.cons.inj hb).2.symm
      exact ⟨y, z, hv, Nat.le_succ_of_le hle⟩
  | crlf h =>
    rcases x with _ | ⟨c, _ | ⟨c', x⟩⟩
    · cases hb
    · cases hb
    · obtain ⟨y, z, hv, hle⟩ := h.keeps h92 h13 (List.cons.inj (List.cons.inj hb).2).2.symm
      exact ⟨y, z, hv, Nat.le_succ_of_le (Nat.le_succ_of_le hle)⟩

/-- A line end right behind the opening quotes is no part of the value. -/
theorem MultiLine.of_newline {q v : List UInt8} (h : MultiLine (10 :: m :: q) v) (h92 : m ≠ 92)
    (h13 : m ≠ 13) : ∃ z, v = m :: z := by
  generalize hb : 10 :: m :: q = b at h
  cases h with
  | text hhead _ =>
    subst hb
    exact absurd rfl hhead
  | newline h =>
    cases hb
    obtain ⟨z, hz, -⟩ := h.of_cons h92 h13
    exact ⟨z, hz⟩
  | crlf _ => cases hb

/-- No quote at the end of a line is inside a multi-line string that begins with
two quotes and has its own value behind them: the value would hold one that
stands even further to the left. -/
theorem not_quote_lineEnd {w r : List UInt8} (h : MultiLine (w ++ r) (34 :: 34 :: w))
    (h34 : m ≠ 34) (h92 : m ≠ 92) (h13 : m ≠ 13) :
    ∀ (n : Nat) {x q : List UInt8}, x.length ≤ n → w ++ r ≠ x ++ 34 :: 10 :: m :: q := by
  intro n
  induction n with
  | zero =>
    intro x q hx hb
    rw [hb] at h
    obtain ⟨y, z, hv, hle⟩ := h.keeps h92 h13
    obtain rfl : y = [] := List.eq_nil_of_length_eq_zero (by omega)
    cases hv
  | succ n ih =>
    intro x q hx hb
    have h' := h
    rw [hb] at h'
    obtain ⟨y, z, hv, hle⟩ := h'.keeps h92 h13
    rcases y with _ | ⟨c, _ | ⟨c', y⟩⟩
    · cases hv
    · -- the value goes on with the line end, which would not be part of it
      cases hv
      obtain ⟨z', hz'⟩ := h.of_newline h92 h13
      cases hz'
      exact h34 rfl
    · cases hv
      refine ih (x := y) (q := z ++ r) ?_ (by simp)
      simp only [List.length_cons] at hle
      omega

/-! ### What is written as it is -/

/-- **What is put between quotes as it is, is read back only if it is plain.** -/
theorem plain_of_literal {v rest : List UInt8} (h34 : m ≠ 34) (h92 : m ≠ 92) (h13 : m ≠ 13)
    (h : Literal (34 :: (v ++ 34 :: 10 :: m :: rest)) v) : ∀ c ∈ v, isPlain c = true := by
  generalize htext : 34 :: (v ++ 34 :: 10 :: m :: rest) = text at h
  cases h with
  | @basic b _ r h =>
    have ht := (List.cons.inj htext).2
    rcases List.append_eq_append_iff.mp ht with ⟨b', rfl, hb'⟩ | ⟨c, rfl, hc⟩
    · rcases b' with _ | ⟨b1, _ | ⟨b2, b'⟩⟩
      · rw [List.append_nil] at h
        exact (h.of_length_eq rfl).2
      · cases hb'
      · simp only [List.cons_append, List.cons.injEq] at hb'
        obtain ⟨rfl, rfl, -⟩ := hb'
        exact absurd (by simp) h.newline_not_mem
    · have hle := h.length_le
      rw [List.length_append] at hle
      obtain rfl : c = [] := List.eq_nil_of_length_eq_zero (by omega)
      rw [List.append_nil] at h ⊢
      exact (h.of_length_eq rfl).2
  | @multiLine b _ r h =>
    exfalso
    have ht := (List.cons.inj htext).2
    rcases v with _ | ⟨c, _ | ⟨c', w⟩⟩
    · cases ht
    · -- the opening quotes are the two of the line and the one between them
      rcases b with _ | ⟨b1, _ | ⟨b2, b⟩⟩
      · cases ht
      · cases ht
        exact h34 rfl
      · cases ht
        obtain ⟨z, hz⟩ := h.of_newline h92 h13
        cases hz
        exact h34 rfl
    · simp only [List.cons_append, List.cons.injEq] at ht
      obtain ⟨rfl, rfl, ht⟩ := ht
      rcases List.append_eq_append_iff.mp ht with ⟨b', rfl, hb'⟩ | ⟨c, rfl, hc⟩
      · rcases b' with _ | ⟨b1, _ | ⟨b2, _ | ⟨b3, b'⟩⟩⟩
        · cases hb'
        · cases hb'
        · cases hb'
          exact h34 rfl
        · cases hb'
          exact not_quote_lineEnd h h34 h92 h13 w.length (Nat.le_refl _) rfl
      · have hle := h.length_le
        simp only [List.length_cons, List.length_append] at hle
        omega

end

end TomlString
