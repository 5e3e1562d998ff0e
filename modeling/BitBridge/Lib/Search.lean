import Mathlib.Data.List.Infix

/-!
# The first match of a pattern

`std::string::find` goes through the text from the left; `search` gives what is
left of the text from the first match on.

* `search_eq_none_iff`: no match means that the pattern stands nowhere.
* `search_append`: **the first match stays the first** when text is appended.
* `search_between`: a pattern that cannot overlap itself is found where it was
  written, unless it stands in the text before.
* `infix_append_cons`: a pattern without `c` stands before a `c` or behind it.
* `eq_of_enclosed`: between two quotes stands one text.
-/

namespace Search

variable {α : Type*} {pat s t rest : List α}

/-- No proper part of the pattern is both at its beginning and at its end. -/
def Borderless (pat : List α) : Prop := ∀ k < pat.length, 0 < k → ¬ pat.drop k <+: pat

theorem not_prefix_append (hb : Borderless pat) (hs : s ≠ []) (hn : ¬ pat <+: s) :
    ¬ pat <+: s ++ (pat ++ rest) := by
  intro h
  rcases Nat.lt_or_ge s.length pat.length with hlt | hle
  · obtain ⟨u, hu⟩ : s <+: pat :=
      List.prefix_of_prefix_length_le (List.prefix_append _ _) h (Nat.le_of_lt hlt)
    have hdrop : pat.drop s.length = u := by rw [← hu, List.drop_left]
    have hur : u <+: pat ++ rest := by
      rw [← hu, List.append_assoc] at h
      exact (List.prefix_append_right_inj s).mp (by rw [← hu]; simpa using h)
    refine hb s.length hlt (List.length_pos_iff.mpr hs) ?_
    rw [hdrop]
    refine List.prefix_of_prefix_length_le hur (List.prefix_append _ _) ?_
    rw [← hdrop, List.length_drop]
    omega
  · exact hn (List.prefix_of_prefix_length_le h (List.prefix_append _ _) hle)

theorem not_infix_of_mem {c : α} (hc : c ∈ pat) (hs : c ∉ s) : ¬ pat <:+: s :=
  fun h => hs (h.subset hc)

theorem prefix_append_cons {c : α} (hc : c ∉ pat) (h : pat <+: s ++ c :: t) : pat <+: s := by
  rcases Nat.lt_or_ge s.length pat.length with hlt | hle
  · have hlong : (s ++ [c]).length ≤ pat.length := by
      rw [List.length_append, List.length_singleton]
      exact hlt
    have hpre : s ++ [c] <+: s ++ c :: t :=
      (List.prefix_append_right_inj s).mpr (List.prefix_append [c] t)
    have hs : s ++ [c] <+: pat := List.prefix_of_prefix_length_le hpre h hlong
    exact absurd (hs.subset (List.mem_append_right s (List.mem_singleton_self c))) hc
  · exact List.prefix_of_prefix_length_le h (List.prefix_append _ _) hle

/-- **A pattern without `c`** stands before a `c` or behind it. -/
theorem infix_append_cons {c : α} (hc : c ∉ pat) (h : pat <:+: s ++ c :: t) :
    pat <:+: s ∨ pat <:+: t := by
  induction s with
  | nil =>
    rcases List.infix_cons_iff.mp h with hp | ht
    · exact .inl (prefix_append_cons (s := []) hc hp).isInfix
    · exact .inr ht
  | cons a s ih =>
    rcases List.infix_cons_iff.mp h with hp | hi
    · exact .inl (prefix_append_cons (s := a :: s) hc hp).isInfix
    · exact (ih hi).imp_left fun hs => hs.trans (List.suffix_cons a s).isInfix

variable [DecidableEq α]

/-- The text from the first match on. -/
def search (pat : List α) : List α → Option (List α)
  | [] => if pat = [] then some [] else none
  | c :: s => if pat <+: c :: s then some (c :: s) else search pat s

instance (pat : List α) : Decidable (Borderless pat) :=
  inferInstanceAs (Decidable (∀ k < pat.length, 0 < k → ¬ pat.drop k <+: pat))

theorem search_here (h : pat <+: s) : search pat s = some s := by
  cases s with
  | nil => rw [search, if_pos (List.prefix_nil.mp h)]
  | cons c s => rw [search, if_pos h]

theorem search_cons {c : α} (h : ¬ pat <+: c :: s) :
    search pat (c :: s) = search pat s := by
  rw [search, if_neg h]

theorem search_nil (h : search pat [] = some t) : pat = [] ∧ t = [] := by
  rw [search] at h
  split at h
  · next hp => exact ⟨hp, (Option.some.inj h).symm⟩
  · cases h

theorem cases_search {c : α} (h : search pat (c :: s) = some t) :
    (pat <+: c :: s ∧ t = c :: s) ∨ (¬ pat <+: c :: s ∧ search pat s = some t) := by
  by_cases hp : pat <+: c :: s
  · rw [search_here hp] at h
    exact .inl ⟨hp, (Option.some.inj h).symm⟩
  · rw [search_cons hp] at h
    exact .inr ⟨hp, h⟩

theorem of_search (h : search pat s = some t) : pat <+: t ∧ t <:+ s := by
  induction s with
  | nil =>
    obtain ⟨rfl, rfl⟩ := search_nil h
    exact ⟨List.prefix_refl _, List.suffix_refl _⟩
  | cons c s ih =>
    rcases cases_search h with ⟨hp, rfl⟩ | ⟨-, h⟩
    · exact ⟨hp, List.suffix_refl _⟩
    · obtain ⟨hp, hs⟩ := ih h
      exact ⟨hp, hs.trans (List.suffix_cons c s)⟩

/-- Every other match is behind the first. -/
theorem suffix_of_search {u : List α} (h : search pat s = some t) (hp : pat <+: u)
    (hu : u <:+ s) : u <:+ t := by
  induction s with
  | nil =>
    rw [List.suffix_nil.mp hu]
    exact List.nil_suffix
  | cons c s ih =>
    rcases cases_search h with ⟨-, rfl⟩ | ⟨hn, h⟩
    · exact hu
    · rcases List.suffix_cons_iff.mp hu with rfl | hus
      · exact absurd hp hn
      · exact ih h hus

theorem search_eq_none_iff : search pat s = none ↔ ¬ pat <:+: s := by
  induction s with
  | nil => rw [search, List.infix_nil]; split <;> simp_all
  | cons c s ih =>
    rw [search, List.infix_cons_iff]
    split
    · next hp => simp [hp]
    · next hp => rw [ih]; simp [hp]

theorem exists_search (h : pat <:+: s) : ∃ t, search pat s = some t := by
  rw [← Option.ne_none_iff_exists']
  intro hn
  exact search_eq_none_iff.mp hn h

/-- **The first match stays the first.** -/
theorem search_append (h : search pat s = some t) : search pat (s ++ rest) = some (t ++ rest) := by
  induction s with
  | nil =>
    obtain ⟨rfl, rfl⟩ := search_nil h
    exact search_here List.nil_prefix
  | cons c s ih =>
    rcases cases_search h with ⟨hp, rfl⟩ | ⟨hp, h'⟩
    · exact search_here (hp.trans (List.prefix_append _ _))
    · have hlong : ¬ pat <+: c :: s ++ rest := by
        -- a pattern that is found in `s` is not longer than `c :: s`
        intro hpre
        obtain ⟨hpt, hts⟩ := of_search h
        exact hp (List.prefix_of_prefix_length_le hpre (List.prefix_append _ _)
          (Nat.le_trans hpt.length_le hts.length_le))
      exact (search_cons hlong).trans (ih h')

theorem search_between (hb : Borderless pat) (h : ¬ pat <:+: s) :
    search pat (s ++ (pat ++ rest)) = some (pat ++ rest) := by
  induction s with
  | nil => exact search_here (List.prefix_append _ _)
  | cons c s ih =>
    rw [List.infix_cons_iff, not_or] at h
    have hn : ¬ pat <+: c :: s ++ (pat ++ rest) :=
      not_prefix_append hb (List.cons_ne_nil c s) h.1
    exact (search_cons hn).trans (ih h.2)

/-- **Between two quotes** stands one text. -/
theorem eq_of_enclosed {q : α} {a b : List α} (ha : q ∉ a) (hb : q ∉ b)
    (h : q :: a ++ [q] <:+: q :: b ++ [q]) : a = b := by
  rcases List.infix_cons_iff.mp h with hp | hi
  · have hab : a ++ [q] <+: b ++ [q] := (List.cons_prefix_cons.mp hp).2
    obtain ⟨w, rfl⟩ := prefix_append_cons ha ((List.prefix_append a [q]).trans hab)
    rw [List.append_assoc, List.prefix_append_right_inj] at hab
    cases w with
    | nil => rw [List.append_nil]
    | cons x w =>
      have hx : q = x := (List.cons_prefix_cons.mp hab).1
      exact absurd (List.mem_append_right a (hx ▸ List.mem_cons_self)) hb
  · have hcount := hi.sublist.count_le q
    simp [List.count_eq_zero.mpr ha, List.count_eq_zero.mpr hb] at hcount

end Search
