import BitBridge.Bytes
import BitBridge.Lib.TomlString
import Mathlib.Algebra.Group.Nat.Defs

/-!
# TOML documents

toml++ is not part of the repository.  `Line` is the part of TOML that the
settings file is written in, and `render` its text.  The library is a parameter,
`TomlPlusPlus`, and `TomlPlusPlus.Conforms` says what TOML 1.0 and its
documentation promise for a text: a document of such lines is accepted and read,
and when a text is accepted, a string in it is read by the syntax of strings.

* `of_render_eq`: **a text is read into lines in one way.**
* `Conforms.plain`: **a string that is written as it is, is read back only if it
  is plain.**
* `ofLines_conforms`: a library that knows one document.
-/

namespace BitBridge

namespace Toml

open TomlString

/-- The views of a parsed document; `parse` is `none` where it throws a
`parse_error`, and `get` is `operator[]`. -/
structure TomlPlusPlus (N : Type) where
  parse : Bytes → Option N
  get : N → Bytes → N
  isTable : N → Bool
  valueString : N → Option Bytes
  valueInteger : N → Option Int64
  valueBool : N → Option Bool

/-- A value; `raw` is what stands between the quotes. -/
inductive Value
  | string (raw : Bytes)
  | integer (v : Nat)
  | boolean (b : Bool)
  deriving DecidableEq

inductive Line
  | blank
  | comment (body : Bytes)
  | table (path : List Bytes)
  | keyValue (key : Bytes) (v : Value)
  deriving DecidableEq

def Value.text : Value → Bytes
  | .string raw => 34 :: (raw ++ [34])
  | .integer v => decimal v
  | .boolean b => if b then ascii "true" else ascii "false"

def dotted : List Bytes → Bytes
  | [] => []
  | [key] => key
  | key :: path => key ++ 46 :: dotted path

def Line.text : Line → Bytes
  | .blank => []
  | .comment body => 35 :: body
  | .table path => 91 :: (dotted path ++ [93])
  | .keyValue key v => key ++ 32 :: 61 :: 32 :: v.text

def render : List Line → Bytes
  | [] => []
  | l :: lines => l.text ++ 10 :: render lines

/-- The table that a key behind the lines belongs to. -/
def tableAfter : List Bytes → List Line → List Bytes
  | path, [] => path
  | _, .table path :: lines => tableAfter path lines
  | path, _ :: lines => tableAfter path lines

def tables : List Line → List (List Bytes)
  | [] => []
  | .table path :: lines => path :: tables lines
  | _ :: lines => tables lines

/-- The value of each key, which is named with its table. -/
def assignments : List Bytes → List Line → List (List Bytes × Value)
  | _, [] => []
  | _, .table path :: lines => assignments path lines
  | path, .keyValue key v :: lines => (path ++ [key], v) :: assignments path lines
  | path, _ :: lines => assignments path lines

/-! ### Well-formed documents -/

def IsUtf8 (text : Bytes) : Prop := ∃ chars : List Char, text = chars.flatMap String.utf8EncodeChar

def isBare (c : UInt8) : Bool :=
  (48 ≤ c ∧ c ≤ 57) ∨ (65 ≤ c ∧ c ≤ 90) ∨ (97 ≤ c ∧ c ≤ 122) ∨ c = 95 ∨ c = 45

def IsBareKey (key : Bytes) : Prop := key ≠ [] ∧ ∀ c ∈ key, isBare c = true

instance (key : Bytes) : Decidable (IsBareKey key) :=
  decidable_of_iff ((!key.isEmpty && key.all isBare) = true) (by simp [IsBareKey])

def Value.WellFormed : Value → Prop
  | .string raw => IsUtf8 raw ∧ ∀ c ∈ raw, isPlain c = true
  | .integer v => v < 2 ^ 63
  | .boolean _ => True

/-- Comments have no control characters; those with quotes or backslashes are left
out here. -/
def Line.WellFormed : Line → Prop
  | .blank => True
  | .comment body => IsUtf8 body ∧ ∀ c ∈ body, isPlain c = true
  | .table path => path ≠ [] ∧ ∀ key ∈ path, IsBareKey key
  | .keyValue key v => IsBareKey key ∧ v.WellFormed

/-- Nothing is defined twice, and no value is used as a table. -/
structure WellFormed (lines : List Line) : Prop where
  line : ∀ l ∈ lines, l.WellFormed
  nodup : (tables lines ++ (assignments [] lines).map (·.1)).Nodup
  values : ∀ a ∈ assignments [] lines,
    ∀ path ∈ tables lines ++ (assignments [] lines).map (·.1), a.1 <+: path → a.1 = path

/-! ### The library -/

namespace TomlPlusPlus

variable {N : Type} (T : TomlPlusPlus N)

def view (n : N) (path : List Bytes) : N := path.foldl T.get n

def ReadsValue (n : N) : Value → Prop
  | .string raw => T.valueString n = some raw
  | .integer v => T.valueInteger n = some (Int64.ofNat v)
  | .boolean b => T.valueBool n = some b

structure Reads (lines : List Line) (n : N) : Prop where
  isTable : ∀ path ∈ tables lines, T.isTable (T.view n path) = true
  value : ∀ a ∈ assignments [] lines, T.ReadsValue (T.view n a.1) a.2

/-- The text is treated as TOML 1.0 says. -/
structure Conforms (text : Bytes) : Prop where
  accepts : ∀ lines, WellFormed lines → render lines = text →
    ∃ n, T.parse text = some n ∧ T.Reads lines n
  strings : ∀ lines key rest n, (∀ l ∈ lines, l.WellFormed) → IsBareKey key →
    text = render lines ++ (key ++ 32 :: 61 :: 32 :: 34 :: rest) → T.parse text = some n →
      ∃ v, Literal (34 :: rest) v ∧
        T.valueString (T.view n (tableAfter [] lines ++ [key])) = some v

end TomlPlusPlus

/-! ### Texts of lines -/

theorem ne_of_isBare {c : UInt8} (h : isBare c = true) :
    c ≠ 10 ∧ c ≠ 35 ∧ c ≠ 91 := by
  refine ⟨?_, ?_, ?_⟩ <;>
  · rintro rfl
    revert h
    decide

theorem IsBareKey.notMem {key : Bytes} (h : IsBareKey key) {c : UInt8} (hc : isBare c = false) :
    c ∉ key := by
  intro hk
  rw [h.2 c hk] at hc
  cases hc

theorem newline_notMem_of_plain {v : Bytes} (h : ∀ c ∈ v, isPlain c = true) : (10 : UInt8) ∉ v :=
  fun hn => absurd (h 10 hn) (by decide)

theorem dotted_notMem {path : List Bytes} (h : ∀ key ∈ path, IsBareKey key) {c : UInt8}
    (hc : isBare c = false) (h46 : c ≠ 46) : c ∉ dotted path := by
  induction path with
  | nil => exact List.not_mem_nil
  | cons key path ih =>
    obtain ⟨hkey, hpath⟩ := List.forall_mem_cons.mp h
    cases path with
    | nil => exact hkey.notMem hc
    | cons key' path =>
      rw [dotted, List.mem_append, List.mem_cons, not_or, not_or]
      · exact ⟨hkey.notMem hc, h46, ih hpath⟩
      · exact fun h => absurd h (List.cons_ne_nil _ _)

theorem Value.newline_notMem {v : Value} (h : v.WellFormed) : (10 : UInt8) ∉ v.text := by
  cases v with
  | string raw =>
    intro hn
    simp only [text, List.mem_cons, List.mem_append, List.not_mem_nil, or_false] at hn
    rcases hn with hn | hn | hn
    · cases hn
    · exact newline_notMem_of_plain h.2 hn
    · cases hn
  | integer v => exact fun hn => absurd (mem_decimal hn).1 (by decide)
  | boolean b => cases b <;> decide

theorem Line.newline_notMem {l : Line} (h : l.WellFormed) : (10 : UInt8) ∉ l.text := by
  cases l with
  | blank => exact List.not_mem_nil
  | comment body =>
    rw [text, List.mem_cons, not_or]
    exact ⟨by decide, newline_notMem_of_plain h.2⟩
  | table path =>
    rw [text, List.mem_cons, List.mem_append, List.mem_singleton]
    rintro (hn | hn | hn)
    · cases hn
    · exact dotted_notMem h.2 (by decide) (by decide) hn
    · cases hn
  | keyValue key v =>
    rw [text, List.mem_append, List.mem_cons, List.mem_cons, List.mem_cons]
    rintro (hn | hn | hn | hn | hn)
    · exact h.1.notMem (by decide) hn
    · cases hn
    · cases hn
    · cases hn
    · exact Value.newline_notMem h.2 hn

/-! ### One way to read a text -/

theorem dotted_inj {path path' : List Bytes} (hne : path ≠ []) (hne' : path' ≠ [])
    (h : ∀ key ∈ path, IsBareKey key) (h' : ∀ key ∈ path', IsBareKey key)
    (heq : dotted path = dotted path') : path = path' := by
  induction path generalizing path' with
  | nil => exact absurd rfl hne
  | cons key path ih =>
    obtain ⟨hkey, hpath⟩ := List.forall_mem_cons.mp h
    cases path' with
    | nil => exact absurd rfl hne'
    | cons key' path' =>
      obtain ⟨hkey', hpath'⟩ := List.forall_mem_cons.mp h'
      have hdot : isBare 46 = false := by decide
      cases path with
      | nil =>
        cases path' with
        | nil => exact congrArg (fun k => [k]) heq
        | cons k path' =>
          refine absurd ?_ (hkey.notMem hdot)
          rw [show key = dotted [key] from rfl, heq, dotted]
          · simp
          · exact fun h => absurd h (List.cons_ne_nil _ _)
      | cons k path =>
        cases path' with
        | nil =>
          refine absurd ?_ (hkey'.notMem hdot)
          rw [show key' = dotted [key'] from rfl, ← heq, dotted]
          · simp
          · exact fun h => absurd h (List.cons_ne_nil _ _)
        | cons k' path' =>
          obtain ⟨rfl, hrest⟩ := append_cons_inj (hkey.notMem hdot) (hkey'.notMem hdot) heq
          rw [ih (List.cons_ne_nil _ _) (List.cons_ne_nil _ _) hpath hpath' hrest]

theorem decimal_ne_cons {n : Nat} {c : UInt8} {rest : Bytes} (hc : c.toNat < 48 ∨ 57 < c.toNat) :
    decimal n ≠ c :: rest := by
  intro h
  have := mem_decimal (h ▸ List.mem_cons_self : c ∈ decimal n)
  omega

theorem Value.text_inj {v v' : Value} (h : v.text = v'.text) : v = v' := by
  cases v with
  | string raw =>
    cases v' with
    | string raw' => rw [List.append_cancel_right (List.cons.inj h).2]
    | integer n => exact absurd h.symm (decimal_ne_cons (by decide))
    | boolean b => cases b <;> exact absurd (List.cons.inj h).1 (by decide)
  | integer n =>
    cases v' with
    | string raw' => exact absurd h (decimal_ne_cons (by decide))
    | integer n' => rw [decimal_inj h]
    | boolean b => cases b <;> exact absurd h (decimal_ne_cons (by decide))
  | boolean b =>
    cases v' with
    | string raw' => cases b <;> exact absurd (List.cons.inj h).1 (by decide)
    | integer n => cases b <;> exact absurd h.symm (decimal_ne_cons (by decide))
    | boolean b' =>
      cases b <;> cases b' <;> first | rfl | exact absurd h (by decide)

theorem Line.of_key {l : Line} (h : l.WellFormed) {key r t : Bytes} (hkey : IsBareKey key)
    (ht : l.text ++ 10 :: r = key ++ 32 :: 61 :: 32 :: t) :
    ∃ v, l = .keyValue key v ∧ v.text ++ 10 :: r = t := by
  obtain ⟨c, k, rfl⟩ := List.exists_cons_of_ne_nil hkey.1
  obtain ⟨h10, h35, h91⟩ := ne_of_isBare (hkey.2 c List.mem_cons_self)
  cases l with
  | blank => exact absurd (List.cons.inj ht).1.symm h10
  | comment body => exact absurd (List.cons.inj ht).1.symm h35
  | table path => exact absurd (List.cons.inj ht).1.symm h91
  | keyValue key' v =>
    rw [Line.text, List.append_assoc] at ht
    obtain ⟨rfl, hv⟩ := append_cons_inj (h.1.notMem (by decide)) (hkey.notMem (by decide)) ht
    exact ⟨v, rfl, (List.cons.inj (List.cons.inj hv).2).2⟩

theorem Line.text_inj {l l' : Line} (h : l.WellFormed) (h' : l'.WellFormed)
    (heq : l.text = l'.text) : l = l' := by
  have hkey : ∀ {l : Line} {key : Bytes} {v : Value}, l.WellFormed → IsBareKey key →
      l.text = (Line.keyValue key v).text → ∃ v', l = .keyValue key v' ∧ v'.text = v.text := by
    intro l key v h hkey ht
    obtain ⟨v', hl, hv⟩ := @Line.of_key l h key [] (v.text ++ [10]) hkey
      (by rw [ht, Line.text, List.append_assoc]; rfl)
    exact ⟨v', hl, List.append_cancel_right hv⟩
  cases l with
  | keyValue key v =>
    obtain ⟨v', rfl, hv⟩ := hkey h' h.1 heq.symm
    rw [Value.text_inj hv]
  | blank =>
    cases l' with
    | blank => rfl
    | comment _ => cases heq
    | table _ => cases heq
    | keyValue key' v' =>
      obtain ⟨v, hl, -⟩ := hkey h h'.1 heq
      cases hl
  | comment body =>
    cases l' with
    | blank => cases heq
    | comment _ => exact congrArg _ (List.cons.inj heq).2
    | table _ => cases heq
    | keyValue key' v' =>
      obtain ⟨v, hl, -⟩ := hkey h h'.1 heq
      cases hl
  | table path =>
    cases l' with
    | blank => cases heq
    | comment _ => cases heq
    | table path' =>
      rw [dotted_inj h.1 h'.1 h.2 h'.2 (List.append_cancel_right (List.cons.inj heq).2)]
    | keyValue key' v' =>
      obtain ⟨v, hl, -⟩ := hkey h h'.1 heq
      cases hl

/-- A text that begins with a line begins with the same line in every reading. -/
theorem of_render_cons {lines : List Line} (h : ∀ l ∈ lines, l.WellFormed) {t rest : Bytes}
    (ht : (10 : UInt8) ∉ t) (heq : render lines = t ++ 10 :: rest) :
    ∃ l lines', lines = l :: lines' ∧ l.text = t ∧ render lines' = rest := by
  cases lines with
  | nil => cases t <;> cases heq
  | cons l lines =>
    obtain ⟨hl, -⟩ := List.forall_mem_cons.mp h
    obtain ⟨htext, hrest⟩ := append_cons_inj (Line.newline_notMem hl) ht heq
    exact ⟨l, lines, rfl, htext, hrest⟩

theorem of_render_append {pre lines : List Line} (hpre : ∀ l ∈ pre, l.WellFormed)
    (h : ∀ l ∈ lines, l.WellFormed) {rest : Bytes} (heq : render lines = render pre ++ rest) :
    ∃ lines', lines = pre ++ lines' ∧ render lines' = rest := by
  induction pre generalizing lines with
  | nil => exact ⟨lines, rfl, heq⟩
  | cons p pre ih =>
    obtain ⟨hp, hpre'⟩ := List.forall_mem_cons.mp hpre
    rw [render, List.append_assoc] at heq
    obtain ⟨l, lines, rfl, htext, htail⟩ := of_render_cons h (Line.newline_notMem hp) heq
    obtain ⟨hl, hlines⟩ := List.forall_mem_cons.mp h
    obtain rfl := Line.text_inj hl hp htext
    obtain ⟨lines', rfl, hrest⟩ := ih hpre' hlines htail
    exact ⟨lines', rfl, hrest⟩

/-- **A text is read into lines in one way.** -/
theorem of_render_eq {lines lines' : List Line} (h : ∀ l ∈ lines, l.WellFormed)
    (h' : ∀ l ∈ lines', l.WellFormed) (heq : render lines = render lines') : lines = lines' := by
  rw [← List.append_nil (render lines')] at heq
  obtain ⟨rest, rfl, hrest⟩ := of_render_append h' h heq
  cases rest with
  | nil => exact List.append_nil _
  | cons l rest =>
    rw [render] at hrest
    exact absurd hrest (by simp)

theorem plain_of_render {pre lines : List Line} (hpre : ∀ l ∈ pre, l.WellFormed)
    (h : ∀ l ∈ lines, l.WellFormed) {key rest : Bytes} (hkey : IsBareKey key)
    (heq : render lines = render pre ++ (key ++ 32 :: 61 :: 32 :: 34 :: rest)) :
    ∃ raw lines', lines = pre ++ .keyValue key (.string raw) :: lines' ∧
      rest = raw ++ 34 :: 10 :: render lines' ∧ ∀ c ∈ raw, isPlain c = true := by
  obtain ⟨lines', rfl, hrest⟩ := of_render_append hpre h heq
  cases lines' with
  | nil =>
    obtain ⟨c, k, rfl⟩ := List.exists_cons_of_ne_nil hkey.1
    cases hrest
  | cons l lines' =>
    have hl : l.WellFormed := h l (by simp)
    obtain ⟨v, rfl, hv⟩ := Line.of_key hl hkey hrest
    cases v with
    | string raw =>
      exact ⟨raw, lines', rfl,
        (List.cons.inj hv).2.symm.trans (List.append_assoc raw [34] (10 :: render lines')), hl.2.2⟩
    | integer n =>
      obtain ⟨d, l, hd⟩ := List.exists_cons_of_ne_nil (decimal_ne_nil n)
      rw [Value.text, hd, List.cons_append, List.cons.injEq] at hv
      rw [hv.1] at hd
      exact absurd hd (decimal_ne_cons (by decide))
    | boolean b => cases b <;> exact absurd (List.cons.inj hv).1 (by decide)

theorem render_append (pre lines : List Line) :
    render (pre ++ lines) = render pre ++ render lines := by
  induction pre with
  | nil => rfl
  | cons l pre ih =>
    rw [List.cons_append, render, render, ih, List.append_assoc]
    rfl

/-- **A string that is put between quotes as it is, is read back only if it is
plain**, when the next line begins with none of the bytes that strings give a
meaning. -/
theorem TomlPlusPlus.Conforms.plain {N : Type} {T : TomlPlusPlus N} (pre : List Line) (key : Bytes)
    (m : UInt8) {post : List Line} {v r : Bytes} {n : N}
    (h : T.Conforms (render (pre ++ .keyValue key (.string v) :: post)))
    (hparse : T.parse (render (pre ++ .keyValue key (.string v) :: post)) = some n)
    (hpre : ∀ l ∈ pre, l.WellFormed) (hkey : IsBareKey key) (hpost : render post = m :: r)
    (h34 : m ≠ 34) (h92 : m ≠ 92) (h13 : m ≠ 13)
    (hv : T.valueString (T.view n (tableAfter [] pre ++ [key])) = some v) :
    ∀ c ∈ v, isPlain c = true := by
  have htext : render (pre ++ .keyValue key (.string v) :: post) =
      render pre ++ (key ++ 32 :: 61 :: 32 :: 34 :: (v ++ 34 :: 10 :: m :: r)) := by
    rw [render_append, render, hpost, Line.text, Value.text]
    simp only [List.append_assoc, List.cons_append, List.nil_append]
  obtain ⟨v', hliteral, hv'⟩ := h.strings pre key _ n hpre hkey htext hparse
  obtain rfl : v = v' := Option.some.inj (hv.symm.trans hv')
  exact plain_of_literal h34 h92 h13 hliteral

/-! ### A library that knows one document -/

/-- A view is the dotted key that it is behind. -/
def ofLines (lines : List Line) : TomlPlusPlus (List Bytes) where
  parse text := if text = render lines then some [] else none
  get path key := path ++ [key]
  isTable path := path ∈ tables lines
  valueString path :=
    match (assignments [] lines).lookup path with
    | some (.string raw) => some raw
    | _ => none
  valueInteger path :=
    match (assignments [] lines).lookup path with
    | some (.integer v) => some (Int64.ofNat v)
    | _ => none
  valueBool path :=
    match (assignments [] lines).lookup path with
    | some (.boolean b) => some b
    | _ => none

theorem ofLines_view (lines : List Line) (start path : List Bytes) :
    (ofLines lines).view start path = start ++ path := by
  induction path generalizing start with
  | nil => exact (List.append_nil start).symm
  | cons key path ih =>
    refine (ih (start ++ [key])).trans ?_
    rw [List.append_assoc]
    rfl

theorem lookup_of_mem {l : List (List Bytes × Value)} (h : (l.map (·.1)).Nodup)
    {a : List Bytes × Value} (ha : a ∈ l) : l.lookup a.1 = some a.2 := by
  obtain ⟨l1, l2, rfl⟩ := List.append_of_mem ha
  refine List.lookup_eq_some_iff.mpr ⟨l1, l2, rfl, fun p hp => ?_⟩
  rw [List.map_append, List.map_cons] at h
  have hne := (List.nodup_append.mp h).2.2 p.1 (List.mem_map_of_mem hp) a.1 List.mem_cons_self
  simpa using fun heq => hne heq.symm

theorem mem_assignments {pre lines : List Line} {key : Bytes} {v : Value} (path : List Bytes) :
    (tableAfter path pre ++ [key], v) ∈ assignments path (pre ++ .keyValue key v :: lines) := by
  induction pre generalizing path with
  | nil => exact List.mem_cons_self
  | cons l pre ih =>
    cases l with
    | blank => exact ih path
    | comment _ => exact ih path
    | table path' => exact ih path'
    | keyValue key' v' => exact List.mem_cons_of_mem _ (ih path)

theorem ofLines_reads {lines : List Line} (h : WellFormed lines) :
    (ofLines lines).Reads lines [] := by
  have hnodup := (List.nodup_append.mp h.nodup).2.1
  constructor
  · intro path hpath
    rw [ofLines_view, List.nil_append]
    exact decide_eq_true hpath
  · intro a ha
    rw [ofLines_view, List.nil_append]
    have hlookup := lookup_of_mem hnodup ha
    obtain ⟨path, v⟩ := a
    cases v <;> simp [TomlPlusPlus.ReadsValue, ofLines, hlookup]

theorem ofLines_conforms {lines : List Line} (h : WellFormed lines) :
    (ofLines lines).Conforms (render lines) := by
  constructor
  · intro lines' h' heq
    obtain rfl := of_render_eq h'.line h.line heq
    exact ⟨[], if_pos rfl, ofLines_reads h⟩
  · intro pre key rest n hpre hkey heq hparse
    obtain ⟨raw, lines', hlines, rfl, hplain⟩ := plain_of_render hpre h.line hkey heq
    have hself : (ofLines lines).parse (render lines) = some [] := if_pos rfl
    obtain rfl : [] = n := Option.some.inj (hself.symm.trans hparse)
    refine ⟨raw, .basic (10 :: render lines') (basic_of_plain hplain), ?_⟩
    have hmem := @mem_assignments pre lines' key (.string raw) []
    rw [← hlines] at hmem
    exact (ofLines_reads h).value _ hmem

end Toml

end BitBridge
