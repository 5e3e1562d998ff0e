import BitBridge.Bytes
import BitBridge.Lib.Search
import BitBridge.Lib.Stoi

/-!
# The saved baseline and its scan

`SaveBaseline` (`bench/main.cpp`) prints a JSON document, in which the binary
path and the names of the algorithms stand as they are.  `CompareBaseline` has
no parser: for an algorithm it takes the first `"algo"` of the text, from there
the first `"throughput_per_sec": `, and reads ten characters after it.

* `scan_eq_some_iff`: the scan finds the first field at a quoted name or behind it.
* `compareAlgo_iff`: what the comparison takes for one algorithm.
* `compareBaseline_reads_saved`: **the comparison reads back what was saved**
  exactly when no such field stands too early, or the first that does has the
  same number behind it (`ScanHits`).
* `binary_named_like_an_algorithm`: a binary path that is the name of the
  second algorithm gives it the throughput of the first.
-/

namespace BitBridge.Bench

open Search

/-- `BenchConfig`, as far as baselines are concerned. -/
structure BenchConfig where
  lbBinary : Bytes
  concurrency : Int32 := 50
  requests : Int32 := 1000
  services : Int32 := 5
  thresholdPct : Int32 := 15

structure AlgoResult (Double : Type) where
  algo : Bytes
  completed : Int32
  errors : Int32
  throughput : Int32
  peakConnections : Int32
  bytesReceived : Int64
  avgMs : Double
  minMs : Double
  p50Ms : Double
  p95Ms : Double
  p99Ms : Double
  maxMs : Double

/-- What is done in `double`: the format `{:.2f}`, and whether the drop from a
positive baseline is above the threshold. -/
structure Floating (Double : Type) where
  fixed2 : Double → Bytes
  exceeds : (throughput : Int32) → (baseline : Int) → (thresholdPct : Int32) → Bool

/-! ### Saving -/

def integer (v : Int) : Bytes := if v < 0 then 45 :: decimal v.natAbs else decimal v.natAbs

def println (line : Bytes) : Bytes := line ++ [10]

section

variable {Double : Type} (F : Floating Double)

/-- The document up to the results; `ts` is the time. -/
def preamble (cfg : BenchConfig) (ts : Bytes) : Bytes :=
  println (ascii "\x7b") ++
  println (ascii "  \"timestamp\": \"" ++ ts ++ ascii "\",") ++
  println (ascii "  \"binary\": \"" ++ cfg.lbBinary ++ ascii "\",") ++
  println (ascii "  \"concurrency\": " ++ integer cfg.concurrency.toInt ++ ascii ",") ++
  println (ascii "  \"requests\": " ++ integer cfg.requests.toInt ++ ascii ",") ++
  println (ascii "  \"services\": " ++ integer cfg.services.toInt ++ ascii ",") ++
  println (ascii "  \"results\": \x7b")

def errPct (r : AlgoResult Double) : Int32 :=
  let total := r.completed + r.errors
  if 0 < total then r.errors * 100 / total else 0

def entryHead (r : AlgoResult Double) : Bytes :=
  println (ascii "    \"" ++ r.algo ++ ascii "\": \x7b") ++
  println (ascii "      \"completed\": " ++ integer r.completed.toInt ++ ascii ",") ++
  println (ascii "      \"errors\": " ++ integer r.errors.toInt ++ ascii ",") ++
  println (ascii "      \"error_pct\": " ++ integer (errPct r).toInt ++ ascii ",")

def entryTail (r : AlgoResult Double) (comma : Bytes) : Bytes :=
  println (ascii "      \"peak_connections\": " ++ integer r.peakConnections.toInt ++ ascii ",") ++
  println (ascii "      \"bytes_received\": " ++ integer r.bytesReceived.toInt ++ ascii ",") ++
  println (ascii "      \"avg_ms\": " ++ F.fixed2 r.avgMs ++ ascii ",") ++
  println (ascii "      \"min_ms\": " ++ F.fixed2 r.minMs ++ ascii ",") ++
  println (ascii "      \"p50_ms\": " ++ F.fixed2 r.p50Ms ++ ascii ",") ++
  println (ascii "      \"p95_ms\": " ++ F.fixed2 r.p95Ms ++ ascii ",") ++
  println (ascii "      \"p99_ms\": " ++ F.fixed2 r.p99Ms ++ ascii ",") ++
  println (ascii "      \"max_ms\": " ++ F.fixed2 r.maxMs) ++
  println (ascii "    \x7d" ++ comma)

def entry (r : AlgoResult Double) (comma : Bytes) : Bytes :=
  entryHead r ++
  println (ascii "      \"throughput_per_sec\": " ++ integer r.throughput.toInt ++ ascii ",") ++
  entryTail F r comma

/-- Every entry but the last is followed by a comma. -/
def commaBefore (rest : List (AlgoResult Double)) : Bytes :=
  if rest.isEmpty then [] else ascii ","

def entries : List (AlgoResult Double) → Bytes
  | [] => []
  | r :: rest => entry F r (commaBefore rest) ++ entries rest

def saveBaseline (cfg : BenchConfig) (ts : Bytes) (results : List (AlgoResult Double)) : Bytes :=
  preamble cfg ts ++ entries F results ++ println (ascii "  \x7d") ++ println (ascii "\x7d")

/-! ### Comparing -/

def quoted (algo : Bytes) : Bytes := ascii "\"" ++ algo ++ ascii "\""

def needle : Bytes := ascii "\"throughput_per_sec\": "

/-- What a turn of the loop in `CompareBaseline` does; `compared` holds the
baseline throughput and whether there is a regression. -/
inductive Outcome
  | notInBaseline
  | noThroughput
  | compared (baseline : Int) (regression : Bool)
  deriving DecidableEq

/-- The throughput that was compared with, when there was a comparison. -/
def Outcome.baseline : Outcome → Option Int
  | .compared baseline _ => some baseline
  | _ => none

def Outcome.isRegression : Outcome → Bool
  | .compared _ regression => regression
  | _ => false

def compareAlgo (cfg : BenchConfig) (content : Bytes) (r : AlgoResult Double) :
    Except Stoi.Error Outcome :=
  match search (quoted r.algo) content with
  | none => .ok .notInBaseline
  | some fromPos =>
    match search needle fromPos with
    | none => .ok .noThroughput
    | some fromTpos =>
      match Stoi.stoi ((fromTpos.drop needle.length).take 10) with
      | .error e => .error e
      | .ok baseline =>
        let regression :=
          if 0 < baseline then F.exceeds r.throughput baseline cfg.thresholdPct
          else decide (cfg.thresholdPct < 0)
        .ok (.compared baseline regression)

/-- `CompareBaseline`: `allPassed`, with what was done for each algorithm; an
exception of `std::stoi` is not caught. -/
def compareBaseline (cfg : BenchConfig) (file : Option Bytes) (current : List (AlgoResult Double)) :
    Except Stoi.Error (Bool × List Outcome) :=
  match file with
  | none => .ok (true, [])
  | some content =>
    match current.mapM (compareAlgo F cfg content) with
    | .error e => .error e
    | .ok outcomes => .ok (outcomes.all fun o => !o.isRegression, outcomes)

end

/-! ### The number after the needle -/

theorem head_take_comma {rest : Bytes} {k : Nat} :
    ∀ c ∈ ((44 :: rest).take k).head?, Stoi.isDigit c = false := by
  intro c hc
  cases k with
  | zero => cases hc
  | succ k =>
    cases hc
    decide

/-- A negative number of eleven characters loses its last digit. -/
theorem stoi_cut {n : Nat} (h : 1000000000 ≤ n) (rest : Bytes) :
    Stoi.stoi (45 :: (decimal n ++ 44 :: rest).take 9) ≠ .ok (-(n : Int)) := by
  have hlen : 9 < (decimal n).length := by
    have := @length_decimal_le n 9 (by decide)
    omega
  have htake : (decimal n ++ 44 :: rest).take 9 = (decimal n).take 9 ++ [] := by
    rw [List.take_append_of_le_length (Nat.le_of_lt hlen), List.append_nil]
  have hd : ∀ c ∈ (decimal n).take 9, Stoi.isDigit c = true :=
    fun c hc => isDigit_of_mem_decimal (List.mem_of_mem_take hc)
  have hshort : ((decimal n).take 9).length = 9 := by
    rw [List.length_take]
    omega
  have hlt := Stoi.value_lt hd
  rw [hshort] at hlt
  have hne : (decimal n).take 9 ≠ [] := by
    intro h
    rw [h] at hshort
    cases hshort
  rw [htake, Stoi.stoi_minus hne hd (by simp) (by omega)]
  intro heq
  injection heq with heq
  omega

/-- **Ten characters hold every `int` above -1000000000**, and no other. -/
theorem stoi_integer (v : Int32) (rest : Bytes) :
    Stoi.stoi ((integer v.toInt ++ 44 :: rest).take 10) = .ok v.toInt ↔
      -1000000000 < v.toInt := by
  have hmin := v.le_toInt
  have hmax := v.toInt_lt
  rcases Int.lt_or_le v.toInt 0 with hneg | hpos
  · obtain ⟨n, hn⟩ : ∃ n : Nat, v.toInt = -(n : Int) := ⟨v.toInt.natAbs, by omega⟩
    rw [integer, if_pos hneg, List.cons_append, List.take_succ_cons, hn, Int.natAbs_neg,
      Int.natAbs_natCast]
    rcases Nat.lt_or_ge n 1000000000 with hlt | hge
    · refine ⟨fun _ => by omega, fun _ => ?_⟩
      have hlen : (decimal n).length ≤ 9 := (length_decimal_le (by decide)).mpr (by omega)
      rw [List.take_append, List.take_of_length_le hlen,
        Stoi.stoi_minus (decimal_ne_nil n) (fun c hc => isDigit_of_mem_decimal hc)
          head_take_comma (by rw [value_decimal]; omega), value_decimal]
    · exact ⟨fun h => absurd h (stoi_cut hge rest), fun h => by omega⟩
  · obtain ⟨n, hn⟩ : ∃ n : Nat, v.toInt = (n : Int) := ⟨v.toInt.natAbs, by omega⟩
    refine ⟨fun _ => by omega, fun _ => ?_⟩
    have hlen : (decimal n).length ≤ 10 := (length_decimal_le (by decide)).mpr (by omega)
    rw [integer, if_neg (by omega), hn, Int.natAbs_natCast, List.take_append,
      List.take_of_length_le hlen,
      Stoi.stoi_append (decimal_ne_nil n) (fun c hc => isDigit_of_mem_decimal hc)
        head_take_comma (by rw [value_decimal]; omega), value_decimal]

/-! ### The scan -/

/-- The text from the needle on that the scan for `algo` finds. -/
def scan (algo text : Bytes) : Option Bytes := (search (quoted algo) text).bind (search needle)

/-- A needle stands at a quoted `algo` or behind it. -/
def Stray (algo text : Bytes) : Prop := ∃ t, quoted algo <+: t ∧ t <:+ text ∧ needle <:+: t

/-- The first needle at a quoted `algo` or behind it is followed by `y`. -/
structure FirstStray (algo text y : Bytes) : Prop where
  stands : ∃ t, quoted algo <+: t ∧ t <:+ text ∧ needle ++ y <:+ t
  first : ∀ t z, quoted algo <+: t → t <:+ text → needle ++ z <:+ t → z.length ≤ y.length

theorem needle_borderless : Borderless needle := by decide

variable {algo text : Bytes}

theorem stray_iff : Stray algo text ↔ ∃ u, scan algo text = some u := by
  constructor
  · rintro ⟨t, hp, ht, hn⟩
    obtain ⟨t', ht'⟩ := exists_search (hp.isInfix.trans ht.isInfix)
    obtain ⟨u, hu⟩ := exists_search (hn.trans (suffix_of_search ht' hp ht).isInfix)
    exact ⟨u, by rw [scan, ht', Option.bind_some, hu]⟩
  · rintro ⟨u, hu⟩
    obtain ⟨t, ht, hn⟩ := Option.bind_eq_some_iff.mp hu
    obtain ⟨hnu, hut⟩ := of_search hn
    exact ⟨t, (of_search ht).1, (of_search ht).2, hnu.isInfix.trans hut.isInfix⟩

theorem scan_eq_none_iff : scan algo text = none ↔ ¬ Stray algo text := by
  rw [stray_iff, Option.eq_none_iff_forall_ne_some, not_exists]

theorem FirstStray.stray {y : Bytes} (h : FirstStray algo text y) : Stray algo text := by
  obtain ⟨t, hp, ht, hy⟩ := h.stands
  exact ⟨t, hp, ht, (List.prefix_append needle y).isInfix.trans hy.isInfix⟩

/-- Every other needle behind a quoted `algo` is behind the one that is found. -/
theorem firstStray_of_scan {y : Bytes} (h : scan algo text = some (needle ++ y)) :
    FirstStray algo text y := by
  obtain ⟨t, ht, hn⟩ := Option.bind_eq_some_iff.mp h
  refine ⟨⟨t, (of_search ht).1, (of_search ht).2, (of_search hn).2⟩, fun t' z hp ht' hz => ?_⟩
  have hbehind : needle ++ z <:+ needle ++ y :=
    suffix_of_search hn (List.prefix_append _ _) (hz.trans (suffix_of_search ht hp ht'))
  have hle := hbehind.length_le
  rw [List.length_append, List.length_append] at hle
  omega

/-- **What the scan finds** is the first needle. -/
theorem scan_eq_some_iff {y : Bytes} :
    scan algo text = some (needle ++ y) ↔ FirstStray algo text y := by
  refine ⟨firstStray_of_scan, fun h => ?_⟩
  obtain ⟨u, hu⟩ := stray_iff.mp h.stray
  obtain ⟨t, ht, hn⟩ := Option.bind_eq_some_iff.mp hu
  obtain ⟨z, rfl⟩ := (of_search hn).1
  obtain ⟨t', hp, ht', hy⟩ := h.stands
  -- two needles of the text that are each the first
  have hzy : z.length ≤ y.length :=
    h.first t z (of_search ht).1 (of_search ht).2 (of_search hn).2
  have hyz : y.length ≤ z.length := (firstStray_of_scan hu).first t' y hp ht' hy
  have hsame : needle ++ z <:+ needle ++ y := by
    refine List.suffix_of_suffix_length_le ((of_search hn).2.trans (of_search ht).2)
      (hy.trans ht') ?_
    rw [List.length_append, List.length_append]
    omega
  rw [hu, hsame.eq_of_length (by rw [List.length_append, List.length_append]; omega)]

theorem scan_append {u : Bytes} (h : scan algo text = some u) (rest : Bytes) :
    scan algo (text ++ rest) = some (u ++ rest) := by
  obtain ⟨t, ht, hn⟩ := Option.bind_eq_some_iff.mp h
  rw [scan, search_append ht, Option.bind_some, search_append hn]

/-- **Without a stray needle the scan finds the next one.** -/
theorem scan_needle (hq : quoted algo <:+: text) (hn : ¬ Stray algo text) (rest : Bytes) :
    scan algo (text ++ (needle ++ rest)) = some (needle ++ rest) := by
  obtain ⟨t, ht⟩ := exists_search hq
  have hnt : ¬ needle <:+: t := fun h => hn ⟨t, (of_search ht).1, (of_search ht).2, h⟩
  rw [scan, search_append ht, Option.bind_some, search_between needle_borderless hnt]

section

variable {Double : Type} {F : Floating Double}

def Takes (F : Floating Double) (cfg : BenchConfig) (content : Bytes) (r : AlgoResult Double)
    (b : Option Int) : Prop :=
  ∃ o, compareAlgo F cfg content r = .ok o ∧ o.baseline = b

variable {cfg : BenchConfig} {content : Bytes} {r : AlgoResult Double}

theorem takes_of_scan_none (h : scan r.algo content = none) {b : Option Int} :
    Takes F cfg content r b ↔ b = none := by
  rw [Takes, compareAlgo]
  cases hs : search (quoted r.algo) content with
  | none => simp [Outcome.baseline, eq_comm]
  | some t =>
    rw [scan, hs, Option.bind_some] at h
    simp [h, Outcome.baseline, eq_comm]

theorem takes_of_scan {u : Bytes} (h : scan r.algo content = some u) {b : Option Int} :
    Takes F cfg content r b ↔
      ∃ v, Stoi.stoi ((u.drop needle.length).take 10) = .ok v ∧ b = some v := by
  obtain ⟨t, ht, hn⟩ := Option.bind_eq_some_iff.mp h
  rw [Takes, compareAlgo, ht]
  simp only [hn]
  cases hv : Stoi.stoi ((u.drop needle.length).take 10) with
  | error e => simp
  | ok v => simp [Outcome.baseline, eq_comm]

/-! ### An algorithm's own entry -/

/-- The throughput in the entry of `algo`. -/
def stored (algo : Bytes) (saved : List (AlgoResult Double)) : Option Int :=
  (saved.find? fun r => r.algo = algo).map fun r => r.throughput.toInt

/-- The text of the entries before the needle in the entry of `algo`, and the
throughput after it. -/
def own (F : Floating Double) (algo : Bytes) : List (AlgoResult Double) → Option (Bytes × Int32)
  | [] => none
  | r :: rest =>
    if r.algo = algo then some (entryHead r ++ ascii "      ", r.throughput)
    else (own F algo rest).map fun (head, v) => (entry F r (commaBefore rest) ++ head, v)

theorem own_map_snd {saved : List (AlgoResult Double)} :
    (own F algo saved).map (·.2.toInt) = stored algo saved := by
  induction saved with
  | nil => rfl
  | cons r rest ih =>
    rw [own]
    split
    · next hr => simp [stored, hr]
    · next hr =>
      rw [Option.map_map]
      refine Eq.trans ?_ (ih.trans (by simp [stored, hr]))
      rfl

theorem quoted_infix_entryHead (r : AlgoResult Double) : quoted r.algo <:+: entryHead r := by
  have hline : ascii "    \"" ++ r.algo ++ ascii "\": \x7b" =
      ascii "    " ++ quoted r.algo ++ ascii ": \x7b" := by
    rw [quoted, show ascii "    \"" = ascii "    " ++ ascii "\"" from rfl,
      show ascii "\": \x7b" = ascii "\"" ++ ascii ": \x7b" from rfl]
    simp only [List.append_assoc]
  rw [entryHead, println, hline]
  simp only [List.append_assoc]
  exact (List.prefix_append _ _).isInfix.trans (List.suffix_append _ _).isInfix

theorem entry_eq (r : AlgoResult Double) (comma : Bytes) : entry F r comma =
    entryHead r ++ ascii "      " ++
      (needle ++ (integer r.throughput.toInt ++ 44 :: 10 :: entryTail F r comma)) := by
  rw [entry, println,
    show ascii "      \"throughput_per_sec\": " = ascii "      " ++ needle from rfl,
    show ascii "," = [44] from rfl]
  simp only [List.append_assoc, List.cons_append, List.nil_append]

/-- The entry of `algo` has its name before the needle, and its throughput after it. -/
theorem of_own {saved : List (AlgoResult Double)} {head : Bytes} {v : Int32}
    (h : own F algo saved = some (head, v)) :
    quoted algo <:+: head ∧
      ∃ rest, entries F saved = head ++ (needle ++ (integer v.toInt ++ 44 :: rest)) := by
  induction saved generalizing head with
  | nil => cases h
  | cons r saved ih =>
    rw [own] at h
    split at h
    · next hr =>
      cases h
      rw [← hr, entries, entry_eq]
      refine ⟨(quoted_infix_entryHead r).trans (List.prefix_append _ _).isInfix, ?_⟩
      exact ⟨10 :: entryTail F r (commaBefore saved) ++ entries F saved, by simp⟩
    · obtain ⟨⟨head', v'⟩, hown, heq⟩ := Option.map_eq_some_iff.mp h
      cases heq
      obtain ⟨hq, rest, hrest⟩ := ih hown
      refine ⟨hq.trans (List.suffix_append _ _).isInfix, rest, ?_⟩
      rw [entries, hrest, List.append_assoc]

/-- The scan for `algo` takes the right number.  With an entry, no needle stands
too early and the throughput has at most ten characters, or behind the first one
that does its number is spelled as well; without an entry, there is no needle. -/
def ScanHits (F : Floating Double) (cfg : BenchConfig) (ts : Bytes)
    (saved : List (AlgoResult Double)) (algo : Bytes) : Prop :=
  match own F algo saved with
  | none => ¬ Stray algo (saveBaseline F cfg ts saved)
  | some (head, v) =>
    ¬ Stray algo (preamble cfg ts ++ head) ∧ -1000000000 < v.toInt ∨
      ∃ y, FirstStray algo (preamble cfg ts ++ head) y ∧ Stoi.Spells v.toInt (y.take 10)

/-- The number behind a stray needle ends before the own one, which begins with
a quote. -/
theorem stoi_stray (y rest : Bytes) :
    Stoi.stoi ((y ++ (needle ++ rest)).take 10) = Stoi.stoi (y.take 10) := by
  obtain ⟨tail, htail⟩ : ∃ tail, needle ++ rest = 34 :: tail := ⟨_, rfl⟩
  rw [htail]
  rcases Nat.lt_or_ge y.length 10 with hlt | hge
  · obtain ⟨k, hk⟩ : ∃ k, 10 - y.length = k + 1 := ⟨9 - y.length, by omega⟩
    rw [List.take_append, List.take_of_length_le (Nat.le_of_lt hlt), hk, List.take_succ_cons]
    exact Stoi.stoi_append_cons (by decide) (by decide) (by decide) (by decide) _ _
  · rw [List.take_append_of_le_length hge]

/-- **One algorithm of the comparison.** -/
theorem compareAlgo_iff {cfg' : BenchConfig} {ts : Bytes} {saved : List (AlgoResult Double)} :
    Takes F cfg' (saveBaseline F cfg ts saved) r (stored r.algo saved) ↔
      ScanHits F cfg ts saved r.algo := by
  rw [ScanHits, ← @own_map_snd _ _ F]
  cases hown : own F r.algo saved with
  | none =>
    rw [Option.map_none]
    cases hscan : scan r.algo (saveBaseline F cfg ts saved) with
    | none =>
      rw [takes_of_scan_none hscan]
      simp [scan_eq_none_iff.mp hscan]
    | some u =>
      rw [takes_of_scan hscan]
      simp [stray_iff, hscan]
  | some own =>
    obtain ⟨head, v⟩ := own
    obtain ⟨hq, rest, hrest⟩ := of_own hown
    rw [Option.map_some]
    have hdoc : ∃ rest', saveBaseline F cfg ts saved =
        preamble cfg ts ++ head ++ (needle ++ (integer v.toInt ++ 44 :: rest')) := by
      refine ⟨rest ++ println (ascii "  \x7d") ++ println (ascii "\x7d"), ?_⟩
      rw [saveBaseline, hrest]
      simp only [List.append_assoc, List.cons_append]
    obtain ⟨rest', hdoc⟩ := hdoc
    by_cases hstray : Stray r.algo (preamble cfg ts ++ head)
    · obtain ⟨u, hu⟩ := stray_iff.mp hstray
      obtain ⟨t, -, hn⟩ := Option.bind_eq_some_iff.mp hu
      obtain ⟨y, rfl⟩ := (of_search hn).1
      have hscan := scan_append hu (needle ++ (integer v.toInt ++ 44 :: rest'))
      rw [← hdoc, List.append_assoc] at hscan
      have hspells : Stoi.stoi (y.take 10) = .ok v.toInt ↔ Stoi.Spells v.toInt (y.take 10) := by
        have hmin := v.le_toInt
        have hmax := v.toInt_lt
        rw [Stoi.stoi_eq_ok_iff]
        exact and_iff_left ⟨by omega, by omega⟩
      have honly : ∀ z, FirstStray r.algo (preamble cfg ts ++ head) z ↔ z = y := by
        intro z
        rw [← scan_eq_some_iff, hu, Option.some_inj, List.append_cancel_left_eq, eq_comm]
      rw [takes_of_scan hscan, List.drop_left, stoi_stray]
      simp [hstray, honly, ← hspells]
    · have hnone : ∀ z, ¬ FirstStray r.algo (preamble cfg ts ++ head) z :=
        fun z hz => hstray hz.stray
      have hscan := scan_needle (hq.trans (List.suffix_append (preamble cfg ts) head).isInfix)
        hstray (integer v.toInt ++ 44 :: rest')
      rw [← hdoc] at hscan
      rw [takes_of_scan hscan, List.drop_left]
      simp [hstray, hnone, ← stoi_integer v rest']

/-! ### The whole comparison -/

theorem mapM_ok_iff {α β γ : Type} {ε : Type} (f : α → Except ε β) (b : β → γ) (g : α → γ)
    (l : List α) : (∃ out, l.mapM f = .ok out ∧ out.map b = l.map g) ↔
      ∀ x ∈ l, ∃ o, f x = .ok o ∧ b o = g x := by
  induction l with
  | nil => simp [pure, Except.pure]
  | cons x l ih =>
    rw [List.forall_mem_cons, ← ih]
    cases hx : f x with
    | error e => simp [hx, bind, Except.bind]
    | ok o =>
      cases hl : l.mapM f with
      | error e => simp [hx, hl, bind, Except.bind]
      | ok out => simp [hx, hl, bind, Except.bind, pure, Except.pure]

/-- The comparison throws nothing, and every algorithm is compared with the
throughput in its own entry, or skipped when it has none. -/
def ReadsBack (F : Floating Double) (cfg cfg' : BenchConfig) (ts : Bytes)
    (saved current : List (AlgoResult Double)) : Prop :=
  ∃ passed outcomes,
    compareBaseline F cfg' (some (saveBaseline F cfg ts saved)) current = .ok (passed, outcomes) ∧
      outcomes.map Outcome.baseline = current.map fun r => stored r.algo saved

theorem compareBaseline_reads_saved (F : Floating Double) (cfg cfg' : BenchConfig) (ts : Bytes)
    (saved current : List (AlgoResult Double)) :
    ReadsBack F cfg cfg' ts saved current ↔
      ∀ r ∈ current, ScanHits F cfg ts saved r.algo := by
  have hall : (∀ r ∈ current, ScanHits F cfg ts saved r.algo) ↔
      ∀ r ∈ current, Takes F cfg' (saveBaseline F cfg ts saved) r (stored r.algo saved) :=
    forall₂_congr fun r _ => compareAlgo_iff.symm
  refine Iff.trans ?_ ((mapM_ok_iff (compareAlgo F cfg' (saveBaseline F cfg ts saved))
    Outcome.baseline (fun r => stored r.algo saved) current).trans hall.symm)
  rw [ReadsBack, compareBaseline]
  cases current.mapM (compareAlgo F cfg' (saveBaseline F cfg ts saved)) with
  | error e => simp
  | ok outcomes => simp

end

def resultOf (algo : Bytes) (throughput : Int32) : AlgoResult Unit :=
  ⟨algo, 1000, 0, throughput, 50, 1000, (), (), (), (), (), ()⟩

def exactly : Floating Unit where
  fixed2 _ := ascii "0.00"
  exceeds throughput baseline thresholdPct :=
    thresholdPct.toInt * baseline < (baseline - throughput.toInt) * 100

/-- **A binary named like the second algorithm**: its first match is the line of
the binary, and the throughput behind it is that of the first algorithm, which
makes a regression of results that are equal. -/
theorem binary_named_like_an_algorithm :
    ¬ ∀ (cfg : BenchConfig) (ts : Bytes) (saved current : List (AlgoResult Unit)),
      (saved.map (·.algo)).Nodup → ReadsBack exactly cfg cfg ts saved current := by
  intro h
  have hdistinct : ([resultOf (ascii "p2c") 9000,
      resultOf (ascii "consistent-hash") 4000].map (·.algo)).Nodup := by decide
  obtain ⟨passed, outcomes, hrun, hmap⟩ := h { lbBinary := ascii "consistent-hash" }
    (ascii "20260101_000000") _ [resultOf (ascii "p2c") 9000,
      resultOf (ascii "consistent-hash") 4000] hdistinct
  have hscan : compareBaseline exactly { lbBinary := ascii "consistent-hash" }
      (some (saveBaseline exactly { lbBinary := ascii "consistent-hash" }
        (ascii "20260101_000000")
        [resultOf (ascii "p2c") 9000, resultOf (ascii "consistent-hash") 4000]))
      [resultOf (ascii "p2c") 9000, resultOf (ascii "consistent-hash") 4000] =
        .ok (false, [.compared 9000 false, .compared 9000 true]) := by decide +kernel
  rw [hscan] at hrun
  cases hrun
  revert hmap
  decide

end BitBridge.Bench
