import BitBridge.Bench.Baseline

/-!
# What a baseline is scanned for

The scan of `CompareBaseline` knows nothing of the document, so it can take the
text of a member for the name of an algorithm.  It does not, where the binary,
the time and the algorithms have no quotes in them and the algorithm has the name
of nothing else in the document.

* `not_infix_field`: where a quoted name does not stand.
* `not_stray`: no needle behind it, unless it stands before.
* `scanHits_of_name`: **such an algorithm is read back from every document.**
-/

namespace BitBridge.Bench

open Search

def keys : List Bytes :=
  ["timestamp", "binary", "concurrency", "requests", "services", "results", "completed", "errors",
    "error_pct", "throughput_per_sec", "peak_connections", "bytes_received", "avg_ms", "min_ms",
    "p50_ms", "p95_ms", "p99_ms", "max_ms"].map ascii

/-- No quote, line end, blank, comma or colon is in it. -/
def IsPlain (name : Bytes) : Prop := ∀ c ∈ [34, 10, 32, 44, 58], c ∉ name

structure IsName (name : Bytes) : Prop where
  plain : IsPlain name
  fresh : name ∉ keys

variable {name key indent value line rest : Bytes}

theorem IsName.ne_of_mem (h : IsName name) (hkey : key ∈ keys) : key ≠ name :=
  fun he => h.fresh (he ▸ hkey)

theorem isPlain_of_all (h : ([34, 10, 32, 44, 58].all fun c => decide (c ∉ name)) = true) :
    IsPlain name :=
  fun c hc => of_decide_eq_true (List.all_eq_true.mp h c hc)

theorem quoted_eq (name : Bytes) : quoted name = 34 :: (name ++ [34]) := by
  rw [quoted, show ascii "\"" = [34] from rfl, List.singleton_append, List.cons_append]

theorem mem_quoted : (34 : UInt8) ∈ quoted name :=
  List.mem_append_right _ (List.mem_singleton_self _)

theorem IsPlain.not_mem_quoted (h : IsPlain name) {c : UInt8} (hc : c ∈ [10, 32, 44, 58]) :
    c ∉ quoted name := by
  have hne : (34 : UInt8) ∉ [10, 32, 44, 58] := by decide
  rw [quoted_eq, List.mem_cons, List.mem_append, List.mem_singleton]
  rintro (rfl | hm | rfl)
  · exact hne hc
  · exact h c (List.mem_cons_of_mem _ hc) hm
  · exact hne hc

/-! ### Where a quoted name does not stand -/

theorem not_infix_plain (h : (34 : UInt8) ∉ line) : ¬ quoted name <:+: line :=
  not_infix_of_mem mem_quoted h

theorem not_infix_quoted (hn : IsPlain name) (hkey : (34 : UInt8) ∉ key) (hne : key ≠ name) :
    ¬ quoted name <:+: quoted key := by
  rw [quoted_eq, quoted_eq]
  exact fun h => hne (eq_of_enclosed (hn 34 (by decide)) hkey h).symm

def field (indent key value : Bytes) : Bytes := indent ++ 32 :: (quoted key ++ 58 :: value)

/-- **A quoted name does not stand in a line** for something else. -/
theorem not_infix_field (hn : IsPlain name) (hindent : (34 : UInt8) ∉ indent)
    (hkey : (34 : UInt8) ∉ key) (hne : key ≠ name) (hvalue : ¬ quoted name <:+: value) :
    ¬ quoted name <:+: field indent key value := by
  intro h
  rcases infix_append_cons (hn.not_mem_quoted (c := 32) (by decide)) h with h | h
  · exact not_infix_plain hindent h
  · rcases infix_append_cons (hn.not_mem_quoted (c := 58) (by decide)) h with h | h
    · exact not_infix_quoted hn hkey hne h
    · exact hvalue h

theorem not_infix_println (hn : IsPlain name) (hline : ¬ quoted name <:+: line)
    (hrest : ¬ quoted name <:+: rest) : ¬ quoted name <:+: println line ++ rest := by
  intro h
  rw [println, List.append_assoc, List.singleton_append] at h
  exact (infix_append_cons (hn.not_mem_quoted (c := 10) (by decide)) h).elim hline hrest

theorem not_infix_text (hn : IsPlain name) {v : Bytes} (hv : (34 : UInt8) ∉ v) (hne : v ≠ name) :
    ¬ quoted name <:+: 32 :: (quoted v ++ [44]) := by
  intro h
  rcases infix_append_cons (s := []) (hn.not_mem_quoted (c := 32) (by decide)) h with h | h
  · exact not_infix_plain (by decide) h
  · rcases infix_append_cons (hn.not_mem_quoted (c := 44) (by decide)) h with h | h
    · exact not_infix_quoted hn hv hne h
    · exact not_infix_plain (by decide) h

theorem not_infix_number {v : Bytes} (hv : (34 : UInt8) ∉ v) :
    ¬ quoted name <:+: 32 :: (v ++ [44]) := by
  refine not_infix_plain fun h => ?_
  rcases List.mem_cons.mp h with heq | hm
  · exact absurd heq (by decide)
  · rcases List.mem_append.mp hm with hm | hm
    · exact hv hm
    · exact absurd hm (by decide)

theorem quote_not_mem_integer (v : Int) : (34 : UInt8) ∉ integer v := by
  intro h
  have hdigits : ∀ n, (34 : UInt8) ∉ decimal n := fun n hm => by
    have hge := (mem_decimal hm).1
    exact absurd hge (by decide)
  rw [integer] at h
  split at h
  · rcases List.mem_cons.mp h with heq | hm
    · exact absurd heq (by decide)
    · exact hdigits _ hm
  · exact hdigits _ h

theorem not_infix_integer (v : Int) : ¬ quoted name <:+: 32 :: (integer v ++ [44]) :=
  not_infix_number (quote_not_mem_integer v)

theorem quote_not_mem_key (hkey : key ∈ keys) : (34 : UInt8) ∉ key := by
  have hall : ∀ k ∈ keys, (34 : UInt8) ∉ k := by decide
  exact hall key hkey

theorem not_infix_line (hn : IsPlain name) (hindent : (34 : UInt8) ∉ indent) (hkey : key ∈ keys)
    (hne : key ≠ name) (hvalue : ¬ quoted name <:+: value) (hrest : ¬ quoted name <:+: rest) :
    ¬ quoted name <:+: println (field indent key value) ++ rest :=
  not_infix_println hn (not_infix_field hn hindent (quote_not_mem_key hkey) hne hvalue) hrest

theorem IsName.not_infix_line (hn : IsName name) (hindent : (34 : UInt8) ∉ indent)
    (hkey : key ∈ keys) (hvalue : ¬ quoted name <:+: value) (hrest : ¬ quoted name <:+: rest) :
    ¬ quoted name <:+: println (field indent key value) ++ rest :=
  Bench.not_infix_line hn.plain hindent hkey (hn.ne_of_mem hkey) hvalue hrest

/-! ### The lines of the document -/

theorem preamble_append (cfg : BenchConfig) (ts rest : Bytes) : preamble cfg ts ++ rest =
    println [123] ++
    (println (field [32] (ascii "timestamp") (32 :: (quoted ts ++ [44]))) ++
    (println (field [32] (ascii "binary") (32 :: (quoted cfg.lbBinary ++ [44]))) ++
    (println (field [32] (ascii "concurrency") (32 :: (integer cfg.concurrency.toInt ++ [44]))) ++
    (println (field [32] (ascii "requests") (32 :: (integer cfg.requests.toInt ++ [44]))) ++
    (println (field [32] (ascii "services") (32 :: (integer cfg.services.toInt ++ [44]))) ++
    (println (field [32] (ascii "results") [32, 123]) ++ rest)))))) := by
  have htimestamp : ascii "  \"timestamp\": \"" =
    [32] ++ 32 :: (quoted (ascii "timestamp") ++ [58, 32, 34]) := rfl
  have hbinary : ascii "  \"binary\": \"" =
    [32] ++ 32 :: (quoted (ascii "binary") ++ [58, 32, 34]) := rfl
  have hconcurrency : ascii "  \"concurrency\": " =
    [32] ++ 32 :: (quoted (ascii "concurrency") ++ [58, 32]) := rfl
  have hrequests : ascii "  \"requests\": " =
    [32] ++ 32 :: (quoted (ascii "requests") ++ [58, 32]) := rfl
  have hservices : ascii "  \"services\": " =
    [32] ++ 32 :: (quoted (ascii "services") ++ [58, 32]) := rfl
  have hresults : ascii "  \"results\": \x7b" =
    [32] ++ 32 :: (quoted (ascii "results") ++ [58, 32, 123]) := rfl
  have hbrace : ascii "\x7b" = [123] := rfl
  have hend : ascii "\"," = [34, 44] := rfl
  have hcomma : ascii "," = [44] := rfl
  simp [preamble, htimestamp, hbinary, hconcurrency, hrequests, hservices, hresults, hbrace, hend,
    hcomma, println, field, quoted_eq]

theorem not_infix_preamble (hn : IsName name) {cfg : BenchConfig} {ts : Bytes}
    (hts : (34 : UInt8) ∉ ts) (hnets : ts ≠ name) (hbin : (34 : UInt8) ∉ cfg.lbBinary)
    (hnebin : cfg.lbBinary ≠ name) (hrest : ¬ quoted name <:+: rest) :
    ¬ quoted name <:+: preamble cfg ts ++ rest := by
  have hindent : (34 : UInt8) ∉ [32] := by decide
  rw [preamble_append]
  refine not_infix_println hn.plain (not_infix_plain (by decide)) ?_
  refine hn.not_infix_line hindent (by decide) (not_infix_text hn.plain hts hnets) ?_
  refine hn.not_infix_line hindent (by decide) (not_infix_text hn.plain hbin hnebin) ?_
  refine hn.not_infix_line hindent (by decide) (not_infix_integer _) ?_
  refine hn.not_infix_line hindent (by decide) (not_infix_integer _) ?_
  refine hn.not_infix_line hindent (by decide) (not_infix_integer _) ?_
  exact hn.not_infix_line hindent (by decide) (not_infix_plain (by decide)) hrest

/-- The blanks before a member of an entry, but the last. -/
def inner : Bytes := [32, 32, 32, 32, 32]

section

variable {Double : Type} {F : Floating Double} {r : AlgoResult Double}

theorem entryHead_append (r : AlgoResult Double) (rest : Bytes) : entryHead r ++ rest =
    println (field [32, 32, 32] r.algo [32, 123]) ++
    (println (field inner (ascii "completed") (32 :: (integer r.completed.toInt ++ [44]))) ++
    (println (field inner (ascii "errors") (32 :: (integer r.errors.toInt ++ [44]))) ++
    (println (field inner (ascii "error_pct") (32 :: (integer (errPct r).toInt ++ [44]))) ++
      rest))) := by
  have halgo : ascii "    \"" = [32, 32, 32] ++ [32, 34] := rfl
  have hopen : ascii "\": \x7b" = [34, 58, 32, 123] := rfl
  have hcompleted : ascii "      \"completed\": " =
    inner ++ 32 :: (quoted (ascii "completed") ++ [58, 32]) := rfl
  have herrors : ascii "      \"errors\": " =
    inner ++ 32 :: (quoted (ascii "errors") ++ [58, 32]) := rfl
  have hpct : ascii "      \"error_pct\": " =
    inner ++ 32 :: (quoted (ascii "error_pct") ++ [58, 32]) := rfl
  have hcomma : ascii "," = [44] := rfl
  simp [entryHead, halgo, hopen, hcompleted, herrors, hpct, hcomma, println, field, quoted_eq]

theorem not_infix_entryHead (hn : IsPlain name) (halgo : (34 : UInt8) ∉ r.algo)
    (hne : r.algo ≠ name)
    (hkeys : ∀ key ∈ [ascii "completed", ascii "errors", ascii "error_pct"], key ≠ name)
    (hrest : ¬ quoted name <:+: rest) : ¬ quoted name <:+: entryHead r ++ rest := by
  rw [entryHead_append]
  refine not_infix_println hn
    (not_infix_field hn (by decide) halgo hne (not_infix_plain (by decide))) ?_
  refine not_infix_line hn (by decide) (by decide) (hkeys _ (by simp)) (not_infix_integer _) ?_
  refine not_infix_line hn (by decide) (by decide) (hkeys _ (by simp)) (not_infix_integer _) ?_
  exact not_infix_line hn (by decide) (by decide) (hkeys _ (by simp)) (not_infix_integer _) hrest

theorem entry_append (r : AlgoResult Double) (comma rest : Bytes) : entry F r comma ++ rest =
    entryHead r ++
    (println (field inner (ascii "throughput_per_sec")
      (32 :: (integer r.throughput.toInt ++ [44]))) ++
    (println (field inner (ascii "peak_connections")
      (32 :: (integer r.peakConnections.toInt ++ [44]))) ++
    (println (field inner (ascii "bytes_received")
      (32 :: (integer r.bytesReceived.toInt ++ [44]))) ++
    (println (field inner (ascii "avg_ms") (32 :: (F.fixed2 r.avgMs ++ [44]))) ++
    (println (field inner (ascii "min_ms") (32 :: (F.fixed2 r.minMs ++ [44]))) ++
    (println (field inner (ascii "p50_ms") (32 :: (F.fixed2 r.p50Ms ++ [44]))) ++
    (println (field inner (ascii "p95_ms") (32 :: (F.fixed2 r.p95Ms ++ [44]))) ++
    (println (field inner (ascii "p99_ms") (32 :: (F.fixed2 r.p99Ms ++ [44]))) ++
    (println (field inner (ascii "max_ms") (32 :: F.fixed2 r.maxMs)) ++
    (println (ascii "    \x7d" ++ comma) ++ rest)))))))))) := by
  have hthroughput : ascii "      \"throughput_per_sec\": " =
    inner ++ 32 :: (quoted (ascii "throughput_per_sec") ++ [58, 32]) := rfl
  have hpeak : ascii "      \"peak_connections\": " =
    inner ++ 32 :: (quoted (ascii "peak_connections") ++ [58, 32]) := rfl
  have hbytes : ascii "      \"bytes_received\": " =
    inner ++ 32 :: (quoted (ascii "bytes_received") ++ [58, 32]) := rfl
  have havg : ascii "      \"avg_ms\": " =
    inner ++ 32 :: (quoted (ascii "avg_ms") ++ [58, 32]) := rfl
  have hmin : ascii "      \"min_ms\": " =
    inner ++ 32 :: (quoted (ascii "min_ms") ++ [58, 32]) := rfl
  have hp50 : ascii "      \"p50_ms\": " =
    inner ++ 32 :: (quoted (ascii "p50_ms") ++ [58, 32]) := rfl
  have hp95 : ascii "      \"p95_ms\": " =
    inner ++ 32 :: (quoted (ascii "p95_ms") ++ [58, 32]) := rfl
  have hp99 : ascii "      \"p99_ms\": " =
    inner ++ 32 :: (quoted (ascii "p99_ms") ++ [58, 32]) := rfl
  have hmax : ascii "      \"max_ms\": " =
    inner ++ 32 :: (quoted (ascii "max_ms") ++ [58, 32]) := rfl
  have hcomma : ascii "," = [44] := rfl
  simp [entry, entryTail, hthroughput, hpeak, hbytes, havg, hmin, hp50, hp95, hp99, hmax, hcomma,
    println, field, quoted_eq]

theorem not_infix_entry (hn : IsName name) (halgo : (34 : UInt8) ∉ r.algo) (hne : r.algo ≠ name)
    (hfixed : ∀ d, (34 : UInt8) ∉ F.fixed2 d) {comma : Bytes} (hcomma : (34 : UInt8) ∉ comma)
    (hrest : ¬ quoted name <:+: rest) : ¬ quoted name <:+: entry F r comma ++ rest := by
  have hindent : (34 : UInt8) ∉ inner := by decide
  have htime : ∀ d, ¬ quoted name <:+: 32 :: (F.fixed2 d ++ [44]) :=
    fun d => not_infix_number (hfixed d)
  have hlast : ¬ quoted name <:+: 32 :: F.fixed2 r.maxMs := by
    refine not_infix_plain fun h => ?_
    rcases List.mem_cons.mp h with heq | hm
    · exact absurd heq (by decide)
    · exact hfixed _ hm
  have hclose : ¬ quoted name <:+: ascii "    \x7d" ++ comma := by
    refine not_infix_plain fun h => ?_
    rcases List.mem_append.mp h with hm | hm
    · exact absurd hm (by decide)
    · exact hcomma hm
  rw [entry_append]
  refine not_infix_entryHead hn.plain halgo hne ?_ ?_
  · have hsub : ∀ key ∈ [ascii "completed", ascii "errors", ascii "error_pct"], key ∈ keys := by
      decide
    exact fun key hkey => hn.ne_of_mem (hsub key hkey)
  refine hn.not_infix_line hindent (by decide) (not_infix_integer _) ?_
  refine hn.not_infix_line hindent (by decide) (not_infix_integer _) ?_
  refine hn.not_infix_line hindent (by decide) (not_infix_integer _) ?_
  refine hn.not_infix_line hindent (by decide) (htime _) ?_
  refine hn.not_infix_line hindent (by decide) (htime _) ?_
  refine hn.not_infix_line hindent (by decide) (htime _) ?_
  refine hn.not_infix_line hindent (by decide) (htime _) ?_
  refine hn.not_infix_line hindent (by decide) (htime _) ?_
  refine hn.not_infix_line hindent (by decide) hlast ?_
  exact not_infix_println hn.plain hclose hrest

/-- A document with nothing in quotes but its members and its algorithms. -/
structure IsClean (F : Floating Double) (cfg : BenchConfig) (ts : Bytes)
    (saved : List (AlgoResult Double)) : Prop where
  ts : (34 : UInt8) ∉ ts
  lbBinary : (34 : UInt8) ∉ cfg.lbBinary
  algo : ∀ r ∈ saved, (34 : UInt8) ∉ r.algo
  fixed2 : ∀ d, (34 : UInt8) ∉ F.fixed2 d

theorem quote_not_mem_commaBefore (rest : List (AlgoResult Double)) :
    (34 : UInt8) ∉ commaBefore rest := by
  rw [commaBefore]
  split <;> decide

theorem not_infix_entries (hn : IsName name) {saved : List (AlgoResult Double)}
    (halgo : ∀ r ∈ saved, (34 : UInt8) ∉ r.algo) (hne : ∀ r ∈ saved, r.algo ≠ name)
    (hfixed : ∀ d, (34 : UInt8) ∉ F.fixed2 d) (hrest : ¬ quoted name <:+: rest) :
    ¬ quoted name <:+: entries F saved ++ rest := by
  induction saved with
  | nil => exact hrest
  | cons r saved ih =>
    obtain ⟨hr, halgo⟩ := List.forall_mem_cons.mp halgo
    obtain ⟨hner, hne⟩ := List.forall_mem_cons.mp hne
    rw [entries, List.append_assoc]
    exact not_infix_entry hn hr hner hfixed (quote_not_mem_commaBefore saved) (ih halgo hne)

/-! ### The scan -/

theorem infix_of_stray {algo text : Bytes} (h : Stray algo text) : quoted algo <:+: text := by
  obtain ⟨t, hp, ht, -⟩ := h
  exact hp.isInfix.trans ht.isInfix

/-- A name that does not stand before a line and no needle behind the line's start. -/
theorem not_stray {algo x y : Bytes} (hn : IsPlain algo) (hx : ¬ quoted algo <:+: x)
    (hy : ¬ needle <:+: y) : ¬ Stray algo (x ++ 10 :: y) := by
  rintro ⟨t, hp, ⟨u, hu⟩, hneedle⟩
  have hnl : (10 : UInt8) ∉ quoted algo := hn.not_mem_quoted (by decide)
  rcases List.append_eq_append_iff.mp hu with ⟨w, rfl, rfl⟩ | ⟨w, rfl, hw⟩
  · exact hx ((prefix_append_cons hnl hp).isInfix.trans (List.suffix_append u w).isInfix)
  · cases w with
    | nil =>
      rw [List.nil_append] at hw
      rw [← hw] at hp
      have hnil : quoted algo <+: [] := prefix_append_cons (s := []) hnl hp
      rw [List.prefix_nil.mp hnil] at hx
      exact hx List.nil_infix
    | cons c w =>
      obtain ⟨-, rfl⟩ := List.cons.inj hw
      exact hy (hneedle.trans (List.suffix_append w t).isInfix)

theorem not_infix_needle {y : Bytes} (h : ¬ quoted (ascii "throughput_per_sec") <:+: y) :
    ¬ needle <:+: y := by
  have hneedle : needle = quoted (ascii "throughput_per_sec") ++ [58, 32] := rfl
  rw [hneedle]
  exact fun hi => h ((List.prefix_append _ _).isInfix.trans hi)

def EndsLine (text : Bytes) : Prop := ∃ x, text = x ++ [10]

theorem EndsLine.append {text : Bytes} (h : EndsLine text) (x : Bytes) : EndsLine (x ++ text) := by
  obtain ⟨y, rfl⟩ := h
  exact ⟨x ++ y, (List.append_assoc ..).symm⟩

theorem endsLine_entry (r : AlgoResult Double) (comma : Bytes) : EndsLine (entry F r comma) := by
  rw [entry, entryTail]
  exact (EndsLine.append ⟨_, rfl⟩ _).append _

/-- What stands before the needle of the entry of `algo`: whole entries of others,
and the head of its own. -/
theorem cases_own {algo : Bytes} (hn : IsName algo) {saved : List (AlgoResult Double)}
    (halgo : ∀ r ∈ saved, (34 : UInt8) ∉ r.algo) (hfixed : ∀ d, (34 : UInt8) ∉ F.fixed2 d)
    {head : Bytes} {v : Int32} (h : own F algo saved = some (head, v)) :
    ∃ before, ∃ r ∈ saved, r.algo = algo ∧ r.throughput = v ∧
      head = before ++ (entryHead r ++ ascii "      ") ∧
      (∀ x, EndsLine x → EndsLine (x ++ before)) ∧
      ∀ rest, ¬ quoted algo <:+: rest → ¬ quoted algo <:+: before ++ rest := by
  induction saved generalizing head with
  | nil => cases h
  | cons r saved ih =>
    obtain ⟨hr, halgo⟩ := List.forall_mem_cons.mp halgo
    rw [own] at h
    split at h
    · next heq =>
      cases h
      refine ⟨[], r, List.mem_cons_self, heq, rfl, rfl, fun x hx => ?_, fun rest hrest => hrest⟩
      rwa [List.append_nil]
    · next hne =>
      obtain ⟨⟨head', v'⟩, hown, heq⟩ := Option.map_eq_some_iff.mp h
      cases heq
      obtain ⟨before, r', hm, hname, hv, rfl, hends, hrest⟩ := ih halgo hown
      refine ⟨entry F r (commaBefore saved) ++ before, r', List.mem_cons_of_mem _ hm, hname, hv,
        ?_, fun x hx => ?_, fun rest hr' => ?_⟩
      · rw [List.append_assoc]
      · rw [← List.append_assoc]
        exact hends _ ((endsLine_entry r _).append x)
      · rw [List.append_assoc]
        exact not_infix_entry hn hr hne hfixed (quote_not_mem_commaBefore saved) (hrest rest hr')

/-- **A clean document is read back.**  The scan for an algorithm whose name is
neither the time nor the binary takes the throughput in its own entry, or none. -/
theorem scanHits_of_name {algo : Bytes} (hn : IsName algo) {cfg : BenchConfig} {ts : Bytes}
    {saved : List (AlgoResult Double)} (hclean : IsClean F cfg ts saved) (hts : ts ≠ algo)
    (hbin : cfg.lbBinary ≠ algo)
    (hthroughput : ∀ r ∈ saved, -1000000000 < r.throughput.toInt) :
    ScanHits F cfg ts saved algo := by
  have hpreamble : ∀ rest, ¬ quoted algo <:+: rest → ¬ quoted algo <:+: preamble cfg ts ++ rest :=
    fun rest hrest => not_infix_preamble hn hclean.ts hts hclean.lbBinary hbin hrest
  rw [ScanHits]
  cases hown : own F algo saved with
  | none =>
    have hstored : stored algo saved = none := by rw [← @own_map_snd _ _ F, hown, Option.map_none]
    have hne : ∀ r ∈ saved, r.algo ≠ algo := by
      intro r hr heq
      rw [stored, Option.map_eq_none_iff, List.find?_eq_none] at hstored
      exact hstored r hr (decide_eq_true heq)
    intro hstray
    refine (?_ : ¬ quoted algo <:+: saveBaseline F cfg ts saved) (infix_of_stray hstray)
    rw [saveBaseline, List.append_assoc, List.append_assoc]
    refine hpreamble _ (not_infix_entries hn hclean.algo hne hclean.fixed2 ?_)
    exact not_infix_println hn.plain (not_infix_plain (by decide)) (not_infix_plain (by decide))
  | some own =>
    obtain ⟨head, v⟩ := own
    obtain ⟨before, r, hr, hname, hv, rfl, hends, hrest⟩ :=
      cases_own hn hclean.algo hclean.fixed2 hown
    refine .inl ⟨?_, hv ▸ hthroughput r hr⟩
    have hclear := hpreamble _ (hrest _ (not_infix_plain (List.not_mem_nil)))
    rw [List.append_nil] at hclear
    have hpre : EndsLine (preamble cfg ts) := by
      rw [preamble]
      exact EndsLine.append ⟨_, rfl⟩ _
    obtain ⟨x, hx⟩ := hends _ hpre
    rw [← List.append_assoc, hx, List.append_assoc, List.singleton_append]
    refine not_stray hn.plain (fun h => hclear ?_) (not_infix_needle ?_)
    · rw [hx]
      exact h.trans (List.prefix_append x [10]).isInfix
    · have hplain : IsPlain (ascii "throughput_per_sec") := isPlain_of_all (by decide)
      refine not_infix_entryHead hplain (hclean.algo r hr) ?_ (by decide)
        (not_infix_plain (by decide))
      rw [hname]
      exact (hn.ne_of_mem (by decide)).symm

end

end BitBridge.Bench
