import BitBridge.Bench.Accounting
import BitBridge.Bench.Baseline
import BitBridge.Lib.Ranks
import Mathlib.Algebra.Ring.Int.Defs

/-!
# The report of a load

`ComputeStats` (`bench/main.cpp`) counts the results of a load and sorts the
times of those that are not errors.  The times are any linear order here, and
what is computed in `double` is a parameter.

* `computeStats_perm`: **the report does not depend on the order** in which the
  connections ended.
* `Load.received_of_reaches`: what was received is what the completed connections
  received.
* `report_of_load`: **the report of every load that has ended.**
-/

namespace BitBridge.Bench

open Proactor Steps Ranks

structure Arithmetic (Double : Type) where
  zero : Double
  isPositive : Double → Bool
  /-- `static_cast<int>(completed * 1000.0 / totalWallMs)`. -/
  perSecond : Int32 → Double → Int32
  /-- The mean, summed up from left to right. -/
  average : List Double → Double

/-- `LoadResult`; a result stands beside its time. -/
structure LoadResult (Double : Type) where
  conns : List (ConnResult × Double)
  peakConnections : Int32
  bytesReceived : Int64

structure Tally (Double : Type) where
  completed : Int32
  errors : Int32
  latencies : List Double

section

variable {Double : Type}

def Tally.add (t : Tally Double) (c : ConnResult × Double) : Tally Double :=
  if c.1.ok then { t with completed := t.completed + 1, latencies := t.latencies ++ [c.2] }
  else { t with errors := t.errors + 1 }

def tally (conns : List (ConnResult × Double)) : Tally Double := conns.foldl Tally.add ⟨0, 0, []⟩

variable [LinearOrder Double]

/-- `ComputeStats`; `none` is an exception of `at()`. -/
def computeStats (A : Arithmetic Double) (algo : Bytes) (load : LoadResult Double)
    (totalWallMs : Double) : Option (AlgoResult Double) := do
  let t := tally load.conns
  let r : AlgoResult Double :=
    { algo := algo
      completed := t.completed
      errors := t.errors
      throughput := if A.isPositive totalWallMs then A.perSecond t.completed totalWallMs else 0
      peakConnections := load.peakConnections
      bytesReceived := load.bytesReceived
      avgMs := A.zero
      minMs := A.zero
      p50Ms := A.zero
      p95Ms := A.zero
      p99Ms := A.zero
      maxMs := A.zero }
  if t.latencies = [] then return r
  let latencies := t.latencies.insertionSort (· ≤ ·)
  let n := latencies.length
  return { r with
    minMs := ← latencies.head?
    maxMs := ← latencies.getLast?
    avgMs := A.average latencies
    p50Ms := ← latencies[n * 50 / 100]?
    p95Ms := ← latencies[n * 95 / 100]?
    p99Ms := ← latencies[n * 99 / 100]? }

end

def Load.result {Double : Type} (s : Load) (times : List Double) : LoadResult Double where
  conns := s.results.zip times
  peakConnections := Int32.ofInt s.peakInflight
  bytesReceived := Int64.ofInt s.bytesReceived

/-! ### The tally -/

section

variable {Double : Type} {conns conns' : List (ConnResult × Double)}

/-- The times of the completed connections. -/
def latencies (conns : List (ConnResult × Double)) : List Double :=
  (conns.filter fun c => c.1.ok).map Prod.snd

theorem length_latencies (conns : List (ConnResult × Double)) :
    (latencies conns).length = conns.countP fun c => c.1.ok := by
  rw [latencies, List.length_map, List.countP_eq_length_filter]

/-- **What the loop counts.** -/
theorem tally_eq (conns : List (ConnResult × Double)) :
    tally conns = ⟨Int32.ofNat (conns.countP fun c => c.1.ok),
      Int32.ofNat (conns.countP fun c => !c.1.ok), latencies conns⟩ := by
  induction conns using List.reverseRecOn with
  | nil => rfl
  | append_singleton conns c ih =>
    rw [tally, List.foldl_concat, ← tally, ih, Tally.add, List.countP_append, List.countP_append,
      Int32.ofNat_add, Int32.ofNat_add]
    cases hok : c.1.ok with
    | true => simp [latencies, hok]
    | false => simp [latencies, hok]

variable [LinearOrder Double]

/-- **The report does not depend on the order** in which the connections ended. -/
theorem computeStats_perm (A : Arithmetic Double) (algo : Bytes) {load load' : LoadResult Double}
    (wall : Double) (h : load.conns.Perm load'.conns)
    (hp : load.peakConnections = load'.peakConnections)
    (hb : load.bytesReceived = load'.bytesReceived) :
    computeStats A algo load wall = computeStats A algo load' wall := by
  have hlat : (latencies load.conns).Perm (latencies load'.conns) := (h.filter _).map _
  have hsort : (latencies load.conns).insertionSort (· ≤ ·) =
      (latencies load'.conns).insertionSort (· ≤ ·) := by
    have hboth := ((List.perm_insertionSort (· ≤ ·) _).trans hlat).trans
      (List.perm_insertionSort (· ≤ ·) _).symm
    exact hboth.eq_of_pairwise' (List.pairwise_insertionSort _ _)
      (List.pairwise_insertionSort _ _)
  have hnil : latencies load.conns = [] ↔ latencies load'.conns = [] := by
    rw [← List.length_eq_zero_iff, ← List.length_eq_zero_iff, hlat.length_eq]
  simp only [computeStats, tally_eq, h.countP_eq, hp, hb, hsort, hnil]

structure Ranked (times : List Double) (r : AlgoResult Double) : Prop where
  least : HasRank times 0 r.minMs
  p50 : HasRank times (times.length * 50 / 100) r.p50Ms
  p95 : HasRank times (times.length * 95 / 100) r.p95Ms
  p99 : HasRank times (times.length * 99 / 100) r.p99Ms
  greatest : HasRank times (times.length - 1) r.maxMs

/-- **No position is out of range.** -/
theorem exists_computeStats (A : Arithmetic Double) (algo : Bytes) (load : LoadResult Double)
    (wall : Double) : ∃ r, computeStats A algo load wall = some r ∧
      r.completed = Int32.ofNat (load.conns.countP fun c => c.1.ok) ∧
      r.errors = Int32.ofNat (load.conns.countP fun c => !c.1.ok) ∧
      r.bytesReceived = load.bytesReceived ∧
      (latencies load.conns ≠ [] → Ranked (latencies load.conns) r) := by
  rw [computeStats, tally_eq]
  dsimp only
  split
  · next hnil => exact ⟨_, rfl, rfl, rfl, rfl, fun hne => absurd hnil hne⟩
  · next hne =>
    have hperm := List.perm_insertionSort (· ≤ ·) (latencies load.conns)
    have hsorted := List.pairwise_insertionSort (· ≤ ·) (latencies load.conns)
    have hlen := hperm.length_eq
    have hpos := List.length_pos_iff.mpr hne
    have hrank : ∀ k, k < (latencies load.conns).length →
        ∃ x, ((latencies load.conns).insertionSort (· ≤ ·))[k]? = some x ∧
          HasRank (latencies load.conns) k x := by
      intro k hk
      have hget := List.getElem?_eq_getElem (hlen ▸ hk)
      exact ⟨_, hget, (hasRank_of_getElem? hsorted hget).perm hperm⟩
    obtain ⟨x0, h0, hx0⟩ := hrank 0 hpos
    obtain ⟨x50, h50, hx50⟩ := hrank ((latencies load.conns).length * 50 / 100) (by omega)
    obtain ⟨x95, h95, hx95⟩ := hrank ((latencies load.conns).length * 95 / 100) (by omega)
    obtain ⟨x99, h99, hx99⟩ := hrank ((latencies load.conns).length * 99 / 100) (by omega)
    obtain ⟨x1, h1, hx1⟩ := hrank ((latencies load.conns).length - 1) (by omega)
    rw [List.head?_eq_getElem?, List.getLast?_eq_getElem?, hlen, h0, h50, h95, h99, h1]
    exact ⟨_, rfl, rfl, rfl, rfl, fun _ => ⟨hx0, hx50, hx95, hx99, hx1⟩⟩

theorem Ranked.ordered {times : List Double} {r : AlgoResult Double} (h : Ranked times r)
    (hne : times ≠ []) :
    r.minMs ≤ r.p50Ms ∧ r.p50Ms ≤ r.p95Ms ∧ r.p95Ms ≤ r.p99Ms ∧ r.p99Ms ≤ r.maxMs := by
  have hpos := List.length_pos_iff.mpr hne
  exact ⟨h.least.le h.p50 (by omega), h.p50.le h.p95 (by omega), h.p95.le h.p99 (by omega),
    h.p99.le h.greatest (by omega)⟩

end

/-! ### The bytes -/

namespace Load

variable {total concurrency : Int} {s t : Load}

def received (results : List ConnResult) : Int :=
  ((results.filter fun r => r.ok).map fun r => (r.bytes : Int)).sum

theorem received_concat (results : List ConnResult) (r : ConnResult) :
    received (results ++ [r]) = received results + if r.ok then (r.bytes : Int) else 0 := by
  rw [received, List.filter_append, List.map_append, List.sum_append, received]
  cases hok : r.ok <;> simp [hok]

/-- `t` has the results of `s` and has received what `s` has. -/
def SameResults (s t : Load) : Prop := t.results = s.results ∧ t.bytesReceived = s.bytesReceived

theorem sameResults_launchLoop (turns : Nat) (s : Load) :
    SameResults s (launchLoop total concurrency turns s) := by
  induction turns generalizing s with
  | zero => exact ⟨rfl, rfl⟩
  | succ turns ih =>
    rw [launchLoop]
    split
    · exact ih s.launch
    · exact ⟨rfl, rfl⟩

theorem sameResults_launchWave (s : Load) : SameResults s (s.launchWave total concurrency) := by
  unfold launchWave
  split
  · exact ⟨rfl, rfl⟩
  · exact sameResults_launchLoop _ s

def Received (s : Load) : Prop := s.bytesReceived = received s.results

theorem Received.congr (h : s.Received) (hs : SameResults s t) : t.Received := by
  rw [Received, hs.1, hs.2]
  exact h

/-- **A connection ends** with its bytes counted, if it is completed. -/
theorem received_finish (c : Nat) (r : ConnResult)
    (h : s.bytesReceived = received s.results + if r.ok then (r.bytes : Int) else 0) :
    (s.finish total concurrency c r).Received := by
  have hsettle : (s.settle c r).Received := h.trans (received_concat s.results r).symm
  have hwave : ((s.settle c r).launchWave total concurrency).Received :=
    hsettle.congr (sameResults_launchWave _)
  rw [finish_eq]
  split
  · exact hwave
  · exact hwave

theorem Received.step {e : Event} (h : s.Received) (hs : step total concurrency s e = some t) :
    t.Received := by
  cases e with
  | wave =>
    obtain ⟨-, ht⟩ := Option.ite_none_right_eq_some.mp hs
    obtain rfl := Option.some.inj ht
    have hp : Received { s with posted := false } := h
    exact hp.congr (sameResults_launchWave _)
  | complete op ec =>
    obtain ⟨-, ht⟩ := Option.ite_none_right_eq_some.mp hs
    obtain rfl := Option.some.inj ht
    exact h
  | recv c bytesRead n =>
    obtain ⟨-, ht⟩ := Option.ite_none_right_eq_some.mp hs
    obtain rfl := Option.some.inj ht
    exact h
  | dispatch op ec n =>
    obtain ⟨-, ht⟩ := Option.ite_none_right_eq_some.mp hs
    obtain rfl := Option.some.inj ht
    have hc : Received { s with pending := consume s.pending op ec n } := h
    cases op with
    | timer c =>
      rw [handle, onTimer]
      split <;> exact hc
    | connect c =>
      rw [handle, onConnect]
      split
      · exact received_finish c _ (hc.trans (Int.add_zero _).symm)
      · exact hc
    | write c =>
      rw [handle, onWriteDone]
      split
      · exact received_finish c _ (hc.trans (Int.add_zero _).symm)
      · exact hc
    | read c bytesRead =>
      rw [handle, onReadSome]
      split
      · refine received_finish c _ ?_
        show s.bytesReceived + _ = received s.results + _
        rw [show s.bytesReceived = received s.results from h]
        by_cases hok : ec = .eof ∨ ec = connectionReset <;> simp [hok]
      · exact hc

theorem received_of_reaches (h : Reaches (step total concurrency) start s) : s.Received :=
  h.invariant (I := Received) rfl fun hi _ hs => hi.step hs

end Load

/-! ### The report -/

theorem countP_zip {Double : Type} {results : List ConnResult} {times : List Double}
    (h : times.length = results.length) (p : ConnResult → Bool) :
    (results.zip times).countP (fun c => p c.1) = results.countP p := by
  have hfst : (results.zip times).map Prod.fst = results := List.map_fst_zip h.ge
  conv_rhs => rw [← hfst, List.countP_map]
  rfl

/-- **The report of a load.**  When the loop has stopped, in whatever order the
connections ended and however long they took: the completed connections and the
errors are all of them, what is reported as received is what the completed ones
received, and the reported times are the least, the greatest and the three
percentiles of the completed ones' times, in order. -/
theorem report_of_load {Double : Type} [LinearOrder Double] (A : Arithmetic Double) (algo : Bytes)
    (wall : Double) {total concurrency : Int} {s : Load} {times : List Double} (ht : 0 < total)
    (hmax : total < 2 ^ 31) (hc : 0 < concurrency)
    (h : Reaches (Load.step total concurrency) Load.start s) (hstop : s.stopped = true)
    (htimes : times.length = s.results.length) :
    ∃ r, computeStats A algo (s.result times) wall = some r ∧
      r.completed.toInt + r.errors.toInt = total ∧
      r.completed.toInt = s.results.countP (fun c => c.ok) ∧
      r.bytesReceived = Int64.ofInt (Load.received s.results) ∧
      (0 < r.completed.toInt → Ranked (latencies (s.results.zip times)) r ∧
        r.minMs ≤ r.p50Ms ∧ r.p50Ms ≤ r.p95Ms ∧ r.p95Ms ≤ r.p99Ms ∧ r.p99Ms ≤ r.maxMs) := by
  have hacc := (h.invariant (Load.sound_start ht hc) fun hi _ hs => hi.step hs).accounted hc
  have hlen : (s.results.length : Int) = total := hacc.results.trans (hacc.stopped hstop).1
  have hsplit := List.length_eq_countP_add_countP (fun c : ConnResult => c.ok) (l := s.results)
  obtain ⟨r, hr, hcompleted, herrors, hbytes, hranked⟩ :=
    exists_computeStats A algo (s.result times) wall
  have hcount : (s.result times).conns.countP (fun c => c.1.ok) =
      s.results.countP fun c => c.ok := countP_zip htimes fun c => c.ok
  have hcount' : (s.result times).conns.countP (fun c => !c.1.ok) =
      s.results.countP fun c => !c.ok := countP_zip htimes fun c => !c.ok
  have hnot : s.results.countP (fun c => ¬ c.ok = true) = s.results.countP fun c => !c.ok :=
    List.countP_congr fun c _ => by simp
  rw [hcount] at hcompleted
  rw [hcount'] at herrors
  have hok : r.completed.toInt = s.results.countP (fun c => c.ok) := by
    rw [hcompleted, Int32.toInt_ofNat_of_lt (by omega)]
  have herr : r.errors.toInt = s.results.countP (fun c => !c.ok) := by
    rw [herrors, Int32.toInt_ofNat_of_lt (by omega)]
  refine ⟨r, hr, by omega, hok, ?_, fun hpos => ?_⟩
  · rw [hbytes, ← show s.bytesReceived = _ from Load.received_of_reaches h]
    rfl
  · have hne : latencies (s.result times).conns ≠ [] := by
      rw [← List.length_pos_iff, length_latencies, hcount]
      omega
    exact ⟨hranked hne, (hranked hne).ordered hne⟩

/-- Two connections, of which the first is refused and the second completed. -/
theorem report_of_load_two : ∃ (s : Load) (r : AlgoResult Nat),
    s.results = [⟨false, 0⟩, ⟨true, 5⟩] ∧
      computeStats ⟨0, fun _ => false, fun _ _ => 0, fun _ => 0⟩ (ascii "p2c") (s.result [7, 3])
        10 = some r ∧
      r.completed.toInt + r.errors.toInt = 2 ∧ r.p50Ms ≤ r.p99Ms := by
  let es : List Load.Event :=
    [.wave, .complete (.connect 0) (.other 111), .dispatch (.connect 0) (.other 111) 0,
      .complete (.connect 1) .success, .dispatch (.connect 1) .success 0,
      .complete (.write 1) .success, .dispatch (.write 1) .success 0, .recv 1 0 5,
      .dispatch (.read 1 0) .success 5, .complete (.read 1 5) .eof, .dispatch (.read 1 5) .eof 0]
  have hrun : (run (Load.step 2 1) Load.start es).map (fun s => (s.results, s.stopped)) =
      some ([⟨false, 0⟩, ⟨true, 5⟩], true) := by decide
  obtain ⟨s, hs, hv⟩ := Option.map_eq_some_iff.mp hrun
  obtain ⟨hresults, hstopped⟩ := Prod.mk.inj hv
  have htimes : [7, 3].length = s.results.length := by rw [hresults]; rfl
  obtain ⟨r, hr, hall, hcompleted, -, hranked⟩ :=
    report_of_load ⟨0, fun _ => false, fun _ _ => 0, fun _ => 0⟩ (ascii "p2c") 10
      (by decide) (by decide) (by decide) (reaches_of_run hs) hstopped htimes
  have hpos : 0 < r.completed.toInt := by
    rw [hcompleted, hresults]
    decide
  obtain ⟨-, -, h1, h2, -⟩ := hranked hpos
  exact ⟨s, r, hresults, hr, hall, h1.trans h2⟩

end BitBridge.Bench
