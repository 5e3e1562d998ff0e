import BitBridge.Bench.Baseline

/-!
# The command line of the benchmark

`ParseArgs` (`bench/main.cpp`) goes through the arguments once.  An option takes
the argument behind it, whatever that is; what is no option names the binary, if
it does not start with a dash and nothing did before.

* `scan_items`: an `Item` is what one turn of the loop takes.
* `apply_items`: **what a command line says**: of an option that is given twice
  the last one counts, and of the other arguments the first.
* `parseArgs_spec`: **every command line** is read so to its end, or up to an
  option that lacks its argument or has one that is no number.
-/

namespace BitBridge.Bench

structure Arguments extends BenchConfig where
  lbBinary := []
  algo : Bytes := ascii "both"
  backendDelayMs : Int32 := 0
  baseline : Bool := false
  compare : Bool := false
  baselineFile : Bytes := ascii "bench/baselines/baseline.json"

/-- How `ParseArgs` ends early: in `Die`, or with an exception of `std::stoi`. -/
inductive Fault
  | die (message : Bytes)
  | exception (e : Stoi.Error)
  deriving DecidableEq

namespace Arguments

inductive Handler
  | flag (set : Arguments → Arguments)
  | number (set : Int32 → Arguments → Arguments)
  | text (set : Bytes → Arguments → Arguments)

def handlers : List (Bytes × Handler) :=
  [(ascii "--baseline", .flag fun cfg => { cfg with baseline := true }),
    (ascii "--compare", .flag fun cfg => { cfg with compare := true }),
    (ascii "--algo", .text fun v cfg => { cfg with algo := v }),
    (ascii "--concurrency", .number fun n cfg => { cfg with concurrency := n }),
    (ascii "--requests", .number fun n cfg => { cfg with requests := n }),
    (ascii "--services", .number fun n cfg => { cfg with services := n }),
    (ascii "--threshold-pct", .number fun n cfg => { cfg with thresholdPct := n }),
    (ascii "--baseline-file", .text fun v cfg => { cfg with baselineFile := v }),
    (ascii "--backend-delay-ms", .number fun n cfg => { cfg with backendDelayMs := n })]

/-- `Die` of `nextInt` and `nextStr`. -/
def requiresArgument (flag : Bytes) : Bytes := flag ++ ascii " requires an argument"

/-- Does the argument name the binary, if nothing did so far? -/
def isPositional (arg : Bytes) : Bool := arg ≠ [] ∧ arg.head? ≠ some 45

def positional (arg : Bytes) (cfg : Arguments) : Arguments :=
  if arg.head? ≠ some 45 ∧ cfg.lbBinary = [] then { cfg with lbBinary := arg } else cfg

/-- The loop of `ParseArgs`. -/
def scan : List Bytes → Arguments → Except Fault Arguments
  | [], cfg => .ok cfg
  | arg :: rest, cfg =>
    match handlers.lookup arg with
    | some (.flag set) => scan rest (set cfg)
    | some (.number set) =>
      match rest with
      | [] => .error (.die (requiresArgument arg))
      | value :: rest =>
        match Stoi.stoi value with
        | .error e => .error (.exception e)
        | .ok n => scan rest (set (Int32.ofInt n) cfg)
    | some (.text set) =>
      match rest with
      | [] => .error (.die (requiresArgument arg))
      | value :: rest => scan rest (set value cfg)
    | none => scan rest (positional arg cfg)

def usage : Bytes := [10].intercalate <| [
    "Usage: bit_bridge_bench [options] <lb-binary>",
    "  --baseline            Save results as new baseline",
    "  --compare             Compare against baseline, exit 1 on regression",
    "  --algo                p2c|consistent-hash|both (default: both)",
    "  --concurrency N       Parallel connections (default: 50)",
    "  --requests N          Total requests per algo (default: 1000)",
    "  --services N          Backend count (default: 5)",
    "  --backend-delay-ms N  Simulated backend processing delay (default: 0)",
    "  --threshold-pct N     Regression threshold % (default: 15)",
    "  --baseline-file P     Baseline JSON path (default: bench/baselines/baseline.json)"].map ascii

/-- `ParseArgs` behind its loop. -/
def check (fileExists : Bytes → Bool) (cfg : Arguments) : Except Fault Arguments :=
  if cfg.lbBinary = [] then .error (.die usage)
  else if fileExists cfg.lbBinary then .ok cfg
  else .error (.die (ascii "LB binary not found: " ++ cfg.lbBinary))

/-- `ParseArgs`, without `argv[0]`. -/
def parseArgs (fileExists : Bytes → Bool) (args : List Bytes) : Except Fault Arguments :=
  match scan args {} with
  | .error e => .error e
  | .ok cfg => check fileExists cfg

/-! ### What the loop takes at a time -/

inductive Item
  | word (arg : Bytes)
  | flag (name : Bytes)
  | number (name value : Bytes) (n : Int)
  | text (name value : Bytes)

namespace Item

def words : Item → List Bytes
  | .word arg => [arg]
  | .flag name => [name]
  | .number name value _ => [name, value]
  | .text name value => [name, value]

/-- The item is what its words are read as. -/
def Reads : Item → Prop
  | .word arg => handlers.lookup arg = none
  | .flag name => ∃ set, handlers.lookup name = some (.flag set)
  | .number name value n =>
    (∃ set, handlers.lookup name = some (.number set)) ∧ Stoi.stoi value = .ok n
  | .text name _ => ∃ set, handlers.lookup name = some (.text set)

def apply (cfg : Arguments) : Item → Arguments
  | .word arg => positional arg cfg
  | .flag name =>
    match handlers.lookup name with
    | some (.flag set) => set cfg
    | _ => cfg
  | .number name _ n =>
    match handlers.lookup name with
    | some (.number set) => set (Int32.ofInt n) cfg
    | _ => cfg
  | .text name value =>
    match handlers.lookup name with
    | some (.text set) => set value cfg
    | _ => cfg

end Item

theorem scan_item {item : Item} (h : item.Reads) (rest : List Bytes) (cfg : Arguments) :
    scan (item.words ++ rest) cfg = scan rest (item.apply cfg) := by
  cases item with
  | word arg =>
    have harg : handlers.lookup arg = none := h
    rw [Item.words, List.singleton_append, scan, harg]
    rfl
  | flag name =>
    obtain ⟨set, hset⟩ := h
    rw [Item.words, List.singleton_append, scan, Item.apply, hset]
  | number name value n =>
    obtain ⟨⟨set, hset⟩, hn⟩ := h
    show scan (name :: value :: rest) cfg = _
    rw [scan, Item.apply, hset]
    dsimp only
    rw [hn]
  | text name value =>
    obtain ⟨set, hset⟩ := h
    show scan (name :: value :: rest) cfg = _
    rw [scan, Item.apply, hset]

theorem scan_items {items : List Item} (h : ∀ i ∈ items, i.Reads) (rest : List Bytes)
    (cfg : Arguments) :
    scan (items.flatMap Item.words ++ rest) cfg = scan rest (items.foldl Item.apply cfg) := by
  induction items generalizing cfg with
  | nil => rfl
  | cons i items ih =>
    obtain ⟨hi, hitems⟩ := List.forall_mem_cons.mp h
    rw [List.flatMap_cons, List.append_assoc, scan_item hi, ih hitems, List.foldl_cons]

/-- Where the loop ends before the arguments do, and with what. -/
inductive Halts : List Bytes → Fault → Prop
  | argument {name : Bytes} {set : Int32 → Arguments → Arguments}
    (h : handlers.lookup name = some (.number set)) : Halts [name] (.die (requiresArgument name))
  | value {name : Bytes} {set : Bytes → Arguments → Arguments}
    (h : handlers.lookup name = some (.text set)) : Halts [name] (.die (requiresArgument name))
  | number {name value : Bytes} {rest : List Bytes} {e : Stoi.Error}
    {set : Int32 → Arguments → Arguments} (h : handlers.lookup name = some (.number set))
    (he : Stoi.stoi value = .error e) : Halts (name :: value :: rest) (.exception e)

theorem Halts.scan {rest : List Bytes} {fault : Fault} (h : Halts rest fault) (cfg : Arguments) :
    scan rest cfg = .error fault := by
  cases h with
  | argument h => rw [Arguments.scan, h]
  | value h => rw [Arguments.scan, h]
  | number h he =>
    rw [Arguments.scan, h]
    dsimp only
    rw [he]

/-- **Every command line** is items to its end, or to where the loop ends. -/
theorem exists_items : ∀ args : List Bytes, ∃ items : List Item, (∀ i ∈ items, i.Reads) ∧
    ∃ rest, args = items.flatMap Item.words ++ rest ∧ (rest = [] ∨ ∃ fault, Halts rest fault)
  | [] => ⟨[], by simp, [], rfl, .inl rfl⟩
  | arg :: rest => by
    cases hlook : handlers.lookup arg with
    | none =>
      obtain ⟨items, hitems, tail, htail, hend⟩ := exists_items rest
      refine ⟨.word arg :: items, ?_, tail, ?_, hend⟩
      · exact List.forall_mem_cons.mpr ⟨hlook, hitems⟩
      · rw [htail]
        rfl
    | some handler =>
      cases handler with
      | flag set =>
        obtain ⟨items, hitems, tail, htail, hend⟩ := exists_items rest
        refine ⟨.flag arg :: items, ?_, tail, ?_, hend⟩
        · exact List.forall_mem_cons.mpr ⟨⟨set, hlook⟩, hitems⟩
        · rw [htail]
          rfl
      | number set =>
        cases rest with
        | nil => exact ⟨[], by simp, [arg], rfl, .inr ⟨_, .argument hlook⟩⟩
        | cons value rest =>
          cases hv : Stoi.stoi value with
          | error e => exact ⟨[], by simp, arg :: value :: rest, rfl, .inr ⟨_, .number hlook hv⟩⟩
          | ok n =>
            obtain ⟨items, hitems, tail, htail, hend⟩ := exists_items rest
            refine ⟨.number arg value n :: items, ?_, tail, ?_, hend⟩
            · exact List.forall_mem_cons.mpr ⟨⟨⟨set, hlook⟩, hv⟩, hitems⟩
            · rw [htail]
              rfl
      | text set =>
        cases rest with
        | nil => exact ⟨[], by simp, [arg], rfl, .inr ⟨_, .value hlook⟩⟩
        | cons value rest =>
          obtain ⟨items, hitems, tail, htail, hend⟩ := exists_items rest
          refine ⟨.text arg value :: items, ?_, tail, ?_, hend⟩
          · exact List.forall_mem_cons.mpr ⟨⟨set, hlook⟩, hitems⟩
          · rw [htail]
            rfl

/-! ### What it says -/

namespace Item

def binary : Item → Option Bytes
  | .word arg => if isPositional arg then some arg else none
  | _ => none

def numberOf (option : String) : Item → Option Int32
  | .number name _ n => if name = ascii option then some (Int32.ofInt n) else none
  | _ => none

def textOf (option : String) : Item → Option Bytes
  | .text name value => if name = ascii option then some value else none
  | _ => none

def isFlag (option : String) : Item → Bool
  | .flag name => name = ascii option
  | _ => false

end Item

def lastNumber (option : String) (default : Int32) (items : List Item) : Int32 :=
  (items.filterMap (Item.numberOf option)).getLastD default

def lastText (option : String) (default : Bytes) (items : List Item) : Bytes :=
  (items.filterMap (Item.textOf option)).getLastD default

/-- What a command line says: the first word that can be one names the binary,
the last of each option gives its value. -/
def said (items : List Item) : Arguments where
  lbBinary := (items.filterMap Item.binary).headD []
  concurrency := lastNumber "--concurrency" 50 items
  requests := lastNumber "--requests" 1000 items
  services := lastNumber "--services" 5 items
  thresholdPct := lastNumber "--threshold-pct" 15 items
  algo := lastText "--algo" (ascii "both") items
  backendDelayMs := lastNumber "--backend-delay-ms" 0 items
  baseline := items.any (Item.isFlag "--baseline")
  compare := items.any (Item.isFlag "--compare")
  baselineFile := lastText "--baseline-file" (ascii "bench/baselines/baseline.json") items

/-! #### One item more -/

theorem mem_of_lookup {name : Bytes} {handler : Handler}
    (h : handlers.lookup name = some handler) : (name, handler) ∈ handlers := by
  obtain ⟨l₁, l₂, heq, -⟩ := List.lookup_eq_some_iff.mp h
  rw [heq]
  exact List.mem_append_right _ List.mem_cons_self

/-- The last value that `read` finds: it is in the last item, or before. -/
theorem getLastD_concat {α : Type} (read : Item → Option α) (default : α) (items : List Item)
    (i : Item) : ((items ++ [i]).filterMap read).getLastD default =
      (read i).getD ((items.filterMap read).getLastD default) := by
  rw [List.filterMap_append]
  cases h : read i with
  | none => rw [List.filterMap_cons_none h, List.filterMap_nil, List.append_nil, Option.getD_none]
  | some n =>
    rw [List.filterMap_cons_some h, List.filterMap_nil, List.getLastD_concat, Option.getD_some]

theorem any_concat (option : String) (items : List Item) (i : Item) :
    (items ++ [i]).any (Item.isFlag option) =
      (items.any (Item.isFlag option) || i.isFlag option) := by
  rw [List.any_append, List.any_cons, List.any_nil, Bool.or_false]

/-- A word counts as long as no binary is named. -/
theorem binary_concat (items : List Item) (arg : Bytes) :
    ((items ++ [Item.word arg]).filterMap Item.binary).headD [] =
      if arg.head? ≠ some 45 ∧ (items.filterMap Item.binary).headD [] = [] then arg
      else (items.filterMap Item.binary).headD [] := by
  rw [List.filterMap_append]
  have hne : ∀ w ∈ items.filterMap Item.binary, w ≠ [] := by
    intro w hw
    obtain ⟨i, -, hi⟩ := List.mem_filterMap.mp hw
    cases i with
    | word arg =>
      obtain ⟨hpos, h⟩ := Option.ite_none_right_eq_some.mp hi
      obtain rfl := Option.some.inj h
      exact (of_decide_eq_true hpos).1
    | flag | number | text => cases hi
  cases hl : items.filterMap Item.binary with
  | cons w l =>
    rw [hl] at hne
    have hw := hne w List.mem_cons_self
    rw [List.cons_append, List.headD_cons, List.headD_cons, if_neg fun h => hw h.2]
  | nil =>
    rw [List.nil_append, List.headD_nil]
    by_cases hpos : isPositional arg
    · have hbin : (Item.word arg).binary = some arg := if_pos hpos
      rw [List.filterMap_cons_some hbin, List.headD_cons, if_pos ⟨(of_decide_eq_true hpos).2, rfl⟩]
    · have hbin : (Item.word arg).binary = none := if_neg hpos
      rw [List.filterMap_cons_none hbin, List.filterMap_nil, List.headD_nil]
      split
      · next h =>
        by_contra hnil
        exact hpos (decide_eq_true ⟨fun h0 => hnil h0.symm, h.1⟩)
      · rfl

theorem binary_concat_of_none {i : Item} (h : i.binary = none) (items : List Item) :
    (items ++ [i]).filterMap Item.binary = items.filterMap Item.binary := by
  rw [List.filterMap_append, List.filterMap_cons_none h, List.filterMap_nil, List.append_nil]

theorem said_concat {i : Item} (h : i.Reads) (items : List Item) :
    said (items ++ [i]) = i.apply (said items) := by
  unfold said lastNumber lastText
  simp only [getLastD_concat, any_concat]
  cases i with
  | word arg =>
    simp only [binary_concat, Item.numberOf, Item.textOf, Item.isFlag, Option.getD_none,
      Bool.or_false, Item.apply, positional]
    split <;> rfl
  | flag name =>
    obtain ⟨set, hset⟩ := h
    rw [Item.apply, hset, binary_concat_of_none rfl]
    have hmem := mem_of_lookup hset
    simp only [handlers, List.mem_cons, Prod.mk.injEq, Handler.flag.injEq, reduceCtorEq, and_false,
      or_false, List.not_mem_nil] at hmem
    have hno : ∀ b, (b || decide (ascii "--baseline" = ascii "--compare")) = b ∧
        (b || decide (ascii "--compare" = ascii "--baseline")) = b := by decide
    rcases hmem with ⟨rfl, rfl⟩ | ⟨rfl, rfl⟩
    · simp only [Item.isFlag, (hno _).1, decide_true, Bool.or_true]
      rfl
    · simp only [Item.isFlag, (hno _).2, decide_true, Bool.or_true]
      rfl
  | number name value n =>
    obtain ⟨⟨set, hset⟩, -⟩ := h
    rw [Item.apply, hset, binary_concat_of_none rfl]
    simp only [Item.isFlag, Bool.or_false]
    have hmem := mem_of_lookup hset
    simp only [handlers, List.mem_cons, Prod.mk.injEq, Handler.number.injEq, reduceCtorEq,
      and_false, or_false, false_or, List.not_mem_nil] at hmem
    rcases hmem with ⟨rfl, rfl⟩ | ⟨rfl, rfl⟩ | ⟨rfl, rfl⟩ | ⟨rfl, rfl⟩ | ⟨rfl, rfl⟩ <;> rfl
  | text name value =>
    obtain ⟨set, hset⟩ := h
    rw [Item.apply, hset, binary_concat_of_none rfl]
    simp only [Item.isFlag, Bool.or_false]
    have hmem := mem_of_lookup hset
    simp only [handlers, List.mem_cons, Prod.mk.injEq, Handler.text.injEq, reduceCtorEq,
      and_false, or_false, false_or, List.not_mem_nil] at hmem
    rcases hmem with ⟨rfl, rfl⟩ | ⟨rfl, rfl⟩ <;> rfl

/-- **What a command line says** is what its items do, one after the other. -/
theorem apply_items {items : List Item} (h : ∀ i ∈ items, i.Reads) :
    items.foldl Item.apply {} = said items := by
  induction items using List.reverseRecOn with
  | nil => rfl
  | append_singleton items i ih =>
    rw [List.foldl_concat, ih fun j hj => h j (List.mem_append_left _ hj),
      said_concat (h i (List.mem_append_right _ (List.mem_singleton_self i)))]

/-- **Every command line.**  Items that are read to the end say what the
configuration is; an option that lacks its argument, or whose argument is no
number, ends the reading with its fault; and every command line is one or the
other. -/
theorem parseArgs_spec (fileExists : Bytes → Bool) :
    (∀ items : List Item, (∀ i ∈ items, i.Reads) →
      parseArgs fileExists (items.flatMap Item.words) = check fileExists (said items)) ∧
    (∀ (items : List Item) (rest : List Bytes) (fault : Fault), (∀ i ∈ items, i.Reads) →
      Halts rest fault →
        parseArgs fileExists (items.flatMap Item.words ++ rest) = .error fault) ∧
    ∀ args : List Bytes, ∃ items : List Item, (∀ i ∈ items, i.Reads) ∧
      ∃ rest, args = items.flatMap Item.words ++ rest ∧
        (rest = [] ∨ ∃ fault, Halts rest fault) := by
  refine ⟨fun items h => ?_, fun items rest fault h hfault => ?_, exists_items⟩
  · have hscan := scan_items h [] {}
    rw [List.append_nil, scan, apply_items h] at hscan
    rw [parseArgs, hscan]
  · rw [parseArgs, scan_items h, hfault.scan]

end Arguments

end BitBridge.Bench
