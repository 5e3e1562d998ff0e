import BitBridge.Config.Serializer
import BitBridge.Ui.Toml
import Mathlib.Algebra.Group.Int.Defs
import Mathlib.Algebra.Group.Nat.Defs

/-!
# The settings of the editor

`AppSettings` (`ui/AppSettings.cpp`) reads its file with toml++, through 64-bit
integers that are cast to the types of the fields, and writes the file itself,
with strings between quotes as they are.

* `stored_readTable`: a number of the settings after a load.
* `load_keeps_range`: **what is loaded is the number of the file or the old
  value**, exactly when every number that does not fit is cast to the old value.
* `port_cast`: a port of the file that is cast to another.
-/

namespace BitBridge

open Toml YamlConfigSerializer

structure AppSettings where
  configFilePath : Bytes := ascii "bitbridge-config.yaml"
  name : Bytes := ascii "my-bit-bridge-lb"
  listenAddress : Bytes := ascii "0.0.0.0"
  listenPort : UInt16 := 8080
  routingAlgorithm : Bytes := ascii "p2c"
  healthCheckEnabled : Bool := true
  healthCheckIntervalMs : UInt32 := 5000
  healthCheckTimeoutMs : UInt32 := 2000
  healthCheckUnhealthyThreshold : UInt32 := 3
  maxPerService : UInt32 := 1024
  idleTimeoutMs : UInt32 := 30000
  connectTimeoutMs : UInt32 := 5000
  deriving DecidableEq

namespace AppSettings

def toUInt16 (n : Int64) : UInt16 := n.toUInt64.toUInt16

def toUInt32 (n : Int64) : UInt32 := n.toUInt64.toUInt32

/-- `static_cast<uint16_t>(node.value_or(static_cast<int64_t>(old)))`. -/
def uint16Or (n : Option Int64) (old : UInt16) : UInt16 :=
  toUInt16 (n.getD (Int64.ofNat old.toNat))

def uint32Or (n : Option Int64) (old : UInt32) : UInt32 :=
  toUInt32 (n.getD (Int64.ofNat old.toNat))

/-! ### Saving -/

def text (s : AppSettings) : Bytes :=
  ascii "# Bit Bridge - User Interface Settings\n" ++
  ascii "# These values configure the UI defaults, not the load balancer itself.\n\n" ++
  ascii "# Path to the load balancer configuration file (YAML)\n" ++
  (ascii "config_file_path = \"" ++ s.configFilePath ++ ascii "\"\n\n") ++
  ascii "# Default values pre-filled when creating a new configuration\n" ++
  ascii "[defaults]\n" ++
  (ascii "name = \"" ++ s.name ++ ascii "\"\n") ++
  (ascii "listen_address = \"" ++ s.listenAddress ++ ascii "\"\n") ++
  (ascii "listen_port = " ++ decimal s.listenPort.toNat ++ ascii "\n") ++
  (ascii "routing_algorithm = \"" ++ s.routingAlgorithm ++ ascii "\"\n\n") ++
  ascii "[defaults.health_check]\n" ++
  (ascii "enabled = " ++ (if s.healthCheckEnabled then ascii "true" else ascii "false") ++
    ascii "\n") ++
  (ascii "interval_ms = " ++ decimal s.healthCheckIntervalMs.toNat ++ ascii "\n") ++
  (ascii "timeout_ms = " ++ decimal s.healthCheckTimeoutMs.toNat ++ ascii "\n") ++
  (ascii "unhealthy_threshold = " ++ decimal s.healthCheckUnhealthyThreshold.toNat ++
    ascii "\n\n") ++
  ascii "[defaults.connection]\n" ++
  (ascii "max_per_service = " ++ decimal s.maxPerService.toNat ++ ascii "\n") ++
  (ascii "idle_timeout_ms = " ++ decimal s.idleTimeoutMs.toNat ++ ascii "\n") ++
  (ascii "connect_timeout_ms = " ++ decimal s.connectTimeoutMs.toNat ++ ascii "\n")

def saveToFile (disk : Disk) (files : Files) (s : AppSettings) (filePath : Bytes) : Bool × Files :=
  if !disk.canOpen filePath then (false, files)
  else (true, Function.update files filePath (some (disk.written filePath s.text)))

/-! ### Loading -/

section

variable {N : Type} (T : TomlPlusPlus N)

def readDefaults (defaults : N) (s : AppSettings) : AppSettings :=
  { s with
    name := (T.valueString (T.get defaults (ascii "name"))).getD s.name
    listenAddress := (T.valueString (T.get defaults (ascii "listen_address"))).getD s.listenAddress
    listenPort := uint16Or (T.valueInteger (T.get defaults (ascii "listen_port"))) s.listenPort
    routingAlgorithm :=
      (T.valueString (T.get defaults (ascii "routing_algorithm"))).getD s.routingAlgorithm }

def readHealthCheck (hc : N) (s : AppSettings) : AppSettings :=
  { s with
    healthCheckEnabled := (T.valueBool (T.get hc (ascii "enabled"))).getD s.healthCheckEnabled
    healthCheckIntervalMs :=
      uint32Or (T.valueInteger (T.get hc (ascii "interval_ms"))) s.healthCheckIntervalMs
    healthCheckTimeoutMs :=
      uint32Or (T.valueInteger (T.get hc (ascii "timeout_ms"))) s.healthCheckTimeoutMs
    healthCheckUnhealthyThreshold :=
      uint32Or (T.valueInteger (T.get hc (ascii "unhealthy_threshold")))
        s.healthCheckUnhealthyThreshold }

def readConnection (conn : N) (s : AppSettings) : AppSettings :=
  { s with
    maxPerService :=
      uint32Or (T.valueInteger (T.get conn (ascii "max_per_service"))) s.maxPerService
    idleTimeoutMs :=
      uint32Or (T.valueInteger (T.get conn (ascii "idle_timeout_ms"))) s.idleTimeoutMs
    connectTimeoutMs :=
      uint32Or (T.valueInteger (T.get conn (ascii "connect_timeout_ms"))) s.connectTimeoutMs }

/-- The body of `LoadFromFile` after the parser. -/
def readTable (tbl : N) (s : AppSettings) : AppSettings :=
  let s := { s with
    configFilePath :=
      (T.valueString (T.get tbl (ascii "config_file_path"))).getD s.configFilePath }
  let defaults := T.get tbl (ascii "defaults")
  let s := if T.isTable defaults then readDefaults T defaults s else s
  let hc := T.get defaults (ascii "health_check")
  let s := if T.isTable hc then readHealthCheck T hc s else s
  let conn := T.get defaults (ascii "connection")
  if T.isTable conn then readConnection T conn s else s

/-- `LoadFromFile`: what it returns, the settings, and the files; a file that is
missing is written. -/
def loadFromFile (disk : Disk) (files : Files) (s : AppSettings) (filePath : Bytes) :
    Bool × AppSettings × Files :=
  match files filePath with
  | none =>
    let (saved, files) := saveToFile disk files s filePath
    (saved, s, files)
  | some text =>
    match T.parse text with
    | none => (false, s, files)
    | some tbl => (true, readTable T tbl s, files)

end

def applyDefaultConfig (s : AppSettings) (config : LoadBalancerConfig) : LoadBalancerConfig :=
  { config with
    name := s.name
    listenAddress := s.listenAddress
    listenPort := s.listenPort
    routingAlgorithm := s.routingAlgorithm
    healthCheck := ⟨s.healthCheckEnabled, s.healthCheckIntervalMs, s.healthCheckTimeoutMs,
      s.healthCheckUnhealthyThreshold⟩
    connection := ⟨s.maxPerService, s.idleTimeoutMs, s.connectTimeoutMs⟩ }

/-! ### The numbers of the file -/

inductive Block
  | defaults
  | healthCheck
  | connection
  deriving DecidableEq

def Block.path : Block → List Bytes
  | .defaults => [ascii "defaults"]
  | .healthCheck => [ascii "defaults", ascii "health_check"]
  | .connection => [ascii "defaults", ascii "connection"]

inductive Field
  | listenPort
  | intervalMs
  | timeoutMs
  | unhealthyThreshold
  | maxPerService
  | idleTimeoutMs
  | connectTimeoutMs
  deriving DecidableEq

namespace Field

def block : Field → Block
  | .listenPort => .defaults
  | .intervalMs => .healthCheck
  | .timeoutMs => .healthCheck
  | .unhealthyThreshold => .healthCheck
  | .maxPerService => .connection
  | .idleTimeoutMs => .connection
  | .connectTimeoutMs => .connection

def key : Field → Bytes
  | .listenPort => ascii "listen_port"
  | .intervalMs => ascii "interval_ms"
  | .timeoutMs => ascii "timeout_ms"
  | .unhealthyThreshold => ascii "unhealthy_threshold"
  | .maxPerService => ascii "max_per_service"
  | .idleTimeoutMs => ascii "idle_timeout_ms"
  | .connectTimeoutMs => ascii "connect_timeout_ms"

def bits : Field → Nat
  | .listenPort => 16
  | _ => 32

def stored (s : AppSettings) : Field → Nat
  | .listenPort => s.listenPort.toNat
  | .intervalMs => s.healthCheckIntervalMs.toNat
  | .timeoutMs => s.healthCheckTimeoutMs.toNat
  | .unhealthyThreshold => s.healthCheckUnhealthyThreshold.toNat
  | .maxPerService => s.maxPerService.toNat
  | .idleTimeoutMs => s.idleTimeoutMs.toNat
  | .connectTimeoutMs => s.connectTimeoutMs.toNat

/-- The number is one of the field's type. -/
def Fits (f : Field) (n : Int64) : Prop := 0 ≤ n.toInt ∧ n.toInt < 2 ^ f.bits

instance (f : Field) (n : Int64) : Decidable (f.Fits n) :=
  inferInstanceAs (Decidable (0 ≤ n.toInt ∧ n.toInt < 2 ^ f.bits))

end Field

section

variable {N : Type} (T : TomlPlusPlus N)

def Given (files : Files) (filePath : Bytes) (f : Field) (n : Int64) : Prop :=
  ∃ text tbl, files filePath = some text ∧ T.parse text = some tbl ∧
    T.isTable (T.view tbl f.block.path) = true ∧
      T.valueInteger (T.get (T.view tbl f.block.path) f.key) = some n

/-- What was loaded is the number of the file where it fits, and else the value
from before. -/
def KeepsRange (disk : Disk) (files : Files) (s : AppSettings) (filePath : Bytes) : Prop :=
  (loadFromFile T disk files s filePath).1 = true → ∀ f n, Given T files filePath f n →
    (f.Fits n → (f.stored (loadFromFile T disk files s filePath).2.1 : Int) = n.toInt) ∧
      (¬ f.Fits n → f.stored (loadFromFile T disk files s filePath).2.1 = f.stored s)

end

/-- The number that a cast to `bits` bits leaves. -/
def castTo (bits : Nat) (n : Int64) : Nat := (n.toInt % 2 ^ bits).toNat

theorem toUInt64_cases (n : Int64) :
    n.toInt = n.toUInt64.toNat ∨ n.toInt = n.toUInt64.toNat - 18446744073709551616 := by
  have h : n.toInt = if 2 * n.toUInt64.toNat < 2 ^ 64 then (n.toUInt64.toNat : Int)
      else n.toUInt64.toNat - ((2 ^ 64 : Nat) : Int) := BitVec.toInt_eq_toNat_cond n.toBitVec
  split at h
  · exact .inl h
  · exact .inr h

theorem toNat_toUInt16 (n : Int64) : (toUInt16 n).toNat = castTo 16 n := by
  rw [toUInt16, UInt64.toNat_toUInt16, castTo]
  rcases toUInt64_cases n with h | h <;> omega

theorem toNat_toUInt32 (n : Int64) : (toUInt32 n).toNat = castTo 32 n := by
  rw [toUInt32, UInt64.toNat_toUInt32, castTo]
  rcases toUInt64_cases n with h | h <;> omega

/-- The old value goes through `int64_t` and back. -/
theorem castTo_ofNat {bits v : Nat} (hb : bits ≤ 32) (hv : v < 2 ^ bits) :
    castTo bits (Int64.ofNat v) = v := by
  have hbits : 2 ^ bits ≤ 2 ^ 32 := Nat.pow_le_pow_right (by decide) hb
  have hint : (Int64.ofNat v).toInt = v := Int64.toInt_ofNat_of_lt (by omega)
  have hv' : (v : Int) < 2 ^ bits := by exact_mod_cast hv
  rw [castTo, hint, Int.emod_eq_of_lt (by omega) hv', Int.toNat_natCast]

theorem uint16Or_toNat (n : Option Int64) (old : UInt16) :
    (uint16Or n old).toNat = (n.map (castTo 16)).getD old.toNat := by
  rw [uint16Or, toNat_toUInt16]
  cases n with
  | none => exact castTo_ofNat (by decide) old.toNat_lt
  | some n => rfl

theorem uint32Or_toNat (n : Option Int64) (old : UInt32) :
    (uint32Or n old).toNat = (n.map (castTo 32)).getD old.toNat := by
  rw [uint32Or, toNat_toUInt32]
  cases n with
  | none => exact castTo_ofNat (by decide) old.toNat_lt
  | some n => rfl

section

variable {N : Type} {T : TomlPlusPlus N}

/-- What one table of the file leaves in a field. -/
def fieldOr (T : TomlPlusPlus N) (view : N) (s : AppSettings) (f : Field) : Nat :=
  ((T.valueInteger (T.get view f.key)).map (castTo f.bits)).getD (f.stored s)

theorem stored_readDefaults (view : N) (s : AppSettings) (f : Field) :
    f.stored (readDefaults T view s) =
      if f.block = .defaults then fieldOr T view s f else f.stored s := by
  cases f
  case listenPort => exact uint16Or_toNat _ _
  all_goals rfl

theorem stored_readHealthCheck (view : N) (s : AppSettings) (f : Field) :
    f.stored (readHealthCheck T view s) =
      if f.block = .healthCheck then fieldOr T view s f else f.stored s := by
  cases f
  case intervalMs => exact uint32Or_toNat _ _
  case timeoutMs => exact uint32Or_toNat _ _
  case unhealthyThreshold => exact uint32Or_toNat _ _
  all_goals rfl

theorem stored_readConnection (view : N) (s : AppSettings) (f : Field) :
    f.stored (readConnection T view s) =
      if f.block = .connection then fieldOr T view s f else f.stored s := by
  cases f
  case maxPerService => exact uint32Or_toNat _ _
  case idleTimeoutMs => exact uint32Or_toNat _ _
  case connectTimeoutMs => exact uint32Or_toNat _ _
  all_goals rfl

/-- **A field is read from its own table**, and keeps its value without one. -/
theorem stored_readTable (tbl : N) (s : AppSettings) (f : Field) :
    f.stored (readTable T tbl s) =
      if T.isTable (T.view tbl f.block.path) then fieldOr T (T.view tbl f.block.path) s f
      else f.stored s := by
  have hite : ∀ (b : Bool) (g : AppSettings → AppSettings) (s : AppSettings),
      f.stored (if b then g s else s) = if b then f.stored (g s) else f.stored s := by
    intro b g s
    split <;> rfl
  have hfile : ∀ p, f.stored { s with configFilePath := p } = f.stored s := by
    intro p
    cases f <;> rfl
  simp only [readTable]
  rw [hite _ (readConnection T _), stored_readConnection, hite _ (readHealthCheck T _),
    stored_readHealthCheck, hite _ (readDefaults T _), stored_readDefaults, hfile]
  -- of the three tables, only that of the field is left
  cases hb : f.block with
  | defaults =>
    change _ = if T.isTable (T.get tbl (ascii "defaults")) then
      fieldOr T (T.get tbl (ascii "defaults")) s f else f.stored s
    simp [fieldOr, hfile]
  | healthCheck =>
    change _ = if T.isTable (T.get (T.get tbl (ascii "defaults")) (ascii "health_check")) then
      fieldOr T (T.get (T.get tbl (ascii "defaults")) (ascii "health_check")) s f else f.stored s
    simp [hb, fieldOr, hfile, hite, stored_readDefaults]
  | connection =>
    change _ = if T.isTable (T.get (T.get tbl (ascii "defaults")) (ascii "connection")) then
      fieldOr T (T.get (T.get tbl (ascii "defaults")) (ascii "connection")) s f else f.stored s
    simp [hb, fieldOr, hfile, hite, stored_readDefaults, stored_readHealthCheck]

/-- **What is loaded is the number of the file or the old value**, exactly when
every number of the file fits or is cast to the old value. -/
theorem load_keeps_range (T : TomlPlusPlus N) (disk : Disk) (files : Files) (s : AppSettings)
    (filePath : Bytes) :
    KeepsRange T disk files s filePath ↔
      ∀ f n, Given T files filePath f n →
        f.Fits n ∨ n.toInt % 2 ^ f.bits = f.stored s := by
  have hstored : ∀ f n, Given T files filePath f n →
      (loadFromFile T disk files s filePath).1 = true ∧
        f.stored (loadFromFile T disk files s filePath).2.1 = castTo f.bits n := by
    rintro f n ⟨text, tbl, hfile, hparse, htable, hn⟩
    have hload : loadFromFile T disk files s filePath = (true, readTable T tbl s, files) := by
      simp only [loadFromFile, hfile, hparse]
    rw [hload]
    exact ⟨rfl, by rw [stored_readTable, if_pos htable, fieldOr, hn]; rfl⟩
  have hcast : ∀ (f : Field) (n : Int64), (castTo f.bits n : Int) = n.toInt % 2 ^ f.bits := by
    intro f n
    exact Int.toNat_of_nonneg (Int.emod_nonneg _ (by cases f <;> decide))
  constructor
  · intro h f n hgiven
    obtain ⟨hok, heq⟩ := hstored f n hgiven
    by_cases hfit : f.Fits n
    · exact .inl hfit
    · refine .inr ?_
      rw [← (h hok f n hgiven).2 hfit, heq, hcast]
  · intro h _ f n hgiven
    obtain ⟨-, heq⟩ := hstored f n hgiven
    refine ⟨fun hfit => ?_, fun hfit => ?_⟩
    · rw [heq, hcast, Int.emod_eq_of_lt hfit.1 hfit.2]
    · rcases h f n hgiven with hfit' | hmod
      · exact absurd hfit' hfit
      · have := hcast f n
        omega

end

/-- **A port that is cast**: 70000 is stored as 4464, where the port was 8080. -/
theorem port_cast : ¬ ∀ (T : TomlPlusPlus (List Bytes)) (disk : Disk) (files : Files)
    (s : AppSettings) (filePath : Bytes), KeepsRange T disk files s filePath := by
  intro h
  let lines : List Line :=
    [.table [ascii "defaults"], .keyValue (ascii "listen_port") (.integer 70000)]
  let disk : Disk := ⟨fun _ => true, fun _ => true, fun _ => true, fun _ text => text⟩
  let files : Files := fun _ => some (render lines)
  have hgiven : Given (ofLines lines) files [] .listenPort 70000 :=
    ⟨render lines, [], rfl, by decide, by decide, by decide⟩
  have hkeep := h (ofLines lines) disk files {} [] (by decide +kernel) .listenPort 70000 hgiven
  have hstored : Field.listenPort.stored (loadFromFile (ofLines lines) disk files {} []).2.1 =
      4464 := by decide +kernel
  have hold := hkeep.2 (by decide)
  rw [hstored] at hold
  exact absurd hold (by decide)

end AppSettings

end BitBridge
