import BitBridge.Ui.AppSettings

/-!
# The round trip of the settings

`SaveToFile` puts the four strings between quotes as they are, and a TOML parser
reads them.  `lines` is the saved text as a TOML document, which it is if the
strings are plain.

* `readTable_lines`: reading the document sets all twelve fields.
* `settings_round_trip`: **`LoadFromFile` after `SaveToFile` gives the settings
  back exactly when the strings are plain.**
* `name_with_quote`: a name with a quote makes a file that is not accepted.
-/

namespace BitBridge

open Toml TomlString YamlConfigSerializer

namespace AppSettings

/-- The strings are text, as all strings of a TOML document are. -/
structure IsUtf8 (s : AppSettings) : Prop where
  configFilePath : Toml.IsUtf8 s.configFilePath
  name : Toml.IsUtf8 s.name
  listenAddress : Toml.IsUtf8 s.listenAddress
  routingAlgorithm : Toml.IsUtf8 s.routingAlgorithm

/-- No string has a quote, a backslash or a control character but the tab. -/
structure Plain (s : AppSettings) : Prop where
  configFilePath : ∀ c ∈ s.configFilePath, isPlain c = true
  name : ∀ c ∈ s.name, isPlain c = true
  listenAddress : ∀ c ∈ s.listenAddress, isPlain c = true
  routingAlgorithm : ∀ c ∈ s.routingAlgorithm, isPlain c = true

/-! ### The saved text as a document -/

def headLines : List Line :=
  [.comment (ascii " Bit Bridge - User Interface Settings"),
    .comment (ascii " These values configure the UI defaults, not the load balancer itself."),
    .blank,
    .comment (ascii " Path to the load balancer configuration file (YAML)")]

def defaultsLines : List Line :=
  [.blank,
    .comment (ascii " Default values pre-filled when creating a new configuration"),
    .table [ascii "defaults"]]

def numberLines (s : AppSettings) : List Line :=
  [.blank,
    .table [ascii "defaults", ascii "health_check"],
    .keyValue (ascii "enabled") (.boolean s.healthCheckEnabled),
    .keyValue (ascii "interval_ms") (.integer s.healthCheckIntervalMs.toNat),
    .keyValue (ascii "timeout_ms") (.integer s.healthCheckTimeoutMs.toNat),
    .keyValue (ascii "unhealthy_threshold") (.integer s.healthCheckUnhealthyThreshold.toNat),
    .blank,
    .table [ascii "defaults", ascii "connection"],
    .keyValue (ascii "max_per_service") (.integer s.maxPerService.toNat),
    .keyValue (ascii "idle_timeout_ms") (.integer s.idleTimeoutMs.toNat),
    .keyValue (ascii "connect_timeout_ms") (.integer s.connectTimeoutMs.toNat)]

def lines (s : AppSettings) : List Line :=
  headLines ++ .keyValue (ascii "config_file_path") (.string s.configFilePath) ::
    (defaultsLines ++ .keyValue (ascii "name") (.string s.name) ::
      .keyValue (ascii "listen_address") (.string s.listenAddress) ::
      .keyValue (ascii "listen_port") (.integer s.listenPort.toNat) ::
      .keyValue (ascii "routing_algorithm") (.string s.routingAlgorithm) :: numberLines s)

theorem ascii_append (a b : String) : ascii (a ++ b) = ascii a ++ ascii b := by
  rw [ascii, String.toList_append, List.map_append]
  rfl

theorem render_keyValue (key : String) (v : Value) (lines : List Line) :
    render (.keyValue (ascii key) v :: lines) =
      ascii (key ++ " = ") ++ (v.text ++ (ascii "\n" ++ render lines)) := by
  rw [ascii_append, render, Line.text, show ascii " = " = [32, 61, 32] by decide,
    show ascii "\n" = [10] by decide]
  simp only [List.append_assoc, List.cons_append, List.nil_append]

theorem render_string (key : String) (v : Bytes) (lines : List Line) :
    render (.keyValue (ascii key) (.string v) :: lines) =
      ascii (key ++ " = \"") ++ (v ++ (ascii "\"\n" ++ render lines)) := by
  rw [render_keyValue, ascii_append, ascii_append, Value.text,
    show ascii " = \"" = ascii " = " ++ [34] by decide,
    show ascii "\"\n" = 34 :: ascii "\n" by decide]
  simp only [List.append_assoc, List.cons_append, List.nil_append]

theorem render_integer (key : String) (v : Nat) (lines : List Line) :
    render (.keyValue (ascii key) (.integer v) :: lines) =
      ascii (key ++ " = ") ++ (decimal v ++ (ascii "\n" ++ render lines)) :=
  render_keyValue key _ lines

theorem render_boolean (key : String) (b : Bool) (lines : List Line) :
    render (.keyValue (ascii key) (.boolean b) :: lines) = ascii (key ++ " = ") ++
      ((if b then ascii "true" else ascii "false") ++ (ascii "\n" ++ render lines)) :=
  render_keyValue key _ lines

theorem render_nil : render [] = [] := rfl

theorem render_blank (lines : List Line) : render (.blank :: lines) = ascii "\n" ++ render lines :=
  rfl

theorem render_headLines : render headLines =
    ascii "# Bit Bridge - User Interface Settings\n" ++
    (ascii "# These values configure the UI defaults, not the load balancer itself.\n\n" ++
    ascii "# Path to the load balancer configuration file (YAML)\n") := by
  decide +kernel

theorem render_defaultsLines : render defaultsLines = ascii "\n" ++
    (ascii "# Default values pre-filled when creating a new configuration\n" ++
    ascii "[defaults]\n") := by
  decide

theorem render_header (lines : List Line) :
    render (.table [ascii "defaults", ascii "health_check"] :: lines) =
        ascii "[defaults.health_check]\n" ++ render lines ∧
      render (.table [ascii "defaults", ascii "connection"] :: lines) =
        ascii "[defaults.connection]\n" ++ render lines := by
  have h1 : (Line.table [ascii "defaults", ascii "health_check"]).text ++ [10] =
      ascii "[defaults.health_check]\n" := by decide
  have h2 : (Line.table [ascii "defaults", ascii "connection"]).text ++ [10] =
      ascii "[defaults.connection]\n" := by decide
  rw [← h1, ← h2, List.append_assoc, List.append_assoc]
  exact ⟨rfl, rfl⟩

theorem text_eq (s : AppSettings) : s.text = render s.lines := by
  have hq : ascii "\"\n\n" = ascii "\"\n" ++ ascii "\n" := ascii_append "\"\n" "\n"
  have hn : ascii "\n\n" = ascii "\n" ++ ascii "\n" := ascii_append "\n" "\n"
  rw [lines, render_append, render_headLines, render_string, render_append, render_defaultsLines,
    render_string, render_string, render_integer, render_string, numberLines]
  delta text
  simp only [render_integer, render_boolean, render_blank, (render_header _).1,
    (render_header _).2, render_nil, hq, hn, String.reduceAppend, List.append_assoc,
    List.append_nil]

/-! ### The lines are well formed -/

theorem wellFormed_comment (body : String)
    (hutf8 : ascii body = body.toList.flatMap String.utf8EncodeChar)
    (hplain : (ascii body).all isPlain = true) : (Line.comment (ascii body)).WellFormed :=
  ⟨⟨body.toList, hutf8⟩, List.all_eq_true.mp hplain⟩

theorem wellFormed_headLines : ∀ l ∈ headLines, l.WellFormed := by
  simp only [headLines, List.forall_mem_cons]
  refine ⟨wellFormed_comment _ ?_ ?_, wellFormed_comment _ ?_ ?_, trivial,
    wellFormed_comment _ ?_ ?_, fun l hl => absurd hl List.not_mem_nil⟩ <;> decide

theorem wellFormed_defaultsLines : ∀ l ∈ defaultsLines, l.WellFormed := by
  simp only [defaultsLines, List.forall_mem_cons]
  refine ⟨trivial, wellFormed_comment _ ?_ ?_, ?_, fun l hl => absurd hl List.not_mem_nil⟩
  · decide
  · decide
  · exact ⟨by decide, by decide⟩

theorem wellFormed_integer {key : Bytes} (hkey : IsBareKey key) {v : Nat} (hv : v < 2 ^ 32) :
    (Line.keyValue key (.integer v)).WellFormed :=
  ⟨hkey, Nat.lt_trans hv (by decide)⟩

theorem wellFormed_numberLines (s : AppSettings) : ∀ l ∈ s.numberLines, l.WellFormed := by
  simp only [numberLines, List.forall_mem_cons]
  exact ⟨trivial, ⟨by decide, by decide⟩, ⟨by decide, trivial⟩,
    wellFormed_integer (by decide) s.healthCheckIntervalMs.toNat_lt,
    wellFormed_integer (by decide) s.healthCheckTimeoutMs.toNat_lt,
    wellFormed_integer (by decide) s.healthCheckUnhealthyThreshold.toNat_lt,
    trivial, ⟨by decide, by decide⟩,
    wellFormed_integer (by decide) s.maxPerService.toNat_lt,
    wellFormed_integer (by decide) s.idleTimeoutMs.toNat_lt,
    wellFormed_integer (by decide) s.connectTimeoutMs.toNat_lt,
    fun l hl => absurd hl List.not_mem_nil⟩

/-- The names that the document defines, tables first. -/
def paths : List (List Bytes) :=
  [[ascii "defaults"], [ascii "defaults", ascii "health_check"],
    [ascii "defaults", ascii "connection"]] ++
  [[ascii "config_file_path"],
    [ascii "defaults", ascii "name"],
    [ascii "defaults", ascii "listen_address"],
    [ascii "defaults", ascii "listen_port"],
    [ascii "defaults", ascii "routing_algorithm"],
    [ascii "defaults", ascii "health_check", ascii "enabled"],
    [ascii "defaults", ascii "health_check", ascii "interval_ms"],
    [ascii "defaults", ascii "health_check", ascii "timeout_ms"],
    [ascii "defaults", ascii "health_check", ascii "unhealthy_threshold"],
    [ascii "defaults", ascii "connection", ascii "max_per_service"],
    [ascii "defaults", ascii "connection", ascii "idle_timeout_ms"],
    [ascii "defaults", ascii "connection", ascii "connect_timeout_ms"]]

theorem paths_eq (s : AppSettings) :
    tables s.lines ++ (assignments [] s.lines).map (·.1) = paths := rfl

theorem wellFormed_lines {s : AppSettings} (hs : s.IsUtf8) (hp : s.Plain) :
    WellFormed s.lines := by
  constructor
  · simp only [lines, List.forall_mem_append, List.forall_mem_cons]
    exact ⟨wellFormed_headLines, ⟨by decide, hs.configFilePath, hp.configFilePath⟩,
      wellFormed_defaultsLines, ⟨by decide, hs.name, hp.name⟩,
      ⟨by decide, hs.listenAddress, hp.listenAddress⟩,
      ⟨by decide, Nat.lt_trans s.listenPort.toNat_lt (by decide)⟩,
      ⟨by decide, hs.routingAlgorithm, hp.routingAlgorithm⟩, wellFormed_numberLines s⟩
  · rw [paths_eq]
    decide
  · have hvalues : ∀ p ∈ paths.drop 3, ∀ path ∈ paths, p <+: path → p = path := by
      decide
    intro a ha
    rw [paths_eq]
    exact hvalues a.1 (List.mem_map_of_mem (f := (·.1)) ha)

def beforeName (s : AppSettings) : List Line :=
  headLines ++ .keyValue (ascii "config_file_path") (.string s.configFilePath) :: defaultsLines

theorem lines_eq (s : AppSettings) : s.lines = s.beforeName ++
    .keyValue (ascii "name") (.string s.name) ::
      .keyValue (ascii "listen_address") (.string s.listenAddress) ::
      .keyValue (ascii "listen_port") (.integer s.listenPort.toNat) ::
      .keyValue (ascii "routing_algorithm") (.string s.routingAlgorithm) :: numberLines s := by
  rw [beforeName, List.append_assoc]
  rfl

theorem wellFormed_beforeName {s : AppSettings} (hs : s.IsUtf8)
    (hp : ∀ c ∈ s.configFilePath, isPlain c = true) : ∀ l ∈ s.beforeName, l.WellFormed := by
  simp only [beforeName, List.forall_mem_append, List.forall_mem_cons]
  exact ⟨wellFormed_headLines, ⟨by decide, hs.configFilePath, hp⟩, wellFormed_defaultsLines⟩

/-! ### Reading the document -/

inductive StringField
  | name
  | listenAddress
  | routingAlgorithm

namespace StringField

def key : StringField → Bytes
  | .name => ascii "name"
  | .listenAddress => ascii "listen_address"
  | .routingAlgorithm => ascii "routing_algorithm"

def stored (s : AppSettings) : StringField → Bytes
  | .name => s.name
  | .listenAddress => s.listenAddress
  | .routingAlgorithm => s.routingAlgorithm

end StringField

theorem uint16Or_some (v old : UInt16) :
    uint16Or (some (Int64.ofNat v.toNat)) old = v := by
  refine UInt16.toNat_inj.mp ?_
  rw [uint16Or_toNat, Option.map_some, Option.getD_some, castTo_ofNat (by decide) v.toNat_lt]

theorem uint32Or_some (v old : UInt32) :
    uint32Or (some (Int64.ofNat v.toNat)) old = v := by
  refine UInt32.toNat_inj.mp ?_
  rw [uint32Or_toNat, Option.map_some, Option.getD_some, castTo_ofNat (by decide) v.toNat_lt]

section

variable {N : Type} {T : TomlPlusPlus N} {n : N} {s : AppSettings}

/-- **Reading the document sets all twelve fields.** -/
theorem readTable_lines (h : T.Reads s.lines n) (prior : AppSettings) :
    readTable T n prior = s := by
  have htables : tables s.lines = paths.take 3 := rfl
  have hvalues : ∀ a ∈ assignments [] s.lines, T.ReadsValue (T.view n a.1) a.2 := h.value
  have hassign : assignments [] s.lines = (paths.drop 3).zip
    [.string s.configFilePath, .string s.name, .string s.listenAddress,
      .integer s.listenPort.toNat, .string s.routingAlgorithm,
      .boolean s.healthCheckEnabled, .integer s.healthCheckIntervalMs.toNat,
      .integer s.healthCheckTimeoutMs.toNat, .integer s.healthCheckUnhealthyThreshold.toNat,
      .integer s.maxPerService.toNat, .integer s.idleTimeoutMs.toNat,
      .integer s.connectTimeoutMs.toNat] := rfl
  have hisTable := h.isTable
  rw [htables] at hisTable
  rw [hassign] at hvalues
  simp only [paths, List.cons_append, List.nil_append, List.take, List.drop, List.zip_cons_cons,
    List.zip_nil_left, List.forall_mem_cons, TomlPlusPlus.ReadsValue, TomlPlusPlus.view,
    List.foldl_cons, List.foldl_nil] at hisTable hvalues
  obtain ⟨hd, hhc, hconn, -⟩ := hisTable
  obtain ⟨h1, h2, h3, h4, h5, h6, h7, h8, h9, h10, h11, h12, -⟩ := hvalues
  simp only [readTable, hd, hhc, hconn, if_true, readDefaults, readHealthCheck, readConnection,
    h1, h2, h3, h4, h5, h6, h7, h8, h9, h10, h11, h12, Option.getD_some, uint16Or_some,
    uint32Or_some]

/-! ### What a library that reads everything back says of the strings -/

theorem configFilePath_readTable (prior : AppSettings) :
    (readTable T n prior).configFilePath =
      (T.valueString (T.get n (ascii "config_file_path"))).getD prior.configFilePath := by
  simp only [readTable]
  split <;> split <;> split <;> rfl

theorem string_readTable (prior : AppSettings) (f : StringField) :
    f.stored (readTable T n prior) = if T.isTable (T.get n (ascii "defaults")) then
      (T.valueString (T.get (T.get n (ascii "defaults")) f.key)).getD (f.stored prior)
      else f.stored prior := by
  simp only [readTable]
  cases f <;> split <;> split <;> split <;> rfl

/-- **What is loaded is text**, if the library gives text only. -/
theorem isUtf8_readTable {prior : AppSettings}
    (hT : ∀ view v, T.valueString view = some v → Toml.IsUtf8 v) (h : prior.IsUtf8) :
    (readTable T n prior).IsUtf8 := by
  have hgetD : ∀ (view : N) {old : Bytes}, Toml.IsUtf8 old →
      Toml.IsUtf8 ((T.valueString view).getD old) := by
    intro view old hold
    cases hv : T.valueString view with
    | none => exact hold
    | some v => exact hT view v hv
  have hif : ∀ (b : Bool) {v old : Bytes}, Toml.IsUtf8 v → Toml.IsUtf8 old →
      Toml.IsUtf8 (if b then v else old) := by
    intro b v old hv hold
    cases b
    · exact hold
    · exact hv
  have hstring : ∀ f : StringField, Toml.IsUtf8 (f.stored prior) →
      Toml.IsUtf8 (f.stored (readTable T n prior)) := by
    intro f hf
    rw [string_readTable]
    exact hif _ (hgetD _ hf) hf
  refine ⟨?_, hstring .name h.name, hstring .listenAddress h.listenAddress,
    hstring .routingAlgorithm h.routingAlgorithm⟩
  rw [configFilePath_readTable]
  exact hgetD _ h.configFilePath

/-- What does not depend on the old value was in the file. -/
theorem eq_some_of_getD {isTable : Bool} {o : Option Bytes} {v : Bytes}
    (h : ∀ old, (if isTable then o.getD old else old) = v) : o = some v := by
  have hne : (([] : Bytes) = v) → ¬ ([0] : Bytes) = v := by
    rintro rfl hv
    cases hv
  cases isTable with
  | false => exact absurd (h [0]) (hne (h []))
  | true =>
    cases o with
    | none => exact absurd (h [0]) (hne (h []))
    | some v' => exact congrArg some (h [])

/-- **Settings that are read back whatever the old ones were are plain**: one
string after the other, since the parser comes to them in this order. -/
theorem plain_of_reads (hT : T.Conforms (render s.lines))
    (hparse : T.parse (render s.lines) = some n) (hread : ∀ prior, readTable T n prior = s)
    (hs : s.IsUtf8) : s.Plain := by
  have hpath : ∀ c ∈ s.configFilePath, isPlain c = true := by
    refine TomlPlusPlus.Conforms.plain headLines (ascii "config_file_path") 10 hT hparse
      wellFormed_headLines (by decide) rfl (by decide) (by decide) (by decide) ?_
    exact @eq_some_of_getD true _ _ fun old =>
      (configFilePath_readTable { configFilePath := old }).symm.trans
        (congrArg configFilePath (hread _))
  rw [lines_eq] at hT hparse
  have hpre := wellFormed_beforeName hs hpath
  have hname : ∀ c ∈ s.name, isPlain c = true := by
    refine TomlPlusPlus.Conforms.plain s.beforeName (ascii "name") 108 hT hparse hpre (by decide)
      rfl (by decide) (by decide) (by decide) ?_
    exact eq_some_of_getD fun old =>
      (string_readTable { name := old } .name).symm.trans (congrArg name (hread _))
  rw [List.append_cons] at hT hparse
  have hpre : ∀ l ∈ s.beforeName ++ [.keyValue (ascii "name") (.string s.name)],
      l.WellFormed :=
    List.forall_mem_append.mpr ⟨hpre, List.forall_mem_singleton.mpr ⟨by decide, hs.name, hname⟩⟩
  have haddress : ∀ c ∈ s.listenAddress, isPlain c = true := by
    refine TomlPlusPlus.Conforms.plain _ (ascii "listen_address") 108 hT hparse hpre (by decide)
      rfl (by decide) (by decide) (by decide) ?_
    exact eq_some_of_getD fun old =>
      (string_readTable { listenAddress := old } .listenAddress).symm.trans
        (congrArg listenAddress (hread _))
  rw [List.append_cons, List.append_cons] at hT hparse
  have halgorithm : ∀ c ∈ s.routingAlgorithm, isPlain c = true := by
    refine TomlPlusPlus.Conforms.plain _ (ascii "routing_algorithm") 10 hT hparse ?_ (by decide)
      rfl (by decide) (by decide) (by decide) ?_
    · refine List.forall_mem_append.mpr ⟨List.forall_mem_append.mpr ⟨hpre, ?_⟩, ?_⟩
      · exact List.forall_mem_singleton.mpr ⟨by decide, hs.listenAddress, haddress⟩
      · exact List.forall_mem_singleton.mpr
          ⟨by decide, Nat.lt_trans s.listenPort.toNat_lt (by decide)⟩
    · exact eq_some_of_getD fun old =>
        (string_readTable { routingAlgorithm := old } .routingAlgorithm).symm.trans
          (congrArg routingAlgorithm (hread _))
  exact ⟨hpath, hname, haddress, halgorithm⟩

end

/-! ### The round trip -/

/-- `SaveToFile` writes a file from which `LoadFromFile` sets any settings to the
saved ones. -/
def RoundTrips {N : Type} (T : TomlPlusPlus N) (disk : Disk) (files : Files) (s : AppSettings)
    (filePath : Bytes) : Prop :=
  (saveToFile disk files s filePath).1 = true ∧
    ∀ prior, loadFromFile T disk (saveToFile disk files s filePath).2 prior filePath =
      (true, s, (saveToFile disk files s filePath).2)

theorem roundTrips_iff {N : Type} {T : TomlPlusPlus N} {disk : Disk} {files : Files}
    {s : AppSettings} {filePath : Bytes} (hopen : disk.canOpen filePath = true)
    (hwritten : disk.written filePath s.text = s.text) : RoundTrips T disk files s filePath ↔
      ∃ n, T.parse (render s.lines) = some n ∧ ∀ prior, readTable T n prior = s := by
  have hsave : saveToFile disk files s filePath =
      (true, Function.update files filePath (some s.text)) := by
    rw [saveToFile, hopen, hwritten]
    rfl
  rw [RoundTrips, hsave]
  simp only [loadFromFile, Function.update_self, true_and]
  rw [← text_eq]
  cases T.parse s.text with
  | none =>
    refine ⟨fun h => absurd (h {}) (by simp), fun h => ?_⟩
    obtain ⟨n, hn, -⟩ := h
    cases hn
  | some n => simp

theorem isUtf8_default : IsUtf8 {} :=
  ⟨⟨"bitbridge-config.yaml".toList, by decide⟩,
    ⟨"my-bit-bridge-lb".toList, by decide⟩, ⟨"0.0.0.0".toList, by decide⟩,
    ⟨"p2c".toList, by decide⟩⟩

theorem plain_default : Plain {} :=
  ⟨List.all_eq_true.mp (by decide), List.all_eq_true.mp (by decide),
    List.all_eq_true.mp (by decide), List.all_eq_true.mp (by decide)⟩

def workingDisk : Disk := ⟨fun _ => true, fun _ => true, fun _ => true, fun _ text => text⟩

/-- **The round trip of the settings**, for a TOML library that treats the saved
text as the format says: it holds exactly for plain strings. -/
theorem settings_round_trip {N : Type} (T : TomlPlusPlus N) {disk : Disk} (files : Files)
    {s : AppSettings} {filePath : Bytes} (hopen : disk.canOpen filePath = true)
    (hwritten : disk.written filePath s.text = s.text) (hs : s.IsUtf8) (hT : T.Conforms s.text) :
    RoundTrips T disk files s filePath ↔ s.Plain := by
  rw [text_eq] at hT
  rw [roundTrips_iff hopen hwritten]
  constructor
  · rintro ⟨n, hparse, hread⟩
    exact plain_of_reads hT hparse hread hs
  · intro hp
    obtain ⟨n, hparse, hreads⟩ := hT.accepts s.lines (wellFormed_lines hs hp) rfl
    exact ⟨n, hparse, readTable_lines hreads⟩

/-- Settings without a default, with a library that knows the text saved for them. -/
theorem settings_round_trip_edge :
    let s : AppSettings :=
      { configFilePath := ascii "conf/lb.yaml", name := ascii "edge lb",
        listenAddress := ascii "127.0.0.1", listenPort := 9090,
        routingAlgorithm := ascii "consistent-hash", healthCheckEnabled := false,
        healthCheckIntervalMs := 250, healthCheckTimeoutMs := 100,
        healthCheckUnhealthyThreshold := 5, maxPerService := 4294967295, idleTimeoutMs := 0,
        connectTimeoutMs := 1 }
    RoundTrips (ofLines s.lines) workingDisk (fun _ => none) s
      (ascii "bitbridge-settings.toml") := by
  intro s
  have hs : s.IsUtf8 :=
    ⟨⟨"conf/lb.yaml".toList, by decide⟩, ⟨"edge lb".toList, by decide⟩,
      ⟨"127.0.0.1".toList, by decide⟩, ⟨"consistent-hash".toList, by decide⟩⟩
  have hplain : s.Plain :=
    ⟨List.all_eq_true.mp (by decide), List.all_eq_true.mp (by decide),
      List.all_eq_true.mp (by decide), List.all_eq_true.mp (by decide)⟩
  have hconforms := ofLines_conforms (wellFormed_lines hs hplain)
  rw [← text_eq] at hconforms
  exact (settings_round_trip (ofLines s.lines) _ rfl rfl hs hconforms).mpr hplain

/-! ### A name with a quote -/

/-- `name = "a\"b"`, in the table of the defaults. -/
def quoteText : Bytes := ascii "[defaults]\nname = \"a\\\"b\"\n"

def quoteLibrary : TomlPlusPlus (List Bytes) where
  parse text := if text = quoteText then some [] else none
  get path key := path ++ [key]
  isTable path := path = [ascii "defaults"]
  valueString path := if path = [ascii "defaults", ascii "name"] then some (ascii "a\"b") else none
  valueInteger _ := none
  valueBool _ := none

def quoteSettings : AppSettings := { name := ascii "a\"b" }

theorem isUtf8_quoteSettings : quoteSettings.IsUtf8 :=
  ⟨isUtf8_default.configFilePath, ⟨"a\"b".toList, by decide⟩, isUtf8_default.listenAddress,
    isUtf8_default.routingAlgorithm⟩

/-- The text that is saved for the name is no document of well-formed lines: its
string would end at the quote, and the line with it. -/
theorem render_ne_quoteSettings {lines' : List Line} (h : ∀ l ∈ lines', l.WellFormed) :
    render lines' ≠ render quoteSettings.lines := by
  intro heq
  have hpre : ∀ l ∈ quoteSettings.beforeName, l.WellFormed :=
    wellFormed_beforeName isUtf8_quoteSettings plain_default.configFilePath
  have hsplit : render quoteSettings.lines = render quoteSettings.beforeName ++
      (ascii "name" ++ 32 :: 61 :: 32 :: 34 :: (ascii "a" ++ 34 :: 98 :: 34 :: 10 ::
        render (quoteSettings.lines.drop 9))) := render_append quoteSettings.beforeName _
  obtain ⟨raw, rest, -, hraw, hplain⟩ :=
    plain_of_render hpre h (by decide) (heq.trans hsplit)
  have hquote : (34 : UInt8) ∉ raw := fun hq => absurd (hplain 34 hq) (by decide)
  obtain ⟨-, htail⟩ := append_cons_inj (by decide) hquote hraw
  cases htail

/-- **A name with a quote**: it is loaded from a valid file, and the file that is
saved for it is not accepted. -/
theorem name_with_quote : ¬ ∀ (T : TomlPlusPlus (List Bytes)) (disk : Disk) (files : Files)
    (s : AppSettings) (filePath : Bytes), disk.canOpen filePath = true →
      (∀ text, disk.written filePath text = text) →
      (loadFromFile T disk files {} filePath).1 = true →
      (loadFromFile T disk files {} filePath).2.1 = s → s.IsUtf8 → T.Conforms s.text →
        RoundTrips T disk files s filePath := by
  intro h
  have hnone : quoteLibrary.parse quoteSettings.text = none := by decide +kernel
  have hconforms : quoteLibrary.Conforms quoteSettings.text := by
    constructor
    · intro lines' h' heq
      exact absurd (heq.trans (text_eq quoteSettings)) (render_ne_quoteSettings h'.line)
    · intro pre key rest n _ _ _ hparse
      rw [hnone] at hparse
      cases hparse
  have hround := h quoteLibrary workingDisk (fun _ => some quoteText) quoteSettings [] rfl
    (fun _ => rfl) (by decide +kernel) (by decide +kernel) isUtf8_quoteSettings hconforms
  obtain ⟨n, hparse, -⟩ := (roundTrips_iff (s := quoteSettings) rfl rfl).mp hround
  rw [← text_eq, hnone] at hparse
  cases hparse

end AppSettings

end BitBridge
