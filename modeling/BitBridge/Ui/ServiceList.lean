import BitBridge.Ui.RemoveSelection
import BitBridge.Ui.Startup

/-!
# What the window shows

`RefreshServiceList` (`ui/MainFrame.cpp`) gives the list a row for each service.
A handler calls it after it has changed the configuration, and `OnRemoveService`
takes the rows that are selected for the services to remove.  `Window` is a
`Desktop` with the widgets that the handlers read and set: the list, its label,
the label of the status bar and the four inputs.

`LoadExistingConfig` does not refresh the list when the load fails, and what
`Load` set before the error stays in the configuration.

* `toDesktop_step`: a step of the window is one of the `Desktop`, or hidden from it.
* `Shows`, `Unseen`: the list shows the services, or it shows none of what a
  failed load has left.
* `window_shows`: **every window of a run is one or the other.**
-/

namespace BitBridge

open Steps Yaml YamlConfigSerializer Positions

structure Row where
  name : Bytes
  ip : Bytes
  port : Bytes
  weight : Bytes
  isSelected : Bool
  deriving DecidableEq, Repr

namespace Row

/-- The row that `RefreshServiceList` inserts. -/
def ofService (service : ServiceNode) : Row :=
  ⟨service.name, service.ip, decimal service.port.toNat, decimal service.weight.toNat, false⟩

def deselect (r : Row) : Row := { r with isSelected := false }

@[simp] theorem deselect_ofService (service : ServiceNode) :
    (ofService service).deselect = ofService service := rfl

end Row

inductive Input
  | name
  | ip
  | port
  | weight
  deriving DecidableEq, Repr

structure Window extends Desktop where
  serviceList : List Row
  emptyLabel : Bool
  unsavedLabel : Bool
  nameInput : Bytes
  ipInput : Bytes
  portInput : Bytes
  weightInput : Bytes

namespace Window

variable {N : Type} {W : Editor N} {s t : Window}

def messageBox (s : Window) (box : MainFrame.MessageBox) : Window :=
  { s with frame := s.frame.messageBox box }

def setConfig (s : Window) (config : LoadBalancerConfig) : Window :=
  { s with frame := { s.frame with config := config } }

/-- `MainFrame::RefreshServiceList`; new rows are not selected. -/
def refreshServiceList (s : Window) : Window :=
  { s with
    serviceList := s.frame.config.services.map Row.ofService
    emptyLabel := s.frame.config.services.isEmpty }

def markUnsaved (s : Window) : Window :=
  { s with frame := { s.frame with hasUnsavedChanges := true }, unsavedLabel := true }

def markSaved (s : Window) : Window :=
  { s with frame := { s.frame with hasUnsavedChanges := false }, unsavedLabel := false }

def onAddService (toULong : Bytes → Option UInt64) (s : Window) : Window :=
  match MainFrame.validateInput toULong s.nameInput s.ipInput s.portInput s.weightInput with
  | some box => s.messageBox box
  | none =>
    let portVal := (toULong s.portInput).getD 0
    let weightVal := (toULong s.weightInput).getD 1
    match s.frame.config.services.findSome?
        (MainFrame.duplicate s.nameInput s.ipInput portVal) with
    | some box => s.messageBox box
    | none =>
      let service := ⟨s.nameInput, s.ipInput, portVal.toUInt16, weightVal.toUInt16⟩
      { (s.setConfig (s.frame.config.addService service)).refreshServiceList.markUnsaved with
        nameInput := []
        ipInput := []
        portInput := []
        weightInput := ascii "1" }

/-- The rows that `GetNextItem` finds, in order. -/
def selected (s : Window) : List Nat :=
  (List.range s.serviceList.length).filter fun i => s.serviceList[i]?.any Row.isSelected

def onRemoveService (s : Window) : Window :=
  if s.selected = [] then
    s.messageBox ⟨ascii "Please select one or more services to remove.", ascii "No Selection",
      .information⟩
  else
    (s.setConfig (s.selected.reverse.foldl LoadBalancerConfig.removeService
      s.frame.config)).refreshServiceList.markUnsaved

def onLoadConfig (Y : YamlCpp N) (configPath : Bytes) (s : Window) : Window :=
  if s.files configPath = none then
    s.messageBox ⟨ascii "Configuration file not found: " ++ configPath, ascii "Load Error",
      .warning⟩
  else
    match load Y s.files {} configPath with
    | (.ok (), newConfig) => (s.setConfig newConfig).refreshServiceList.markSaved
    | (.error _, _) =>
      s.messageBox ⟨ascii "Failed to parse configuration file.", ascii "Load Error", .error⟩

def onSaveConfig (Y : YamlCpp N) (configPath : Bytes) (disk : Disk) (s : Window) : Window :=
  match save Y disk s.files s.frame.config configPath with
  | (.returned (.ok ()), files) => { s.markSaved with files := files, ours := true }
  | (.returned (.error _), files) =>
    { s.messageBox ⟨ascii "Failed to save configuration file.", ascii "Save Error", .error⟩ with
      files := files }
  | (.threw, files) => { s with files := files }

/-- `MainFrame::LoadExistingConfig`; what `Load` set before an error stays. -/
def loadExistingConfig (Y : YamlCpp N) (configPath : Bytes) (s : Window) : Window :=
  if s.files configPath = none then s
  else
    match load Y s.files s.frame.config configPath with
    | (.ok (), config) => (s.setConfig config).refreshServiceList.markSaved
    | (.error _, config) => s.setConfig config

/-- The constructor of `MainFrame`, up to `LoadExistingConfig`. -/
def opened (files : Files) (settings : AppSettings) : Window where
  frame := ⟨settings.applyDefaultConfig {}, false, []⟩
  files := files
  ours := false
  serviceList := []
  emptyLabel := true
  unsavedLabel := false
  nameInput := []
  ipInput := []
  portInput := []
  weightInput := ascii "1"

def new (Y : YamlCpp N) (files : Files) (settings : AppSettings) : Window :=
  (opened files settings).loadExistingConfig Y settings.configFilePath

def type (s : Window) (text : Bytes) : Input → Window
  | .name => { s with nameInput := text }
  | .ip => { s with ipInput := text }
  | .port => { s with portInput := text }
  | .weight => { s with weightInput := text }

inductive Event
  | type (text : Bytes) (input : Input)
  | select (row : Nat) (isSelected : Bool)
  | addService
  | removeService
  | saveConfig (disk : Disk)
  | loadConfig
  | write (path : Bytes) (contents : Option Bytes)

def step (W : Editor N) (s : Window) : Event → Option Window
  | .type text input => some (s.type text input)
  | .select row isSelected =>
    if row < s.serviceList.length then
      some { s with
        serviceList := s.serviceList.modify row fun r => { r with isSelected := isSelected } }
    else none
  | .addService => some (s.onAddService W.toULong)
  | .removeService => some s.onRemoveService
  | .saveConfig disk => some (s.onSaveConfig W.Y W.configPath disk)
  | .loadConfig => some (s.onLoadConfig W.Y W.configPath)
  | .write path contents =>
    some { s with
      files := Function.update s.files path contents
      ours := s.ours && path ≠ W.configPath }

/-! ### What the list shows -/

/-- The list has a row for each service, and the label is there when there is none. -/
structure Shows (s : Window) : Prop where
  rows : s.serviceList.map Row.deselect = s.frame.config.services.map Row.ofService
  emptyLabel : s.emptyLabel = s.frame.config.services.isEmpty

/-- The load at the opening has failed, and the list shows nothing of what it
has left in the configuration. -/
structure Unseen (Y : YamlCpp N) (files : Files) (settings : AppSettings) (s : Window) :
    Prop where
  failed : ∃ what, load Y files (settings.applyDefaultConfig {}) settings.configFilePath =
    (.error what, s.frame.config)
  rows : s.serviceList = []
  emptyLabel : s.emptyLabel = true

/-- Neither the services nor the list are changed. -/
structure SameList (s t : Window) : Prop where
  config : t.frame.config = s.frame.config
  rows : t.serviceList.map Row.deselect = s.serviceList.map Row.deselect
  emptyLabel : t.emptyLabel = s.emptyLabel

theorem SameList.shows (hc : s.SameList t) (h : s.Shows) : t.Shows where
  rows := by rw [hc.rows, hc.config, h.rows]
  emptyLabel := by rw [hc.emptyLabel, hc.config, h.emptyLabel]

theorem SameList.unseen {Y : YamlCpp N} {files : Files} {settings : AppSettings}
    (hc : s.SameList t) (h : s.Unseen Y files settings) : t.Unseen Y files settings where
  failed := by rw [hc.config]; exact h.failed
  rows := by
    have hrows := hc.rows
    rw [h.rows, List.map_nil] at hrows
    exact List.map_eq_nil_iff.mp hrows
  emptyLabel := hc.emptyLabel.trans h.emptyLabel

theorem shows_refreshServiceList (s : Window) : s.refreshServiceList.Shows where
  rows := by
    simp only [refreshServiceList, List.map_map]
    rfl
  emptyLabel := rfl

theorem length_le (h : s.Shows ∨ s.serviceList = []) :
    s.serviceList.length ≤ s.frame.config.services.length := by
  rcases h with h | h
  · have hlength := congrArg List.length h.rows
    rw [List.length_map, List.length_map] at hlength
    exact Nat.le_of_eq hlength
  · rw [h]
    exact Nat.zero_le _

/-! ### One handler -/

/-- The label of the status bar is there when the flag is set. -/
def Labelled (s : Window) : Prop := s.unsavedLabel = s.frame.hasUnsavedChanges

/-- **What a handler does to the list**: nothing, or it is what the configuration
says. -/
theorem step_list {e : Event} (hs : s.step W e = some t) : s.SameList t ∨ t.Shows := by
  have hsame : s.SameList s := ⟨rfl, rfl, rfl⟩
  cases e with
  | type text input =>
    obtain rfl := Option.some.inj hs
    cases input <;> exact .inl ⟨rfl, rfl, rfl⟩
  | select row isSelected =>
    rw [step, Option.ite_none_right_eq_some] at hs
    obtain ⟨-, hs⟩ := hs
    obtain rfl := Option.some.inj hs
    refine .inl ⟨rfl, ?_, rfl⟩
    refine List.ext_getElem? fun i => ?_
    rw [List.getElem?_map, List.getElem?_map, List.getElem?_modify]
    cases s.serviceList[i]? with
    | none => rfl
    | some r => by_cases hi : row = i <;> simp [hi, Row.deselect]
  | addService =>
    obtain rfl := Option.some.inj hs
    unfold onAddService
    split
    · exact .inl ⟨rfl, rfl, rfl⟩
    · dsimp only
      split
      · exact .inl ⟨rfl, rfl, rfl⟩
      · exact .inr ⟨(shows_refreshServiceList _).rows, (shows_refreshServiceList _).emptyLabel⟩
  | removeService =>
    obtain rfl := Option.some.inj hs
    unfold onRemoveService
    split
    · exact .inl ⟨rfl, rfl, rfl⟩
    · exact .inr ⟨(shows_refreshServiceList _).rows, (shows_refreshServiceList _).emptyLabel⟩
  | saveConfig =>
    obtain rfl := Option.some.inj hs
    unfold onSaveConfig
    split <;> exact .inl ⟨rfl, rfl, rfl⟩
  | loadConfig =>
    obtain rfl := Option.some.inj hs
    unfold onLoadConfig
    split
    · exact .inl ⟨rfl, rfl, rfl⟩
    · split
      · exact .inr ⟨(shows_refreshServiceList _).rows, (shows_refreshServiceList _).emptyLabel⟩
      · exact .inl ⟨rfl, rfl, rfl⟩
  | write path contents =>
    obtain rfl := Option.some.inj hs
    exact .inl ⟨rfl, rfl, rfl⟩

theorem Labelled.step {e : Event} (h : s.Labelled) (hs : s.step W e = some t) : t.Labelled := by
  cases e with
  | type text input =>
    obtain rfl := Option.some.inj hs
    cases input <;> exact h
  | select row isSelected =>
    rw [Window.step, Option.ite_none_right_eq_some] at hs
    obtain ⟨-, hs⟩ := hs
    obtain rfl := Option.some.inj hs
    exact h
  | addService =>
    obtain rfl := Option.some.inj hs
    unfold onAddService
    split
    · exact h
    · dsimp only
      split
      · exact h
      · rfl
  | removeService =>
    obtain rfl := Option.some.inj hs
    unfold onRemoveService
    split
    · exact h
    · rfl
  | saveConfig =>
    obtain rfl := Option.some.inj hs
    unfold onSaveConfig
    split
    · rfl
    · exact h
    · exact h
  | loadConfig =>
    obtain rfl := Option.some.inj hs
    unfold onLoadConfig
    split
    · exact h
    · split
      · rfl
      · exact h
  | write path contents =>
    obtain rfl := Option.some.inj hs
    exact h

/-! ### The window as a `Desktop` -/

theorem selected_eq (hle : s.serviceList.length ≤ s.frame.config.services.length) :
    ((List.range s.frame.config.services.length).filter fun i =>
      (s.serviceList.map Row.isSelected).getD i false) = s.selected := by
  rw [selected, ← filter_range_of_le hle]
  refine List.filter_congr fun i _ => ?_
  rw [List.getD_eq_getElem?_getD, List.getElem?_map]
  cases s.serviceList[i]? <;> rfl

theorem toDesktop_onAddService (toULong : Bytes → Option UInt64) (s : Window) :
    (s.onAddService toULong).toDesktop = { s.toDesktop with
      frame := s.frame.onAddService toULong s.nameInput s.ipInput s.portInput s.weightInput } := by
  unfold onAddService MainFrame.onAddService
  cases MainFrame.validateInput toULong s.nameInput s.ipInput s.portInput s.weightInput with
  | some box => rfl
  | none =>
    dsimp only
    cases s.frame.config.services.findSome?
      (MainFrame.duplicate s.nameInput s.ipInput ((toULong s.portInput).getD 0)) <;> rfl

theorem toDesktop_onRemoveService
    (hle : s.serviceList.length ≤ s.frame.config.services.length) :
    s.onRemoveService.toDesktop = { s.toDesktop with
      frame := s.frame.onRemoveService (s.serviceList.map Row.isSelected) } := by
  unfold onRemoveService MainFrame.onRemoveService
  rw [selected_eq hle]
  dsimp only
  split <;> rfl

theorem toDesktop_onLoadConfig (Y : YamlCpp N) (configPath : Bytes) (s : Window) :
    (s.onLoadConfig Y configPath).toDesktop =
      { s.toDesktop with frame := s.frame.onLoadConfig Y configPath s.files } := by
  unfold onLoadConfig MainFrame.onLoadConfig
  split
  · rfl
  · rcases load Y s.files {} configPath with ⟨_ | _, config⟩ <;> rfl

/-- **A handler of the window is one of the `Desktop`**, or the `Desktop` does
not see it. -/
theorem toDesktop_step {e : Event}
    (hle : s.serviceList.length ≤ s.frame.config.services.length) (hs : s.step W e = some t) :
    t.toDesktop = s.toDesktop ∨ ∃ e', Desktop.step W s.toDesktop e' = some t.toDesktop := by
  cases e with
  | type text input =>
    obtain rfl := Option.some.inj hs
    cases input <;> exact .inl rfl
  | select row isSelected =>
    rw [step, Option.ite_none_right_eq_some] at hs
    obtain ⟨-, hs⟩ := hs
    obtain rfl := Option.some.inj hs
    exact .inl rfl
  | addService =>
    obtain rfl := Option.some.inj hs
    exact .inr ⟨.addService .., congrArg some (toDesktop_onAddService _ s).symm⟩
  | removeService =>
    obtain rfl := Option.some.inj hs
    exact .inr ⟨.removeService _, congrArg some (toDesktop_onRemoveService hle).symm⟩
  | saveConfig disk =>
    obtain rfl := Option.some.inj hs
    refine .inr ⟨.saveConfig disk, congrArg some ?_⟩
    unfold onSaveConfig MainFrame.onSaveConfig Desktop.writes
    dsimp only
    rcases save W.Y disk s.files s.frame.config W.configPath with ⟨(what | _) | _, files⟩
    · simp [messageBox]
    · simp [markSaved]
    · simp
  | loadConfig =>
    obtain rfl := Option.some.inj hs
    exact .inr ⟨.loadConfig, congrArg some (toDesktop_onLoadConfig ..).symm⟩
  | write path contents =>
    obtain rfl := Option.some.inj hs
    exact .inr ⟨.write path contents, rfl⟩

/-! ### Every run -/

theorem toDesktop_loadExistingConfig (Y : YamlCpp N) (configPath : Bytes) (s : Window) :
    (s.loadExistingConfig Y configPath).toDesktop =
      { s.toDesktop with frame := s.frame.loadExistingConfig Y s.files configPath } := by
  unfold loadExistingConfig MainFrame.loadExistingConfig
  split
  · rfl
  · rcases load Y s.files s.frame.config configPath with ⟨_ | _, config⟩ <;> rfl

theorem toDesktop_new (Y : YamlCpp N) (files : Files) (settings : AppSettings) :
    (new Y files settings).toDesktop =
      Desktop.start (MainFrame.new Y files settings).config files := by
  rw [Desktop.start, ← MainFrame.new_eq]
  exact toDesktop_loadExistingConfig ..

theorem shows_new (Y : YamlCpp N) (files : Files) (settings : AppSettings) :
    (new Y files settings).Shows ∨ (new Y files settings).Unseen Y files settings := by
  unfold new loadExistingConfig
  split
  · exact .inl ⟨rfl, rfl⟩
  · split
    · exact .inl ⟨(shows_refreshServiceList _).rows, (shows_refreshServiceList _).emptyLabel⟩
    · next what config hload => exact .inr ⟨⟨what, hload⟩, rfl, rfl⟩

theorem labelled_new (Y : YamlCpp N) (files : Files) (settings : AppSettings) :
    (new Y files settings).Labelled := by
  unfold new loadExistingConfig
  split
  · rfl
  · split <;> rfl

theorem rows_removeService (h : s.Shows ∨ s.serviceList = []) :
    s.onRemoveService.serviceList.map Row.deselect =
        (s.serviceList.filter fun r => !r.isSelected).map Row.deselect ∧
      s.onRemoveService.frame.config = { s.frame.config with
        services := unselected s.selected s.frame.config.services } := by
  have hrest : unselected s.selected s.serviceList = s.serviceList.filter fun r => !r.isSelected :=
    unselected_filter_range Row.isSelected s.serviceList
  unfold onRemoveService
  split
  · next hnone =>
    rw [hnone, unselected_nil] at hrest
    rw [hnone, unselected_nil, ← hrest]
    exact ⟨rfl, rfl⟩
  · next hsome =>
    have hpair : s.selected.Pairwise (· < ·) := List.pairwise_lt_range.filter _
    have hremove := LoadBalancerConfig.foldl_removeService hpair s.frame.config
    have hrows : s.serviceList.map Row.deselect = s.frame.config.services.map Row.ofService := by
      rcases h with h | h
      · exact h.rows
      · refine absurd ?_ hsome
        rw [selected, h]
        rfl
    refine ⟨?_, hremove⟩
    calc (s.setConfig (s.selected.reverse.foldl LoadBalancerConfig.removeService
          s.frame.config)).refreshServiceList.serviceList.map Row.deselect
        = (unselected s.selected s.frame.config.services).map Row.ofService := by
          rw [(shows_refreshServiceList _).rows, hremove]
          rfl
      _ = unselected s.selected (s.serviceList.map Row.deselect) := by
          rw [hrows, unselected_map]
      _ = (s.serviceList.filter fun r => !r.isSelected).map Row.deselect := by
          rw [unselected_map, hrest]

/-- **What the window shows.**  Open a window on any files with any settings, and
let its user and other programs do anything.  The list has a row for each service
of the configuration, or the load at the opening has failed and neither the list
nor what that load left was changed since.  "Unsaved Changes" is there when the
flag is set, removing takes away exactly the rows that are selected, and the run
is one of the `Desktop`. -/
theorem window_shows {files : Files} {settings : AppSettings}
    (h : Reaches (step W) (new W.Y files settings) s) :
    (s.Shows ∨ s.Unseen W.Y files settings) ∧
    s.unsavedLabel = s.frame.hasUnsavedChanges ∧
    (∀ t, s.step W .removeService = some t →
      t.serviceList.map Row.deselect =
        (s.serviceList.filter fun r => !r.isSelected).map Row.deselect ∧
      t.frame.config = { s.frame.config with
        services := unselected s.selected s.frame.config.services }) ∧
    Reaches (Desktop.step W) (Desktop.start (MainFrame.new W.Y files settings).config files)
      s.toDesktop := by
  let I (s : Window) : Prop := s.Shows ∨ s.Unseen W.Y files settings
  have hlist : ∀ {s}, I s → s.Shows ∨ s.serviceList = [] := fun hi => hi.imp_right (·.rows)
  have hstep : ∀ {t u e}, I t → True → step W t e = some u → I u := by
    intro t u e hi _ hs
    rcases step_list hs with hsame | hshows
    · exact hi.imp hsame.shows hsame.unseen
    · exact .inl hshows
  have hshown : I s := h.invariant (shows_new ..) hstep
  refine ⟨hshown, ?_, ?_, ?_⟩
  · exact h.invariant (I := Labelled) (labelled_new ..) fun hi _ hs => hi.step hs
  · intro t ht
    obtain rfl := Option.some.inj ht
    exact rows_removeService (hlist hshown)
  · rw [← toDesktop_new]
    refine h.image toDesktop (I := I) (shows_new ..) hstep fun hi _ hs => ?_
    rcases toDesktop_step (length_le (hlist hi)) hs with heq | ⟨e', he'⟩
    · exact .inl heq
    · exact .inr ⟨e', trivial, he'⟩

/-- The port of the second service does not convert, and the first one is there
unseen until another service is added.  Then it is selected and removed. -/
theorem window_shows_unseen :
    let text := ascii "services:\n  - name: web-1\n  - port: http"
    let service (key value : String) : Node := .map [(ascii key, .scalar (.string (ascii value)))]
    let W : Editor (Option Node) :=
      ⟨YamlCpp.ofDocument (.map [(ascii "services",
          .sequence [service "name" "web-1", service "port" "http"])]) text,
        fun s => if s = ascii "80" then some 80 else if s = ascii "1" then some 1 else none,
        ascii "bitbridge-config.yaml"⟩
    let first := new W.Y (fun _ => some text) {}
    let added := Row.ofService { name := ascii "web-2", ip := ascii "10.0.0.2", port := 80 }
    first.frame.config.services = [{ name := ascii "web-1" }] ∧ first.serviceList = [] ∧
    ∃ s t, run (step W) first [.type (ascii "web-2") .name, .type (ascii "10.0.0.2") .ip,
        .type (ascii "80") .port, .addService, .select 0 true] = some s ∧
      s.step W .removeService = some t ∧ t.serviceList.map Row.deselect = [added] := by
  intro text service W first added
  refine ⟨by decide, rfl, ?_⟩
  have hrun : (run (step W) first [.type (ascii "web-2") .name, .type (ascii "10.0.0.2") .ip,
      .type (ascii "80") .port, .addService, .select 0 true]).map (fun s => s.serviceList) =
        some [{ Row.ofService { name := ascii "web-1" } with isSelected := true }, added] := by
    decide
  obtain ⟨s, hs, hlist⟩ := Option.map_eq_some_iff.mp hrun
  have hremove := (window_shows (reaches_of_run hs)).2.2.1 _ rfl
  rw [hlist] at hremove
  exact ⟨s, _, hs, rfl, hremove.1⟩

end Window

end BitBridge
