import BitBridge.Config.Serializer
import BitBridge.Config.ServiceNode
import BitBridge.Lib.Steps
import BitBridge.Routing.HashRing

/-!
# The configuration editor

`MainFrame` (`ui/MainFrame.cpp`) edits one configuration: it adds and removes
services, saves to the file of its settings and loads from it.  What the toolkit
gives is a parameter: the four inputs and the selected rows are arguments of the
handlers, and `toULong` is `wxString::ToULong`.  `Desktop` is the window with
the files, which others may write too; `ours` says of which files the last
writer was this window.

* `WellFormed`: what a configuration of the editor is.
* `sound_of_reachesIn`: **every configuration of a run is well formed**, as long
  as no save is cut short.
* `editor_config`: what that says, and what it means for a hash ring.
* `invalid_after_short_write`: a save that is cut short is loaded as it is.
-/

namespace BitBridge

open Steps Yaml

namespace MainFrame

inductive Icon
  | warning
  | information
  | error
  deriving DecidableEq, Repr

structure MessageBox where
  message : Bytes
  caption : Bytes
  icon : Icon
  deriving DecidableEq, Repr

end MainFrame

structure MainFrame where
  config : LoadBalancerConfig
  hasUnsavedChanges : Bool
  shown : List MainFrame.MessageBox

namespace MainFrame

def messageBox (s : MainFrame) (box : MessageBox) : MainFrame :=
  { s with shown := s.shown ++ [box] }

def validationError (message : String) : MessageBox :=
  ⟨ascii message, ascii "Validation Error", .warning⟩

section

variable (toULong : Bytes → Option UInt64)

/-- The number is there and is between 1 and 65535. -/
def inRange (s : Bytes) : Bool := (toULong s).any fun v => v ≠ 0 ∧ v ≤ 65535

/-- `MainFrame::ValidateInput`; `none` is `true`. -/
def validateInput (name ip port weight : Bytes) : Option MessageBox :=
  if name = [] then some (validationError "Service name cannot be empty.")
  else if ip = [] then some (validationError "IP address cannot be empty.")
  else if port = [] then some (validationError "Port cannot be empty.")
  else if ¬inRange toULong port then
    some (validationError "Port must be a number between 1 and 65535.")
  else if ¬inRange toULong weight then
    some (validationError "Weight must be a number between 1 and 65535.")
  else if ¬ServiceNode.isValid ⟨ascii "test", ip, ((toULong port).getD 0).toUInt16, 1⟩ then
    some (validationError "Invalid IP address format. Expected: x.x.x.x (0-255 per octet).")
  else none

/-- The duplicate check of `OnAddService`, for one service that is there. -/
def duplicate (name ip : Bytes) (portVal : UInt64) (existing : ServiceNode) : Option MessageBox :=
  if existing.name = name then
    some ⟨ascii "A service named '" ++ name ++ ascii "' already exists.",
      ascii "Duplicate Service", .warning⟩
  else if existing.ip = ip ∧ existing.port = portVal.toUInt16 then
    some ⟨ascii "A service with address " ++ ip ++ ascii ":" ++ decimal portVal.toNat
      ++ ascii " already exists.", ascii "Duplicate Service", .warning⟩
  else none

def onAddService (s : MainFrame) (name ip portStr weightStr : Bytes) : MainFrame :=
  match validateInput toULong name ip portStr weightStr with
  | some box => s.messageBox box
  | none =>
    let portVal := (toULong portStr).getD 0
    let weightVal := (toULong weightStr).getD 1
    match s.config.services.findSome? (duplicate name ip portVal) with
    | some box => s.messageBox box
    | none => { s with
        config := s.config.addService ⟨name, ip, portVal.toUInt16, weightVal.toUInt16⟩
        hasUnsavedChanges := true }

end

/-- `MainFrame::OnRemoveService`; the list has a row for each service. -/
def onRemoveService (s : MainFrame) (isSelected : List Bool) : MainFrame :=
  let selected := (List.range s.config.services.length).filter fun i => isSelected.getD i false
  if selected = [] then
    s.messageBox ⟨ascii "Please select one or more services to remove.", ascii "No Selection",
      .information⟩
  else { s with
    config := selected.reverse.foldl LoadBalancerConfig.removeService s.config
    hasUnsavedChanges := true }

section

variable {N : Type} (Y : YamlCpp N) (configPath : Bytes)

open YamlConfigSerializer

def onLoadConfig (files : Files) (s : MainFrame) : MainFrame :=
  if files configPath = none then
    s.messageBox ⟨ascii "Configuration file not found: " ++ configPath, ascii "Load Error",
      .warning⟩
  else
    match load Y files {} configPath with
    | (.ok (), newConfig) => { s with config := newConfig, hasUnsavedChanges := false }
    | (.error _, _) =>
      s.messageBox ⟨ascii "Failed to parse configuration file.", ascii "Load Error", .error⟩

/-- `MainFrame::OnSaveConfig`; an exception leaves the handler. -/
def onSaveConfig (disk : Disk) (files : Files) (s : MainFrame) : MainFrame × Files :=
  match save Y disk files s.config configPath with
  | (.returned (.ok ()), files) => ({ s with hasUnsavedChanges := false }, files)
  | (.returned (.error _), files) =>
    (s.messageBox ⟨ascii "Failed to save configuration file.", ascii "Save Error", .error⟩, files)
  | (.threw, files) => (s, files)

end

end MainFrame

/-! ### The window and the files -/

structure Editor (N : Type) where
  Y : YamlCpp N
  toULong : Bytes → Option UInt64
  configPath : Bytes

/-- The window and the files.  `ours` says that the window was the last one to
write the file of its settings. -/
structure Desktop where
  frame : MainFrame
  files : YamlConfigSerializer.Files
  ours : Bool

namespace Desktop

open YamlConfigSerializer

variable {N : Type} {W : Editor N} {node : Node → N} {s t : Desktop}

/-- What happens.  A save finds the disk as it is then. -/
inductive Event
  | addService (name ip portStr weightStr : Bytes)
  | removeService (isSelected : List Bool)
  | saveConfig (disk : Disk)
  | loadConfig
  | write (path : Bytes) (contents : Option Bytes)

def writes (W : Editor N) (disk : Disk) (s : Desktop) : Bool :=
  match save W.Y disk s.files s.frame.config W.configPath with
  | (.returned (.ok ()), _) => true
  | _ => false

def step (W : Editor N) (s : Desktop) : Event → Option Desktop
  | .addService name ip portStr weightStr =>
    some { s with frame := s.frame.onAddService W.toULong name ip portStr weightStr }
  | .removeService isSelected => some { s with frame := s.frame.onRemoveService isSelected }
  | .saveConfig disk =>
    let r := s.frame.onSaveConfig W.Y W.configPath disk s.files
    some ⟨r.1, r.2, s.ours || s.writes W disk⟩
  | .loadConfig => some { s with frame := s.frame.onLoadConfig W.Y W.configPath s.files }
  | .write path contents =>
    some { s with
      files := Function.update s.files path contents
      ours := s.ours && path ≠ W.configPath }

def start (config : LoadBalancerConfig) (files : Files) : Desktop :=
  ⟨⟨config, false, []⟩, files, false⟩

/-- The window loads a file only if it is its own, or if there is none; and the
parser returns what the emitter is given. -/
def Own (W : Editor N) (node : Node → N) (s : Desktop) : Event → Prop
  | .loadConfig => s.files W.configPath = none ∨ s.ours = true
  | .saveConfig _ => W.Y.RoundTrips node (document s.frame.config)
  | _ => True

/-- A save that gets to the write writes the whole document. -/
def Whole (W : Editor N) (s : Desktop) : Event → Prop
  | .saveConfig disk => ∀ text, W.Y.emit (document s.frame.config) = .ok text →
      disk.Opens W.configPath → disk.written W.configPath text = text
  | _ => True

/-! ### Well-formed configurations -/

structure WellFormed (services : List ServiceNode) : Prop where
  valid : ∀ s ∈ services, s.isValid = true
  weight : ∀ s ∈ services, 1 ≤ s.weight.toNat ∧ s.weight.toNat ≤ 65535
  names : services.Pairwise fun a b => a.name ≠ b.name
  addresses : services.Pairwise fun a b => a.address ≠ b.address

namespace WellFormed

variable {services : List ServiceNode}

theorem nil : WellFormed [] :=
  ⟨List.forall_mem_nil _, List.forall_mem_nil _, List.Pairwise.nil, List.Pairwise.nil⟩

theorem sublist {services' : List ServiceNode} (h : WellFormed services)
    (hs : services'.Sublist services) : WellFormed services' where
  valid s hm := h.valid s (hs.subset hm)
  weight s hm := h.weight s (hs.subset hm)
  names := h.names.sublist hs
  addresses := h.addresses.sublist hs

theorem concat {service : ServiceNode} (h : WellFormed services) (hv : service.isValid = true)
    (hw : service.weight ≠ 0)
    (hnew : ∀ s ∈ services, s.name ≠ service.name ∧ s.address ≠ service.address) :
    WellFormed (services ++ [service]) where
  valid s hm := by
    rcases List.mem_append.mp hm with hm | hm
    · exact h.valid s hm
    · rwa [List.mem_singleton.mp hm]
  weight s hm := by
    rcases List.mem_append.mp hm with hm | hm
    · exact h.weight s hm
    · rw [List.mem_singleton.mp hm]
      have h0 : service.weight.toNat ≠ 0 := fun h0 => hw (UInt16.toNat_inj.mp h0)
      have := service.weight.toNat_lt
      omega
  names := List.pairwise_append.mpr ⟨h.names, List.pairwise_singleton _ _, fun s hm t ht => by
    rw [List.mem_singleton.mp ht]
    exact (hnew s hm).1⟩
  addresses := List.pairwise_append.mpr ⟨h.addresses, List.pairwise_singleton _ _,
    fun s hm t ht => by
      rw [List.mem_singleton.mp ht]
      exact (hnew s hm).2⟩

/-- **A hash ring of a well-formed configuration** fails for one reason only. -/
theorem hashCollision {err : HashCollisionError} (h : WellFormed services)
    (he : ConsistentHashStrategy.ofPool (.ofNodes services) = .error err) :
    ConsistentHashStrategy.HashCollision (.ofNodes services) := by
  refine ((ConsistentHashStrategy.exists_error_iff (List.perm_insertionSort _ _)
    (ConsistentHashStrategy.pairwise_insertionSort_points _)).mp ⟨err, he⟩).resolve_left ?_
  rw [ConsistentHashStrategy.sharedName_iff, not_not, ServicePool.ofNodes, List.map_map]
  exact List.pairwise_map.mpr h.names

end WellFormed

/-! ### The handlers -/

theorem of_inRange {toULong : Bytes → Option UInt64} {text : Bytes}
    (h : MainFrame.inRange toULong text = true) : ∃ v, toULong text = some v ∧ v.toUInt16 ≠ 0 := by
  obtain ⟨v, hv, hr⟩ := (Option.any_eq_true _ _).mp h
  obtain ⟨hne, hle⟩ := of_decide_eq_true hr
  refine ⟨v, hv, fun h0 => hne (UInt64.toNat_inj.mp ?_)⟩
  have hmod : v.toNat % 2 ^ 16 = 0 := by
    rw [← UInt64.toNat_toUInt16, h0]
    rfl
  have hlt : v.toNat ≤ 65535 := UInt64.le_iff_toNat_le.mp hle
  rw [Nat.mod_eq_of_lt (by omega)] at hmod
  exact hmod

theorem of_validateInput {toULong : Bytes → Option UInt64} {name ip port weight : Bytes}
    (h : MainFrame.validateInput toULong name ip port weight = none) :
    ∃ portVal weightVal, toULong port = some portVal ∧ toULong weight = some weightVal ∧
      ServiceNode.isValid ⟨name, ip, portVal.toUInt16, weightVal.toUInt16⟩ = true ∧
      weightVal.toUInt16 ≠ 0 := by
  unfold MainFrame.validateInput at h
  repeat' split at h
  all_goals cases h
  next hname _ _ hport hweight hip =>
    obtain ⟨portVal, hp, -⟩ := of_inRange (not_not.mp hport)
    obtain ⟨weightVal, hw, hw0⟩ := of_inRange (not_not.mp hweight)
    refine ⟨portVal, weightVal, hp, hw, ?_, hw0⟩
    rw [not_not, hp] at hip
    obtain ⟨-, hrest⟩ := of_decide_eq_true hip
    exact decide_eq_true ⟨hname, hrest⟩

theorem of_duplicate {name ip : Bytes} {portVal : UInt64} {existing : ServiceNode}
    (h : MainFrame.duplicate name ip portVal existing = none) :
    existing.name ≠ name ∧ ¬(existing.ip = ip ∧ existing.port = portVal.toUInt16) := by
  unfold MainFrame.duplicate at h
  repeat' split at h
  all_goals cases h
  next hname haddress => exact ⟨hname, haddress⟩

/-- **Adding a service.**  The duplicate check compares texts, and a valid
address has one spelling. -/
theorem WellFormed.onAddService {toULong : Bytes → Option UInt64} {f : MainFrame}
    (h : WellFormed f.config.services) (name ip portStr weightStr : Bytes) :
    WellFormed (f.onAddService toULong name ip portStr weightStr).config.services := by
  unfold MainFrame.onAddService
  split
  · exact h
  · next hv =>
    obtain ⟨portVal, weightVal, hp, hw, hvalid, hweight⟩ := of_validateInput hv
    simp only [hp, hw, Option.getD_some]
    split
    · exact h
    · next hnone =>
      refine h.concat hvalid hweight fun s hm => ?_
      obtain ⟨hname, haddress⟩ := of_duplicate (List.findSome?_eq_none_iff.mp hnone s hm)
      refine ⟨hname, fun he => haddress ?_⟩
      obtain ⟨hoctets, hport⟩ := Prod.mk.inj he
      exact ⟨ServiceNode.octets_inj (of_decide_eq_true (h.valid s hm)).2.2.2
        (of_decide_eq_true hvalid).2.2.2 hoctets, hport⟩

theorem sublist_removeService (c : LoadBalancerConfig) (index : Nat) :
    (c.removeService index).services.Sublist c.services := by
  unfold LoadBalancerConfig.removeService
  split
  · exact List.eraseIdx_sublist _ _
  · exact List.Sublist.refl _

theorem WellFormed.onRemoveService {f : MainFrame} (h : WellFormed f.config.services)
    (isSelected : List Bool) : WellFormed (f.onRemoveService isSelected).config.services := by
  have hfold : ∀ (l : List Nat) (c : LoadBalancerConfig),
      (l.foldl LoadBalancerConfig.removeService c).services.Sublist c.services := by
    intro l
    induction l with
    | nil => exact fun c => List.Sublist.refl _
    | cons index l ih => exact fun c => (ih _).trans (sublist_removeService c index)
  unfold MainFrame.onRemoveService
  dsimp only
  split
  · exact h
  · exact h.sublist (hfold _ _)

/-! ### The file of the window -/

/-- The file is the saved text of a configuration. -/
def Holds (W : Editor N) (node : Node → N) (files : Files) (c : LoadBalancerConfig) : Prop :=
  ∃ text, files W.configPath = some text ∧ W.Y.load text = .ok (node (tree c))

theorem Holds.load_eq {files : Files} {c : LoadBalancerConfig} (h : Holds W node files c)
    (hreads : W.Y.Reads node) (d : LoadBalancerConfig) :
    load W.Y files d W.configPath = (.ok (), c) := by
  obtain ⟨text, hfile, hload⟩ := h
  simp only [load, loadFile, hfile, hload, EStateM.run, loadRoot_tree hreads c d]

theorem Holds.there {files : Files} {c : LoadBalancerConfig} (h : Holds W node files c) :
    files W.configPath ≠ none := by
  obtain ⟨text, hfile, -⟩ := h
  rw [hfile]
  exact Option.some_ne_none _

/-- How a save ends: with nothing written, or with what the disk took. -/
theorem save_cases (Y : YamlCpp N) (disk : Disk) (files : Files) {c : LoadBalancerConfig}
    {text : Bytes} (htext : Y.emit (document c) = .ok text) (path : Bytes) :
    save Y disk files c path = (.threw, files) ∨
      (∃ what, save Y disk files c path = (.returned (.error what), files)) ∨
        disk.Opens path ∧ save Y disk files c path =
          (.returned (.ok ()), Function.update files path (some (disk.written path text))) := by
  rw [save, htext]
  dsimp only
  split
  · exact .inl rfl
  · next hparent =>
    split
    · exact .inr (.inl ⟨_, rfl⟩)
    · next hopen =>
      refine .inr (.inr ⟨⟨fun hp => ?_, by simpa using hopen⟩, rfl⟩)
      simpa [hp] using hparent

theorem step_saveConfig {disk : Disk} {text : Bytes} (hopens : disk.Opens W.configPath)
    (htext : W.Y.emit (document s.frame.config) = .ok text) : s.step W (.saveConfig disk) =
      some ⟨{ s.frame with hasUnsavedChanges := false },
        Function.update s.files W.configPath (some (disk.written W.configPath text)), true⟩ := by
  simp only [step, MainFrame.onSaveConfig, writes, save_of_opens W.Y hopens htext, Bool.or_true]

theorem step_loadConfig {c : LoadBalancerConfig} (hthere : s.files W.configPath ≠ none)
    (hload : load W.Y s.files {} W.configPath = (.ok (), c)) : s.step W .loadConfig =
      some { s with frame := { s.frame with config := c, hasUnsavedChanges := false } } := by
  simp only [step, MainFrame.onLoadConfig, if_neg hthere, hload]

theorem exists_step_saveConfig {disk : Disk} (hdisk : disk.Works W.configPath)
    (hround : W.Y.RoundTrips node (document s.frame.config)) :
    ∃ t, s.step W (.saveConfig disk) = some t ∧ t.ours = true ∧
      t.frame = { s.frame with hasUnsavedChanges := false } ∧
      Holds W node t.files s.frame.config := by
  obtain ⟨text, htext, hload⟩ := hround (tree s.frame.config) (tokens_tree s.frame.config)
  refine ⟨_, step_saveConfig ⟨hdisk.createDirectories, hdisk.canOpen⟩ htext, rfl, rfl, text, ?_,
    hload⟩
  exact (Function.update_self ..).trans (congrArg some (hdisk.written text))

/-! ### Every run -/

structure Sound (W : Editor N) (node : Node → N) (s : Desktop) : Prop where
  wellFormed : WellFormed s.frame.config.services
  ours : s.ours = true → ∃ c, WellFormed c.services ∧ Holds W node s.files c

/-- **Saving.**  A file that is written is the configuration's. -/
theorem Sound.saveConfig {disk : Disk} (h : s.Sound W node)
    (hround : W.Y.RoundTrips node (document s.frame.config))
    (hwhole : Whole W s (.saveConfig disk)) (hs : s.step W (.saveConfig disk) = some t) :
    t.Sound W node := by
  obtain rfl := Option.some.inj hs
  obtain ⟨text, htext, hload⟩ := hround (tree s.frame.config) (tokens_tree s.frame.config)
  rcases save_cases W.Y disk s.files htext W.configPath with
    hsave | ⟨what, hsave⟩ | ⟨hopens, hsave⟩
  · simp only [MainFrame.onSaveConfig, writes, hsave, Bool.or_false]
    exact ⟨h.wellFormed, h.ours⟩
  · simp only [MainFrame.onSaveConfig, writes, hsave, Bool.or_false]
    exact ⟨h.wellFormed, h.ours⟩
  · simp only [MainFrame.onSaveConfig, writes, hsave, hwhole text htext hopens]
    exact ⟨h.wellFormed, fun _ =>
      ⟨s.frame.config, h.wellFormed, text, Function.update_self .., hload⟩⟩

/-- **Loading** a file of its own, or none. -/
theorem Sound.loadConfig (h : s.Sound W node) (hreads : W.Y.Reads node)
    (hown : s.files W.configPath = none ∨ s.ours = true) (hs : s.step W .loadConfig = some t) :
    t.Sound W node := by
  rcases hown with hnone | hours
  · obtain rfl := Option.some.inj hs
    refine ⟨?_, h.ours⟩
    rw [MainFrame.onLoadConfig, if_pos hnone]
    exact h.wellFormed
  · obtain ⟨c, hc, hholds⟩ := h.ours hours
    rw [step_loadConfig hholds.there (hholds.load_eq hreads {})] at hs
    obtain rfl := Option.some.inj hs
    exact ⟨hc, h.ours⟩

theorem Sound.write (h : s.Sound W node) {path : Bytes} {contents : Option Bytes}
    (hs : s.step W (.write path contents) = some t) : t.Sound W node := by
  obtain rfl := Option.some.inj hs
  refine ⟨h.wellFormed, fun hours => ?_⟩
  rw [Bool.and_eq_true, decide_eq_true_iff] at hours
  obtain ⟨c, hc, text, hfile, hload⟩ := h.ours hours.1
  exact ⟨c, hc, text, (Function.update_of_ne (Ne.symm hours.2) ..).trans hfile, hload⟩

theorem Sound.step (h : s.Sound W node) (hreads : W.Y.Reads node) {e : Event}
    (hok : Own W node s e) (hwhole : Whole W s e) (hs : s.step W e = some t) :
    t.Sound W node := by
  cases e with
  | addService name ip portStr weightStr =>
    obtain rfl := Option.some.inj hs
    exact ⟨h.wellFormed.onAddService name ip portStr weightStr, h.ours⟩
  | removeService isSelected =>
    obtain rfl := Option.some.inj hs
    exact ⟨h.wellFormed.onRemoveService isSelected, h.ours⟩
  | saveConfig => exact h.saveConfig hok hwhole hs
  | loadConfig => exact h.loadConfig hreads hok hs
  | write => exact h.write hs

theorem sound_of_reachesIn {config : LoadBalancerConfig} {files : Files}
    (hreads : W.Y.Reads node) (hempty : config.services = [])
    (h : ReachesIn (step W) (fun s e => Own W node s e ∧ Whole W s e) (start config files) s) :
    s.Sound W node := by
  refine h.invariant (I := Sound W node) ⟨?_, fun ho => nomatch ho⟩
    fun hi hok hs => hi.step hreads hok.1 hok.2 hs
  show WellFormed config.services
  rw [hempty]
  exact .nil

/-- **The configurations of the editor.**  From a configuration without services,
after any adding, removing, saving and loading of its own file, and whatever
else happens to the files, if no save was cut short: every service is valid and
has a weight from 1 to 65535, no two share a name or an address, and if a hash
ring cannot be built of them then two different labels have one hash. -/
theorem editor_config {config : LoadBalancerConfig} {files : Files} (hreads : W.Y.Reads node)
    (hempty : config.services = [])
    (h : ReachesIn (step W) (fun s e => Own W node s e ∧ Whole W s e) (start config files) s) :
    (∀ svc ∈ s.frame.config.services, svc.isValid = true ∧
      1 ≤ svc.weight.toNat ∧ svc.weight.toNat ≤ 65535) ∧
    s.frame.config.services.Pairwise (fun a b => a.name ≠ b.name) ∧
    s.frame.config.services.Pairwise (fun a b => a.address ≠ b.address) ∧
    ∀ err, ConsistentHashStrategy.ofPool (.ofNodes s.frame.config.services) = .error err →
      ConsistentHashStrategy.HashCollision (.ofNodes s.frame.config.services) := by
  have hw := (sound_of_reachesIn hreads hempty h).wellFormed
  exact ⟨fun svc hm => ⟨hw.valid svc hm, hw.weight svc hm⟩, hw.names, hw.addresses,
    fun err he => hw.hashCollision he⟩

/-- A configuration with one service as it is saved, up to the port. -/
@[irreducible]
def webText : Bytes := ascii <|
  "name: my-bit-bridge-lb\nlistenAddress: 0.0.0.0\nlistenPort: 8080\n" ++
  "routingAlgorithm: p2c\nhealthCheck:\n  enabled: true\n  intervalMs: 5000\n" ++
  "  timeoutMs: 2000\n  unhealthyThreshold: 3\nconnection:\n  maxPerService: 1024\n" ++
  "  idleTimeoutMs: 30000\n  connectTimeoutMs: 5000\nservices:\n" ++
  "  - name: web-1\n    ip: 10.0.0.1"

def webTree : Node :=
  .map
    [(ascii "name", .scalar (.string (ascii "my-bit-bridge-lb"))),
      (ascii "listenAddress", .scalar (.string (ascii "0.0.0.0"))),
      (ascii "listenPort", .scalar (.uint16 8080)),
      (ascii "routingAlgorithm", .scalar (.string (ascii "p2c"))),
      (ascii "healthCheck", healthCheckTree {}),
      (ascii "connection", connectionTree {}),
      (ascii "services", .sequence
        [.map [(ascii "name", .scalar (.string (ascii "web-1"))),
          (ascii "ip", .scalar (.string (ascii "10.0.0.1")))]])]

/-- Two services are added and a third with the address of the first is not; they
are saved, and loaded again. -/
theorem editor_config_two :
    let web : ServiceNode := { name := ascii "web-1", ip := ascii "10.0.0.1", port := 80 }
    let other : ServiceNode := { name := ascii "web-2", ip := ascii "10.0.0.1", port := 8 }
    let text := webText ++ ascii ("\n    port: 80\n    weight: 1\n" ++
      "  - name: web-2\n    ip: 10.0.0.1\n    port: 8\n    weight: 1")
    let W : Editor (Option Node) :=
      ⟨YamlCpp.ofDocument (tree { services := [web, other] }) text,
        fun s => if s = ascii "80" then some 80 else if s = ascii "8" then some 8
          else if s = ascii "1" then some 1 else none,
        ascii "conf/lb.yaml"⟩
    let disk : Disk := ⟨fun _ => true, fun _ => true, fun _ => true, fun _ text => text⟩
    ∃ s, run (step W) (start {} fun _ => none)
        [.addService (ascii "web-1") (ascii "10.0.0.1") (ascii "80") (ascii "1"),
          .addService (ascii "web-2") (ascii "10.0.0.1") (ascii "8") (ascii "1"),
          .addService (ascii "web-3") (ascii "10.0.0.1") (ascii "80") (ascii "1"),
          .saveConfig disk, .loadConfig] = some s ∧
      s.frame.config.services = [web, other] ∧
      (∀ svc ∈ s.frame.config.services, svc.isValid = true ∧
        1 ≤ svc.weight.toNat ∧ svc.weight.toNat ≤ 65535) ∧
      s.frame.config.services.Pairwise (fun a b => a.name ≠ b.name) ∧
      s.frame.config.services.Pairwise (fun a b => a.address ≠ b.address) ∧
      ∀ err, ConsistentHashStrategy.ofPool (.ofNodes s.frame.config.services) = .error err →
        ConsistentHashStrategy.HashCollision (.ofNodes s.frame.config.services) := by
  intro web other text W disk
  let adds : List Event :=
    [.addService (ascii "web-1") (ascii "10.0.0.1") (ascii "80") (ascii "1"),
      .addService (ascii "web-2") (ascii "10.0.0.1") (ascii "8") (ascii "1"),
      .addService (ascii "web-3") (ascii "10.0.0.1") (ascii "80") (ascii "1")]
  have hadd : (run (step W) (start {} fun _ => none) adds).map (fun a => a.frame.config) =
      some { services := [web, other] } := by
    decide +kernel
  obtain ⟨a, ha, hconfig⟩ := Option.map_eq_some_iff.mp hadd
  have hround : W.Y.RoundTrips some (document a.frame.config) := by
    rw [hconfig]
    exact ofDocument_roundTrips _ _
  have hreads : W.Y.Reads some := YamlCpp.ofDocument_reads _ _
  have hworks : disk.Works W.configPath := ⟨fun _ => rfl, rfl, fun _ => rfl⟩
  obtain ⟨b, hsave, hours, -, hholds⟩ := exists_step_saveConfig hworks hround
  have hload := step_loadConfig hholds.there (hholds.load_eq hreads {})
  have hadds : ReachesIn (step W) (fun s e => Own W some s e ∧ Whole W s e)
      (start {} fun _ => none) a := by
    refine reachesIn_of_forall (fun e he s => ?_) ha
    rcases List.mem_cons.mp he with rfl | he
    · exact ⟨trivial, trivial⟩
    rcases List.mem_cons.mp he with rfl | he
    · exact ⟨trivial, trivial⟩
    · rw [List.mem_singleton.mp he]
      exact ⟨trivial, trivial⟩
  have hown : Own W some a (.saveConfig disk) := hround
  have hown' : Own W some b .loadConfig := .inr hours
  have hreach := (hadds.tail ⟨hown, fun _ _ _ => rfl⟩ hsave).tail ⟨hown', trivial⟩ hload
  refine ⟨_, ?_, by rw [hconfig], editor_config hreads rfl hreach⟩
  show run (step W) _ (adds ++ [.saveConfig disk, .loadConfig]) = _
  rw [run_append, ha, Option.bind_some, run_cons hsave, run_cons hload]
  rfl

/-- **A short write is not noticed.**  The disk takes the document up to the port
of the service, `Save` returns success, and the editor loads its file. -/
theorem invalid_after_short_write : ¬∀ (N : Type) (W : Editor N) (node : Node → N)
    (config : LoadBalancerConfig) (files : Files) (s : Desktop), W.Y.Reads node →
    config.services = [] → ReachesIn (step W) (Own W node) (start config files) s →
    ∀ svc ∈ s.frame.config.services, svc.isValid = true := by
  intro h
  let web : ServiceNode := { name := ascii "web-1", ip := ascii "10.0.0.1", port := 80 }
  let rest := ascii "\n    port: 80\n    weight: 1"
  let Y := YamlCpp.ofDocument (tree { services := [web] }) (webText ++ rest)
  let W : Editor (Option Node) :=
    ⟨Y.reading webText webTree,
      fun s => if s = ascii "80" then some 80 else if s = ascii "1" then some 1 else none,
      ascii "conf/lb.yaml"⟩
  let disk : Disk :=
    ⟨fun _ => true, fun _ => true, fun _ => true, fun _ text => text.take webText.length⟩
  have hadd : (step W (start {} fun _ => none)
      (.addService (ascii "web-1") (ascii "10.0.0.1") (ascii "80") (ascii "1"))).map
        (fun a => a.frame.config) = some { services := [web] } := by
    decide +kernel
  obtain ⟨a, ha, hconfig⟩ := Option.map_eq_some_iff.mp hadd
  have hemit : Y.emit (document a.frame.config) = .ok (webText ++ rest) := by
    rw [hconfig, ← tokens_tree]
    exact YamlCpp.emit_ofDocument _ _
  have hemit' : W.Y.emit (document a.frame.config) = .ok (webText ++ rest) := by
    show (Y.reading webText webTree).emit _ = _
    rw [YamlCpp.emit_reading]
    exact hemit
  have hround : Own W some a (.saveConfig disk) := by
    show (Y.reading webText webTree).RoundTrips some (document a.frame.config)
    rw [hconfig] at hemit ⊢
    refine (ofDocument_roundTrips _ _).reading (fun hshort => ?_) _
    rw [hemit] at hshort
    exact absurd (List.append_right_eq_self.mp (Except.ok.inj hshort)) (by decide)
  have hcut : disk.written W.configPath (webText ++ rest) = webText := List.take_left
  obtain ⟨b, hsave, hours, hfile⟩ : ∃ b, step W a (.saveConfig disk) = some b ∧ b.ours = true ∧
      b.files W.configPath = some webText := by
    refine ⟨_, step_saveConfig ⟨fun _ => rfl, rfl⟩ hemit', rfl, ?_⟩
    simp only [Function.update_self, hcut]
  -- what is left of the document has a service without a port
  have hread : load W.Y b.files {} W.configPath =
      (.ok (), { services := [{ web with port := 0 }] }) := by
    have hnode : loadFile W.Y b.files W.configPath = .ok (some webTree) := by
      rw [loadFile, hfile]
      exact if_pos rfl
    rw [load, hnode]
    decide +kernel
  have hthere : b.files W.configPath ≠ none := by
    rw [hfile]
    exact Option.some_ne_none _
  have hload := step_loadConfig hthere hread
  have hadd : Own W some (start {} fun _ => none)
      (.addService (ascii "web-1") (ascii "10.0.0.1") (ascii "80") (ascii "1")) := trivial
  have hown : Own W some b .loadConfig := .inr hours
  have hreads : W.Y.Reads some := (YamlCpp.ofDocument_reads _ _).reading _ _
  have hreach := ((ReachesIn.single hadd ha).tail hround hsave).tail hown hload
  have hvalid := h _ W some {} _ _ hreads rfl hreach
  exact absurd (hvalid _ (List.mem_singleton_self _)) (by decide)

end Desktop

end BitBridge
