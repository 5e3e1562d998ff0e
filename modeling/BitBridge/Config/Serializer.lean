import BitBridge.Config.Model
import BitBridge.Config.Yaml
import Mathlib.Logic.Function.Basic

/-!
# Saving and loading the configuration

`YamlConfigSerializer`.  `document` is what `Save` streams, statement by
statement.  `Load` works on the target in place: what it set before an exception
stays set, so its body is a state monad with errors (`EStateM`), and `load`
gives the target back in either case.

* `tree`: the tree that `document` spells (`tokens_tree`).
* `loadRoot_tree`: reading that tree sets every field of the target.
* `save_load`: **the round trip**: into any target, `Load` after `Save` gives
  the saved configuration.
-/

namespace BitBridge

open Yaml

namespace YamlConfigSerializer

/-! ### `Save` -/

/-- `out << YAML::Key << name << YAML::Value << v`. -/
def keyed (name : String) (v : Scalar) : List Token := keyTokens (ascii name) ++ [.scalar v]

def healthCheckTokens (hc : HealthCheckConfig) : List Token :=
  [.beginMap]
    ++ keyed "enabled" (.bool hc.enabled)
    ++ keyed "intervalMs" (.uint32 hc.intervalMs)
    ++ keyed "timeoutMs" (.uint32 hc.timeoutMs)
    ++ keyed "unhealthyThreshold" (.uint32 hc.unhealthyThreshold)
    ++ [.endMap]

def connectionTokens (conn : ConnectionConfig) : List Token :=
  [.beginMap]
    ++ keyed "maxPerService" (.uint32 conn.maxPerService)
    ++ keyed "idleTimeoutMs" (.uint32 conn.idleTimeoutMs)
    ++ keyed "connectTimeoutMs" (.uint32 conn.connectTimeoutMs)
    ++ [.endMap]

def serviceTokens (service : ServiceNode) : List Token :=
  [.beginMap]
    ++ keyed "name" (.string service.name)
    ++ keyed "ip" (.string service.ip)
    ++ keyed "port" (.uint16 service.port)
    ++ keyed "weight" (.uint16 service.weight)
    ++ [.endMap]

/-- Everything that `Save` streams into the emitter. -/
def document (config : LoadBalancerConfig) : List Token :=
  [.beginMap]
    ++ keyed "name" (.string config.name)
    ++ keyed "listenAddress" (.string config.listenAddress)
    ++ keyed "listenPort" (.uint16 config.listenPort)
    ++ keyed "routingAlgorithm" (.string config.routingAlgorithm)
    ++ keyTokens (ascii "healthCheck") ++ healthCheckTokens config.healthCheck
    ++ keyTokens (ascii "connection") ++ connectionTokens config.connection
    ++ keyTokens (ascii "services") ++ [.beginSeq]
    ++ config.services.flatMap serviceTokens
    ++ [.endSeq]
    ++ [.endMap]

/-- The file system under `Save`, for each path.  `createDirectories` is false
where it throws, `canOpen` is `is_open`, and `written` is what reaches the file;
the stream is not checked after the write. -/
structure Disk where
  hasParentPath : Bytes → Bool
  createDirectories : Bytes → Bool
  canOpen : Bytes → Bool
  written : Bytes → Bytes → Bytes

/-- The contents of the files that are there. -/
abbrev Files := Bytes → Option Bytes

/-- How `Save` ends: a `filesystem_error` is not a `YAML::Exception`. -/
inductive Outcome
  | returned (result : Except Bytes Unit)
  | threw

def yamlError (what : Bytes) : Bytes := ascii "YAML error: " ++ what

variable {N : Type} (Y : YamlCpp N)

def save (disk : Disk) (files : Files) (config : LoadBalancerConfig) (filePath : Bytes) :
    Outcome × Files :=
  match Y.emit (document config) with
  | .error what => (.returned (.error (yamlError what)), files)
  | .ok text =>
    if disk.hasParentPath filePath && !disk.createDirectories filePath then
      (.threw, files)
    else if !disk.canOpen filePath then
      (.returned (.error (ascii "Failed to open file for writing: " ++ filePath)), files)
    else
      (.returned (.ok ()), Function.update files filePath (some (disk.written filePath text)))

/-! ### `Load` -/

def loadFile (files : Files) (filePath : Bytes) : Except Bytes N :=
  match files filePath with
  | none => .error (Y.badFile filePath)
  | some text => Y.load text

def readHealthCheck (hcNode : N) : Except Bytes HealthCheckConfig := do
  let mut hc : HealthCheckConfig := {}
  if let some v ← Y.field Y.asBool hcNode (ascii "enabled") then
    hc := { hc with enabled := v }
  if let some v ← Y.field Y.asUInt32 hcNode (ascii "intervalMs") then
    hc := { hc with intervalMs := v }
  if let some v ← Y.field Y.asUInt32 hcNode (ascii "timeoutMs") then
    hc := { hc with timeoutMs := v }
  if let some v ← Y.field Y.asUInt32 hcNode (ascii "unhealthyThreshold") then
    hc := { hc with unhealthyThreshold := v }
  return hc

def readConnection (connNode : N) : Except Bytes ConnectionConfig := do
  let mut conn : ConnectionConfig := {}
  if let some v ← Y.field Y.asUInt32 connNode (ascii "maxPerService") then
    conn := { conn with maxPerService := v }
  if let some v ← Y.field Y.asUInt32 connNode (ascii "idleTimeoutMs") then
    conn := { conn with idleTimeoutMs := v }
  if let some v ← Y.field Y.asUInt32 connNode (ascii "connectTimeoutMs") then
    conn := { conn with connectTimeoutMs := v }
  return conn

def readService (serviceNode : N) : Except Bytes ServiceNode := do
  let name ← Y.field Y.asString serviceNode (ascii "name")
  let ip ← Y.field Y.asString serviceNode (ascii "ip")
  let port ← Y.field Y.asUInt16 serviceNode (ascii "port")
  let weight ← Y.field Y.asUInt16 serviceNode (ascii "weight")
  return { name := name.getD [], ip := ip.getD [], port := port.getD 0, weight := weight.getD 1 }

/-- A part of `Load`'s body: it works on the target and may throw. -/
abbrev Loading := EStateM Bytes LoadBalancerConfig

/-- `if (root[key]) { config.Set...(root[key].as<T>()); }`. -/
def overlay {α : Type} (as : N → Except Bytes α) (root : N) (key : Bytes)
    (set : α → LoadBalancerConfig → LoadBalancerConfig) : Loading Unit := do
  if let some v ← MonadExcept.ofExcept (Y.field as root key) then
    modify (set v)

def addServices (serviceNodes : List N) : Loading Unit :=
  serviceNodes.forM fun serviceNode => do
    let service ← MonadExcept.ofExcept (readService Y serviceNode)
    modify (·.addService service)

def loadRoot (root : N) : Loading Unit := do
  modify (·.clearServices)
  overlay Y Y.asString root (ascii "name") fun v config => { config with name := v }
  overlay Y Y.asString root (ascii "listenAddress") fun v config =>
    { config with listenAddress := v }
  overlay Y Y.asUInt16 root (ascii "listenPort") fun v config => { config with listenPort := v }
  overlay Y Y.asString root (ascii "routingAlgorithm") fun v config =>
    { config with routingAlgorithm := v }
  overlay Y (readHealthCheck Y) root (ascii "healthCheck") fun v config =>
    { config with healthCheck := v }
  overlay Y (readConnection Y) root (ascii "connection") fun v config =>
    { config with connection := v }
  if let some services ← MonadExcept.ofExcept (Y.field pure root (ascii "services")) then
    addServices Y (Y.items services)

def load (files : Files) (config : LoadBalancerConfig) (filePath : Bytes) :
    Except Bytes Unit × LoadBalancerConfig :=
  match loadFile Y files filePath with
  | .error what => (.error (yamlError what), config)
  | .ok root =>
    match (loadRoot Y root).run config with
    | .ok _ config => (.ok (), config)
    | .error what config => (.error (yamlError what), config)

/-! ### What `Save` spells -/

def healthCheckTree (hc : HealthCheckConfig) : Node :=
  .map
    [(ascii "enabled", .scalar (.bool hc.enabled)),
      (ascii "intervalMs", .scalar (.uint32 hc.intervalMs)),
      (ascii "timeoutMs", .scalar (.uint32 hc.timeoutMs)),
      (ascii "unhealthyThreshold", .scalar (.uint32 hc.unhealthyThreshold))]

def connectionTree (conn : ConnectionConfig) : Node :=
  .map
    [(ascii "maxPerService", .scalar (.uint32 conn.maxPerService)),
      (ascii "idleTimeoutMs", .scalar (.uint32 conn.idleTimeoutMs)),
      (ascii "connectTimeoutMs", .scalar (.uint32 conn.connectTimeoutMs))]

def serviceTree (service : ServiceNode) : Node :=
  .map
    [(ascii "name", .scalar (.string service.name)),
      (ascii "ip", .scalar (.string service.ip)),
      (ascii "port", .scalar (.uint16 service.port)),
      (ascii "weight", .scalar (.uint16 service.weight))]

def tree (config : LoadBalancerConfig) : Node :=
  .map
    [(ascii "name", .scalar (.string config.name)),
      (ascii "listenAddress", .scalar (.string config.listenAddress)),
      (ascii "listenPort", .scalar (.uint16 config.listenPort)),
      (ascii "routingAlgorithm", .scalar (.string config.routingAlgorithm)),
      (ascii "healthCheck", healthCheckTree config.healthCheck),
      (ascii "connection", connectionTree config.connection),
      (ascii "services", .sequence (config.services.map serviceTree))]

theorem tokens_healthCheckTree (hc : HealthCheckConfig) :
    (healthCheckTree hc).tokens = healthCheckTokens hc := by
  simp [healthCheckTree, healthCheckTokens, keyed, Node.tokens, Node.entryTokens]

theorem tokens_connectionTree (conn : ConnectionConfig) :
    (connectionTree conn).tokens = connectionTokens conn := by
  simp [connectionTree, connectionTokens, keyed, Node.tokens, Node.entryTokens]

theorem tokens_serviceTree (service : ServiceNode) :
    (serviceTree service).tokens = serviceTokens service := by
  simp [serviceTree, serviceTokens, keyed, Node.tokens, Node.entryTokens]

theorem itemTokens_services (services : List ServiceNode) :
    Node.itemTokens (services.map serviceTree) = services.flatMap serviceTokens := by
  induction services with
  | nil => rfl
  | cons service services ih =>
    rw [List.map_cons, Node.itemTokens, tokens_serviceTree, ih, List.flatMap_cons]

theorem tokens_tree (config : LoadBalancerConfig) : (tree config).tokens = document config := by
  simp [tree, document, keyed, Node.tokens, Node.entryTokens, tokens_healthCheckTree,
    tokens_connectionTree, itemTokens_services]

theorem ofDocument_roundTrips (config : LoadBalancerConfig) (text : Bytes) :
    (YamlCpp.ofDocument (tree config) text).RoundTrips some (document config) := by
  rw [← tokens_tree]
  exact YamlCpp.ofDocument_roundTrips _ _

/-! ### What `Load` reads -/

theorem ofExcept_ok {α : Type} (v : α) :
    (MonadExcept.ofExcept (.ok v : Except Bytes α) : Loading α) = pure v := rfl

section

variable {Y} {node : Node → N} (h : Y.Reads node)

include h

theorem readHealthCheck_tree (hc : HealthCheckConfig) :
    readHealthCheck Y (node (healthCheckTree hc)) = .ok hc := by
  have henabled : Y.field Y.asBool (node (healthCheckTree hc)) (ascii "enabled")
      = .ok (some hc.enabled) := h.field rfl (h.asBool _)
  have hinterval : Y.field Y.asUInt32 (node (healthCheckTree hc)) (ascii "intervalMs")
      = .ok (some hc.intervalMs) := h.field rfl (h.asUInt32 _)
  have htimeout : Y.field Y.asUInt32 (node (healthCheckTree hc)) (ascii "timeoutMs")
      = .ok (some hc.timeoutMs) := h.field rfl (h.asUInt32 _)
  have hthreshold : Y.field Y.asUInt32 (node (healthCheckTree hc)) (ascii "unhealthyThreshold")
      = .ok (some hc.unhealthyThreshold) := h.field rfl (h.asUInt32 _)
  simp only [readHealthCheck, henabled, hinterval, htimeout, hthreshold]
  rfl

theorem readConnection_tree (conn : ConnectionConfig) :
    readConnection Y (node (connectionTree conn)) = .ok conn := by
  have hmax : Y.field Y.asUInt32 (node (connectionTree conn)) (ascii "maxPerService")
      = .ok (some conn.maxPerService) := h.field rfl (h.asUInt32 _)
  have hidle : Y.field Y.asUInt32 (node (connectionTree conn)) (ascii "idleTimeoutMs")
      = .ok (some conn.idleTimeoutMs) := h.field rfl (h.asUInt32 _)
  have hconnect : Y.field Y.asUInt32 (node (connectionTree conn)) (ascii "connectTimeoutMs")
      = .ok (some conn.connectTimeoutMs) := h.field rfl (h.asUInt32 _)
  simp only [readConnection, hmax, hidle, hconnect]
  rfl

theorem readService_tree (service : ServiceNode) :
    readService Y (node (serviceTree service)) = .ok service := by
  have hname : Y.field Y.asString (node (serviceTree service)) (ascii "name")
      = .ok (some service.name) := h.field rfl (h.asString _)
  have hip : Y.field Y.asString (node (serviceTree service)) (ascii "ip")
      = .ok (some service.ip) := h.field rfl (h.asString _)
  have hport : Y.field Y.asUInt16 (node (serviceTree service)) (ascii "port")
      = .ok (some service.port) := h.field rfl (h.asUInt16 _)
  have hweight : Y.field Y.asUInt16 (node (serviceTree service)) (ascii "weight")
      = .ok (some service.weight) := h.field rfl (h.asUInt16 _)
  simp only [readService, hname, hip, hport, hweight]
  rfl

omit h in
theorem addServices_cons {serviceNode : N} {service : ServiceNode}
    (hs : readService Y serviceNode = .ok service) (rest : List N) (d : LoadBalancerConfig) :
    addServices Y (serviceNode :: rest) d = addServices Y rest (d.addService service) := by
  simp only [addServices, List.forM_eq_forM, List.forM_cons, hs, ofExcept_ok, pure_bind]
  rfl

/-- A loop over the items adds the services in order, behind those that are there. -/
theorem addServices_tree (services : List ServiceNode) (d : LoadBalancerConfig) :
    addServices Y ((services.map serviceTree).map node) d
      = .ok () { d with services := d.services ++ services } := by
  induction services generalizing d with
  | nil => rw [List.append_nil]; rfl
  | cons service services ih =>
    rw [List.map_cons, List.map_cons, addServices_cons (readService_tree h service), ih,
      LoadBalancerConfig.addService, List.append_assoc]
    rfl

omit h in
theorem overlay_eq {α : Type} {as : N → Except Bytes α} {root : N} {key : Bytes}
    {set : α → LoadBalancerConfig → LoadBalancerConfig} {v : α}
    (hv : Y.field as root key = .ok (some v)) : overlay Y as root key set = modify (set v) := by
  rw [overlay, hv, ofExcept_ok, pure_bind]

theorem loadRoot_tree (c d : LoadBalancerConfig) : loadRoot Y (node (tree c)) d = .ok () c := by
  have hname : Y.field Y.asString (node (tree c)) (ascii "name") = .ok (some c.name) :=
    h.field rfl (h.asString _)
  have haddress : Y.field Y.asString (node (tree c)) (ascii "listenAddress")
      = .ok (some c.listenAddress) := h.field rfl (h.asString _)
  have hport : Y.field Y.asUInt16 (node (tree c)) (ascii "listenPort")
      = .ok (some c.listenPort) := h.field rfl (h.asUInt16 _)
  have halgorithm : Y.field Y.asString (node (tree c)) (ascii "routingAlgorithm")
      = .ok (some c.routingAlgorithm) := h.field rfl (h.asString _)
  have hhealth : Y.field (readHealthCheck Y) (node (tree c)) (ascii "healthCheck")
      = .ok (some c.healthCheck) := h.field rfl (readHealthCheck_tree h _)
  have hconnection : Y.field (readConnection Y) (node (tree c)) (ascii "connection")
      = .ok (some c.connection) := h.field rfl (readConnection_tree h _)
  have hservices : Y.field pure (node (tree c)) (ascii "services")
      = .ok (some (node (.sequence (c.services.map serviceTree)))) := h.field rfl rfl
  simp only [loadRoot, overlay_eq hname, overlay_eq haddress, overlay_eq hport,
    overlay_eq halgorithm, overlay_eq hhealth, overlay_eq hconnection, hservices, ofExcept_ok,
    pure_bind, h.items]
  have hlast := addServices_tree h c.services { c with services := [] }
  rw [List.nil_append] at hlast
  exact hlast

end

/-! ### The round trip -/

structure Disk.Opens (disk : Disk) (filePath : Bytes) : Prop where
  createDirectories : disk.hasParentPath filePath = true → disk.createDirectories filePath = true
  canOpen : disk.canOpen filePath = true

structure Disk.Works (disk : Disk) (filePath : Bytes) : Prop where
  createDirectories : disk.hasParentPath filePath = true → disk.createDirectories filePath = true
  canOpen : disk.canOpen filePath = true
  written : ∀ text, disk.written filePath text = text

/-- A save that gets to the write is reported as a success, whatever is written. -/
theorem save_of_opens {disk : Disk} {filePath text : Bytes} (hopens : disk.Opens filePath)
    {c : LoadBalancerConfig} (htext : Y.emit (document c) = .ok text) (files : Files) :
    save Y disk files c filePath = (.returned (.ok ()),
      Function.update files filePath (some (disk.written filePath text))) := by
  have hparent : (disk.hasParentPath filePath && !disk.createDirectories filePath) = false := by
    cases hp : disk.hasParentPath filePath
    · rfl
    · rw [hopens.createDirectories hp]; rfl
  simp [save, htext, hparent, hopens.canOpen]

theorem save_eq {disk : Disk} {filePath text : Bytes} (hdisk : disk.Works filePath)
    {c : LoadBalancerConfig} (htext : Y.emit (document c) = .ok text) (files : Files) :
    save Y disk files c filePath
      = (.returned (.ok ()), Function.update files filePath (some text)) := by
  rw [save_of_opens Y ⟨hdisk.createDirectories, hdisk.canOpen⟩ htext, hdisk.written]

/-- **Round trip.**  When the disk works and yaml-cpp reads back what it wrote,
`Save` and then `Load` succeed, and whatever the target held before, it is the
saved configuration afterwards. -/
theorem save_load {node : Node → N} (h : Y.Reads node) {disk : Disk} {filePath : Bytes}
    (hdisk : disk.Works filePath) {c : LoadBalancerConfig}
    (hround : Y.RoundTrips node (document c)) (files : Files) (d : LoadBalancerConfig) :
    ∃ saved, save Y disk files c filePath = (.returned (.ok ()), saved) ∧
      load Y saved d filePath = (.ok (), c) := by
  obtain ⟨text, htext, hload⟩ := hround (tree c) (tokens_tree c)
  refine ⟨_, save_eq Y hdisk htext files, ?_⟩
  have hfile : loadFile Y (Function.update files filePath (some text)) filePath
      = .ok (node (tree c)) := by
    rw [loadFile, Function.update_self]
    exact hload
  rw [load, hfile]
  simp only [EStateM.run, loadRoot_tree h c d]

/-- Two services of one name, saved over a target that differs everywhere. -/
theorem save_load_web :
    let web : ServiceNode := { name := ascii "web-1", ip := ascii "10.0.0.1", port := 80 }
    let c : LoadBalancerConfig := { services := [web, web] }
    let d : LoadBalancerConfig :=
      { name := ascii "old", listenAddress := ascii "127.0.0.1", listenPort := 1,
        routingAlgorithm := [], services := [{ name := ascii "db" }],
        healthCheck := ⟨false, 1, 1, 1⟩, connection := ⟨1, 1, 1⟩ }
    let text := ascii <|
      "name: my-bit-bridge-lb\nlistenAddress: 0.0.0.0\nlistenPort: 8080\n" ++
      "routingAlgorithm: p2c\nhealthCheck:\n  enabled: true\n  intervalMs: 5000\n" ++
      "  timeoutMs: 2000\n  unhealthyThreshold: 3\nconnection:\n  maxPerService: 1024\n" ++
      "  idleTimeoutMs: 30000\n  connectTimeoutMs: 5000\nservices:\n" ++
      "  - name: web-1\n    ip: 10.0.0.1\n    port: 80\n    weight: 1\n" ++
      "  - name: web-1\n    ip: 10.0.0.1\n    port: 80\n    weight: 1"
    let Y := YamlCpp.ofDocument (tree c) text
    let disk : Disk := ⟨fun _ => true, fun _ => true, fun _ => true, fun _ text => text⟩
    ∃ saved, save Y disk (fun _ => none) c (ascii "conf/lb.yaml") = (.returned (.ok ()), saved) ∧
      load Y saved d (ascii "conf/lb.yaml") = (.ok (), c) := by
  intro web c d text Y disk
  have hround := ofDocument_roundTrips c text
  exact save_load Y (YamlCpp.ofDocument_reads (tree c) text) ⟨fun _ => rfl, rfl, fun _ => rfl⟩
    hround (fun _ => none) d

end YamlConfigSerializer

end BitBridge
