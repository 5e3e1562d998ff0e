import BitBridge.Config.FailedLoad

/-!
# Loading over a configuration

The window sets the defaults of the settings first and then loads its file, so
`Load` is to overlay: a key of the document sets its field, and a field without
a key stays.  The keys of the root are treated so.  A section is not: its value
is built from the built-in defaults, whatever the target had.

* `loaded_of_load`: what `Load` does to the root's keys, sections included.
* `load_overlays`: **the document overlays the target** exactly when each key
  that a section lacks has its built-in default in the target.
* `threshold_reset`: a section with one key resets the others.
-/

namespace BitBridge

open Yaml

namespace YamlConfigSerializer

variable {N : Type} (Y : YamlCpp N)

/-- The field is the document's value if the key is there, and stays otherwise. -/
def TakesOver {α : Type} (read : Except Bytes (Option α)) (prior new : α) : Prop :=
  read = .ok (some new) ∨ read = .ok none ∧ new = prior

/-- The key of a section; it is absent where the section is. -/
def sectionField {α : Type} (as : N → Except Bytes α) (root : N) (name key : Bytes) :
    Except Bytes (Option α) := do
  match ← Y.field pure root name with
  | none => return none
  | some node => Y.field as node key

structure HealthCheckOverlaid (root : N) (prior new : HealthCheckConfig) : Prop where
  enabled : TakesOver (sectionField Y Y.asBool root (ascii "healthCheck") (ascii "enabled"))
    prior.enabled new.enabled
  intervalMs : TakesOver
    (sectionField Y Y.asUInt32 root (ascii "healthCheck") (ascii "intervalMs"))
    prior.intervalMs new.intervalMs
  timeoutMs : TakesOver
    (sectionField Y Y.asUInt32 root (ascii "healthCheck") (ascii "timeoutMs"))
    prior.timeoutMs new.timeoutMs
  unhealthyThreshold : TakesOver
    (sectionField Y Y.asUInt32 root (ascii "healthCheck") (ascii "unhealthyThreshold"))
    prior.unhealthyThreshold new.unhealthyThreshold

structure ConnectionOverlaid (root : N) (prior new : ConnectionConfig) : Prop where
  maxPerService : TakesOver
    (sectionField Y Y.asUInt32 root (ascii "connection") (ascii "maxPerService"))
    prior.maxPerService new.maxPerService
  idleTimeoutMs : TakesOver
    (sectionField Y Y.asUInt32 root (ascii "connection") (ascii "idleTimeoutMs"))
    prior.idleTimeoutMs new.idleTimeoutMs
  connectTimeoutMs : TakesOver
    (sectionField Y Y.asUInt32 root (ascii "connection") (ascii "connectTimeoutMs"))
    prior.connectTimeoutMs new.connectTimeoutMs

structure Overlaid (root : N) (c d : LoadBalancerConfig) : Prop where
  name : TakesOver (Y.field Y.asString root (ascii "name")) c.name d.name
  listenAddress : TakesOver (Y.field Y.asString root (ascii "listenAddress"))
    c.listenAddress d.listenAddress
  listenPort : TakesOver (Y.field Y.asUInt16 root (ascii "listenPort")) c.listenPort d.listenPort
  routingAlgorithm : TakesOver (Y.field Y.asString root (ascii "routingAlgorithm"))
    c.routingAlgorithm d.routingAlgorithm
  healthCheck : HealthCheckOverlaid Y root c.healthCheck d.healthCheck
  connection : ConnectionOverlaid Y root c.connection d.connection

/-- If the section is there without the key, the target's field is the default. -/
def MissingIsDefault {α : Type} (as : N → Except Bytes α) (root : N) (name key : Bytes)
    (prior default : α) : Prop :=
  ∀ node, Y.field pure root name = .ok (some node) → Y.field as node key = .ok none →
    prior = default

structure HealthCheckDefault (root : N) (prior : HealthCheckConfig) : Prop where
  enabled : MissingIsDefault Y Y.asBool root (ascii "healthCheck") (ascii "enabled")
    prior.enabled ({} : HealthCheckConfig).enabled
  intervalMs : MissingIsDefault Y Y.asUInt32 root (ascii "healthCheck") (ascii "intervalMs")
    prior.intervalMs ({} : HealthCheckConfig).intervalMs
  timeoutMs : MissingIsDefault Y Y.asUInt32 root (ascii "healthCheck") (ascii "timeoutMs")
    prior.timeoutMs ({} : HealthCheckConfig).timeoutMs
  unhealthyThreshold : MissingIsDefault Y Y.asUInt32 root (ascii "healthCheck")
    (ascii "unhealthyThreshold")
    prior.unhealthyThreshold ({} : HealthCheckConfig).unhealthyThreshold

structure ConnectionDefault (root : N) (prior : ConnectionConfig) : Prop where
  maxPerService : MissingIsDefault Y Y.asUInt32 root (ascii "connection") (ascii "maxPerService")
    prior.maxPerService ({} : ConnectionConfig).maxPerService
  idleTimeoutMs : MissingIsDefault Y Y.asUInt32 root (ascii "connection") (ascii "idleTimeoutMs")
    prior.idleTimeoutMs ({} : ConnectionConfig).idleTimeoutMs
  connectTimeoutMs : MissingIsDefault Y Y.asUInt32 root (ascii "connection")
    (ascii "connectTimeoutMs")
    prior.connectTimeoutMs ({} : ConnectionConfig).connectTimeoutMs

structure MissingAreDefault (root : N) (c : LoadBalancerConfig) : Prop where
  healthCheck : HealthCheckDefault Y root c.healthCheck
  connection : ConnectionDefault Y root c.connection

/-- The root's keys are overlaid, a section being one value. -/
structure Loaded (root : N) (c d : LoadBalancerConfig) : Prop where
  name : TakesOver (Y.field Y.asString root (ascii "name")) c.name d.name
  listenAddress : TakesOver (Y.field Y.asString root (ascii "listenAddress"))
    c.listenAddress d.listenAddress
  listenPort : TakesOver (Y.field Y.asUInt16 root (ascii "listenPort")) c.listenPort d.listenPort
  routingAlgorithm : TakesOver (Y.field Y.asString root (ascii "routingAlgorithm"))
    c.routingAlgorithm d.routingAlgorithm
  healthCheck : TakesOver (Y.field (readHealthCheck Y) root (ascii "healthCheck"))
    c.healthCheck d.healthCheck
  connection : TakesOver (Y.field (readConnection Y) root (ascii "connection"))
    c.connection d.connection

variable {Y}

/-! ### The root -/

theorem takesOver_getD {α : Type} {read : Except Bytes (Option α)} {o : Option α}
    (h : read = .ok o) (prior : α) : TakesOver read prior (o.getD prior) := by
  cases o with
  | none => exact Or.inr ⟨h, rfl⟩
  | some v => exact Or.inl h

theorem addServices_ok (serviceNodes : List N) : ∀ {c d : LoadBalancerConfig},
    addServices Y serviceNodes c = .ok () d → ∃ l, d = { c with services := l } := by
  induction serviceNodes with
  | nil =>
    intro c d h
    cases h
    exact ⟨c.services, rfl⟩
  | cons serviceNode rest ih =>
    intro c d h
    cases hs : readService Y serviceNode with
    | error what =>
      simp only [addServices, List.forM_eq_forM, List.forM_cons, hs] at h
      cases h
    | ok service =>
      rw [addServices_cons hs] at h
      obtain ⟨l, rfl⟩ := ih h
      exact ⟨l, rfl⟩

theorem loaded_of_loadRoot {root : N} {c d : LoadBalancerConfig}
    (h : loadRoot Y root c = .ok () d) : Loaded Y root c d := by
  have hclear : ∀ rest : Unit → Loading Unit,
      (modify (·.clearServices) >>= rest) c = rest () c.clearServices := fun _ => rfl
  rw [loadRoot, hclear, LoadBalancerConfig.clearServices] at h
  rcases h1 : Y.field Y.asString root (ascii "name") with what | o1
  · rw [overlay_error h1] at h
    cases h
  rw [overlay_ok h1 (·.name) fun _ => rfl] at h
  rcases h2 : Y.field Y.asString root (ascii "listenAddress") with what | o2
  · rw [overlay_error h2] at h
    cases h
  rw [overlay_ok h2 (·.listenAddress) fun _ => rfl] at h
  rcases h3 : Y.field Y.asUInt16 root (ascii "listenPort") with what | o3
  · rw [overlay_error h3] at h
    cases h
  rw [overlay_ok h3 (·.listenPort) fun _ => rfl] at h
  rcases h4 : Y.field Y.asString root (ascii "routingAlgorithm") with what | o4
  · rw [overlay_error h4] at h
    cases h
  rw [overlay_ok h4 (·.routingAlgorithm) fun _ => rfl] at h
  rcases h5 : Y.field (readHealthCheck Y) root (ascii "healthCheck") with what | o5
  · rw [overlay_error h5] at h
    cases h
  rw [overlay_ok h5 (·.healthCheck) fun _ => rfl] at h
  rcases h6 : Y.field (readConnection Y) root (ascii "connection") with what | o6
  · rw [overlay_error h6] at h
    cases h
  rw [overlay_ok h6 (·.connection) fun _ => rfl] at h
  obtain ⟨l, rfl⟩ : ∃ l, d = ⟨o1.getD c.name, o2.getD c.listenAddress, o3.getD c.listenPort,
      o4.getD c.routingAlgorithm, l, o5.getD c.healthCheck, o6.getD c.connection⟩ := by
    rcases h7 : Y.field pure root (ascii "services") with what | _ | node
    · rw [h7] at h
      cases h
    · rw [h7, ofExcept_ok, pure_bind] at h
      cases h
      exact ⟨_, rfl⟩
    · rw [h7, ofExcept_ok, pure_bind] at h
      exact addServices_ok _ h
  exact ⟨takesOver_getD h1 _, takesOver_getD h2 _, takesOver_getD h3 _, takesOver_getD h4 _,
    takesOver_getD h5 _, takesOver_getD h6 _⟩

/-- **A load overlays the keys of the root.** -/
theorem loaded_of_load {files : Files} {c d : LoadBalancerConfig} {filePath : Bytes} {root : N}
    (hroot : loadFile Y files filePath = .ok root) (h : load Y files c filePath = (.ok (), d)) :
    Loaded Y root c d := by
  rw [load, hroot] at h
  simp only [EStateM.run] at h
  split at h
  · next e he =>
    cases h
    exact loaded_of_loadRoot he
  · cases h

/-! ### A section -/

/-- A key is read in two steps: its node is found, and then converted. -/
theorem field_cases {α : Type} (as : N → Except Bytes α) (root : N) (key : Bytes) :
    (∃ what, Y.field as root key = .error what ∧ Y.field pure root key = .error what) ∨
      (Y.field as root key = .ok none ∧ Y.field pure root key = .ok none) ∨
      ∃ node, Y.field as root key = (as node).map some ∧
        Y.field pure root key = .ok (some node) := by
  simp only [YamlCpp.field, bind, Except.bind, pure, Except.pure]
  cases Y.get root key with
  | error what => exact Or.inl ⟨what, rfl, rfl⟩
  | ok node =>
    cases hdef : Y.isDefined node with
    | false => simp [hdef]
    | true =>
      refine Or.inr (Or.inr ⟨node, ?_, by simp [hdef]⟩)
      cases has : as node <;> simp [hdef, has, Except.map]

theorem section_cases {α : Type} {as : N → Except Bytes α} {root : N} {key : Bytes}
    {prior new : α} (h : TakesOver (Y.field as root key) prior new) :
    Y.field pure root key = .ok none ∧ new = prior ∨
      ∃ node, Y.field pure root key = .ok (some node) ∧ as node = .ok new := by
  rcases field_cases (Y := Y) as root key with ⟨what, has, -⟩ | ⟨has, hpure⟩ | ⟨node, has, hpure⟩
  · rw [has] at h
    rcases h with h | ⟨h, -⟩ <;> cases h
  · rw [has] at h
    rcases h with h | ⟨-, h⟩
    · cases h
    · exact Or.inl ⟨hpure, h⟩
  · refine Or.inr ⟨node, hpure, ?_⟩
    rw [has] at h
    cases hn : as node with
    | error what =>
      rw [hn] at h
      rcases h with h | ⟨h, -⟩ <;> cases h
    | ok v =>
      rw [hn] at h
      rcases h with h | ⟨h, -⟩
      · cases h
        rfl
      · cases h

theorem takesOver_absent {α : Type} {as : N → Except Bytes α} {root : N} {name key : Bytes}
    (h : Y.field pure root name = .ok none) (prior : α) :
    TakesOver (sectionField Y as root name key) prior prior := by
  refine Or.inr ⟨?_, rfl⟩
  rw [sectionField, h]
  rfl

theorem missingIsDefault_absent {α : Type} {as : N → Except Bytes α} {root : N}
    {name key : Bytes} (h : Y.field pure root name = .ok none) (prior default : α) :
    MissingIsDefault Y as root name key prior default := by
  intro node hnode
  rw [h] at hnode
  cases hnode

/-- A key of a section is overlaid exactly when it is there or the target has
its default. -/
theorem takesOver_section {α : Type} {as : N → Except Bytes α} {root node : N} {name key : Bytes}
    {o : Option α} (h : Y.field pure root name = .ok (some node))
    (hkey : Y.field as node key = .ok o) (prior default : α) :
    TakesOver (sectionField Y as root name key) prior (o.getD default) ↔
      MissingIsDefault Y as root name key prior default := by
  have hread : sectionField Y as root name key = .ok o := by
    rw [sectionField, h]
    exact hkey
  rw [TakesOver, hread]
  constructor
  · intro ht node' hnode' hmissing
    rw [h] at hnode'
    cases hnode'
    rw [hkey] at hmissing
    cases hmissing
    rcases ht with ht | ⟨-, ht⟩
    · cases ht
    · exact ht.symm
  · intro hm
    cases o with
    | none => exact Or.inr ⟨rfl, (hm node h hkey).symm⟩
    | some v => exact Or.inl rfl

theorem readHealthCheck_ok {node : N} {hc : HealthCheckConfig}
    (h : readHealthCheck Y node = .ok hc) : ∃ o1 o2 o3 o4,
      Y.field Y.asBool node (ascii "enabled") = .ok o1 ∧
      Y.field Y.asUInt32 node (ascii "intervalMs") = .ok o2 ∧
      Y.field Y.asUInt32 node (ascii "timeoutMs") = .ok o3 ∧
      Y.field Y.asUInt32 node (ascii "unhealthyThreshold") = .ok o4 ∧
      hc = ⟨o1.getD ({} : HealthCheckConfig).enabled, o2.getD ({} : HealthCheckConfig).intervalMs,
        o3.getD ({} : HealthCheckConfig).timeoutMs,
        o4.getD ({} : HealthCheckConfig).unhealthyThreshold⟩ := by
  rw [readHealthCheck] at h
  rcases h1 : Y.field Y.asBool node (ascii "enabled") with what | o1
  · rw [h1] at h
    cases h
  rcases h2 : Y.field Y.asUInt32 node (ascii "intervalMs") with what | o2
  · rw [h1, h2] at h
    cases o1 <;> cases h
  rcases h3 : Y.field Y.asUInt32 node (ascii "timeoutMs") with what | o3
  · rw [h1, h2, h3] at h
    cases o1 <;> cases o2 <;> cases h
  rcases h4 : Y.field Y.asUInt32 node (ascii "unhealthyThreshold") with what | o4
  · rw [h1, h2, h3, h4] at h
    cases o1 <;> cases o2 <;> cases o3 <;> cases h
  refine ⟨o1, o2, o3, o4, rfl, rfl, rfl, rfl, ?_⟩
  rw [h1, h2, h3, h4] at h
  cases o1 <;> cases o2 <;> cases o3 <;> cases o4 <;> cases h <;> rfl

theorem readConnection_ok {node : N} {conn : ConnectionConfig}
    (h : readConnection Y node = .ok conn) : ∃ o1 o2 o3,
      Y.field Y.asUInt32 node (ascii "maxPerService") = .ok o1 ∧
      Y.field Y.asUInt32 node (ascii "idleTimeoutMs") = .ok o2 ∧
      Y.field Y.asUInt32 node (ascii "connectTimeoutMs") = .ok o3 ∧
      conn = ⟨o1.getD ({} : ConnectionConfig).maxPerService,
        o2.getD ({} : ConnectionConfig).idleTimeoutMs,
        o3.getD ({} : ConnectionConfig).connectTimeoutMs⟩ := by
  rw [readConnection] at h
  rcases h1 : Y.field Y.asUInt32 node (ascii "maxPerService") with what | o1
  · rw [h1] at h
    cases h
  rcases h2 : Y.field Y.asUInt32 node (ascii "idleTimeoutMs") with what | o2
  · rw [h1, h2] at h
    cases o1 <;> cases h
  rcases h3 : Y.field Y.asUInt32 node (ascii "connectTimeoutMs") with what | o3
  · rw [h1, h2, h3] at h
    cases o1 <;> cases o2 <;> cases h
  refine ⟨o1, o2, o3, rfl, rfl, rfl, ?_⟩
  rw [h1, h2, h3] at h
  cases o1 <;> cases o2 <;> cases o3 <;> cases h <;> rfl

theorem healthCheckOverlaid_iff {root : N} {prior new : HealthCheckConfig}
    (h : TakesOver (Y.field (readHealthCheck Y) root (ascii "healthCheck")) prior new) :
    HealthCheckOverlaid Y root prior new ↔ HealthCheckDefault Y root prior := by
  rcases section_cases h with ⟨habsent, rfl⟩ | ⟨node, hnode, hread⟩
  · exact iff_of_true
      ⟨takesOver_absent habsent _, takesOver_absent habsent _, takesOver_absent habsent _,
        takesOver_absent habsent _⟩
      ⟨missingIsDefault_absent habsent _ _, missingIsDefault_absent habsent _ _,
        missingIsDefault_absent habsent _ _, missingIsDefault_absent habsent _ _⟩
  · obtain ⟨o1, o2, o3, o4, h1, h2, h3, h4, rfl⟩ := readHealthCheck_ok hread
    have e1 := takesOver_section hnode h1 prior.enabled ({} : HealthCheckConfig).enabled
    have e2 := takesOver_section hnode h2 prior.intervalMs ({} : HealthCheckConfig).intervalMs
    have e3 := takesOver_section hnode h3 prior.timeoutMs ({} : HealthCheckConfig).timeoutMs
    have e4 := takesOver_section hnode h4 prior.unhealthyThreshold
      ({} : HealthCheckConfig).unhealthyThreshold
    constructor
    · exact fun ho => ⟨e1.mp ho.enabled, e2.mp ho.intervalMs, e3.mp ho.timeoutMs,
        e4.mp ho.unhealthyThreshold⟩
    · exact fun hm => ⟨e1.mpr hm.enabled, e2.mpr hm.intervalMs, e3.mpr hm.timeoutMs,
        e4.mpr hm.unhealthyThreshold⟩

theorem connectionOverlaid_iff {root : N} {prior new : ConnectionConfig}
    (h : TakesOver (Y.field (readConnection Y) root (ascii "connection")) prior new) :
    ConnectionOverlaid Y root prior new ↔ ConnectionDefault Y root prior := by
  rcases section_cases h with ⟨habsent, rfl⟩ | ⟨node, hnode, hread⟩
  · exact iff_of_true
      ⟨takesOver_absent habsent _, takesOver_absent habsent _, takesOver_absent habsent _⟩
      ⟨missingIsDefault_absent habsent _ _, missingIsDefault_absent habsent _ _,
        missingIsDefault_absent habsent _ _⟩
  · obtain ⟨o1, o2, o3, h1, h2, h3, rfl⟩ := readConnection_ok hread
    have e1 := takesOver_section hnode h1 prior.maxPerService
      ({} : ConnectionConfig).maxPerService
    have e2 := takesOver_section hnode h2 prior.idleTimeoutMs
      ({} : ConnectionConfig).idleTimeoutMs
    have e3 := takesOver_section hnode h3 prior.connectTimeoutMs
      ({} : ConnectionConfig).connectTimeoutMs
    constructor
    · exact fun ho => ⟨e1.mp ho.maxPerService, e2.mp ho.idleTimeoutMs, e3.mp ho.connectTimeoutMs⟩
    · exact fun hm =>
        ⟨e1.mpr hm.maxPerService, e2.mpr hm.idleTimeoutMs, e3.mpr hm.connectTimeoutMs⟩

/-- **When a load overlays the file on the configuration.**  For every target
and every document that `Load` accepts: the eleven scalar fields are overlaid
if and only if each key that a section of the document lacks has its built-in
default in the target. -/
theorem load_overlays {files : Files} {c d : LoadBalancerConfig} {filePath : Bytes} {root : N}
    (hroot : loadFile Y files filePath = .ok root) (h : load Y files c filePath = (.ok (), d)) :
    Overlaid Y root c d ↔ MissingAreDefault Y root c := by
  have hl := loaded_of_load hroot h
  have hhealth := healthCheckOverlaid_iff hl.healthCheck
  have hconnection := connectionOverlaid_iff hl.connection
  constructor
  · exact fun ho => ⟨hhealth.mp ho.healthCheck, hconnection.mp ho.connection⟩
  · exact fun hm => ⟨hl.name, hl.listenAddress, hl.listenPort, hl.routingAlgorithm,
      hhealth.mpr hm.healthCheck, hconnection.mpr hm.connection⟩

/-- A section with the interval only, over a target whose other health check
values are the defaults; the connection values are not, and their section is not
there. -/
theorem load_overlays_interval :
    let text := ascii "name: edge\nhealthCheck:\n  intervalMs: 1000"
    let document : Node := .map [(ascii "name", .scalar (.string (ascii "edge"))),
      (ascii "healthCheck", .map [(ascii "intervalMs", .scalar (.uint32 1000))])]
    let Y := YamlCpp.ofDocument document text
    let c : LoadBalancerConfig :=
      { healthCheck := { intervalMs := 250 }, connection := ⟨7, 0, 100⟩ }
    let d := { c with name := ascii "edge", healthCheck := { intervalMs := 1000 } }
    load Y (fun _ => some text) c (ascii "lb.yaml") = (.ok (), d) ∧
      Overlaid Y (some document) c d := by
  intro text document Y c d
  have hroot : loadFile Y (fun _ => some text) (ascii "lb.yaml") = .ok (some document) := rfl
  have hload : load Y (fun _ => some text) c (ascii "lb.yaml") = (.ok (), d) := rfl
  refine ⟨hload, (load_overlays hroot hload).mpr ⟨⟨fun _ _ _ => rfl, ?_, fun _ _ _ => rfl,
    fun _ _ _ => rfl⟩, ?_⟩⟩
  · -- the interval is there
    intro node hnode hmissing
    cases hnode
    cases hmissing
  · exact ⟨missingIsDefault_absent rfl _ _, missingIsDefault_absent rfl _ _,
      missingIsDefault_absent rfl _ _⟩

/-- **A key that is not there is reset.**  A section sets the interval, and the
threshold of the settings is lost. -/
theorem threshold_reset : ¬∀ (N : Type) (Y : YamlCpp N) (files : Files)
    (c d : LoadBalancerConfig) (filePath : Bytes) (root : N),
    loadFile Y files filePath = .ok root → load Y files c filePath = (.ok (), d) →
      Overlaid Y root c d := by
  intro h
  let text := ascii "healthCheck: {intervalMs: 1000}"
  let tree : Node := .map [(ascii "healthCheck",
    .map [(ascii "intervalMs", .scalar (.uint32 1000))])]
  let c : LoadBalancerConfig := { healthCheck := { unhealthyThreshold := 5 } }
  have ho := h _ (YamlCpp.ofDocument tree text) (fun _ => some text) c
    { healthCheck := { intervalMs := 1000 } } (ascii "lb.yaml") (some tree) rfl rfl
  rcases ho.healthCheck.unhealthyThreshold with hv | ⟨-, hv⟩
  · cases hv
  · exact absurd hv (by decide)

end YamlConfigSerializer

end BitBridge
