import BitBridge.Config.Serializer

/-!
# A load that fails

`Load` clears the services and sets the fields of its target one by one; a
conversion further down may still throw, and nothing is put back.  The window
loads into its live configuration at start, and into a fresh one on request.

* `loadRoot_cases`: what `Load` leaves in the target, with an exception or without.
* `failed_load`: **a failed load leaves the target alone** exactly when all that
  it set before the exception was there already.
* `port_after_name`: a bad port, behind a name that is set.
-/

namespace BitBridge

namespace YamlConfigSerializer

variable {N : Type} (Y : YamlCpp N)

/-- One `if (root[key])` of `Load`: an exception, or whether the field that is
now `v` stays what it is. -/
def keeps {α : Type} [DecidableEq α] (read : Except Bytes (Option α)) (v : α) :
    Except Bytes Bool :=
  read.map fun o => o.all fun w => w = v

/-- The fields of the target in the order in which `Load` sets them. -/
def fieldReads (root : N) (c : LoadBalancerConfig) : List (Except Bytes Bool) :=
  [keeps (Y.field Y.asString root (ascii "name")) c.name,
    keeps (Y.field Y.asString root (ascii "listenAddress")) c.listenAddress,
    keeps (Y.field Y.asUInt16 root (ascii "listenPort")) c.listenPort,
    keeps (Y.field Y.asString root (ascii "routingAlgorithm")) c.routingAlgorithm,
    keeps (Y.field (readHealthCheck Y) root (ascii "healthCheck")) c.healthCheck,
    keeps (Y.field (readConnection Y) root (ascii "connection")) c.connection]

def serviceReads (root : N) : List (Except Bytes ServiceNode) :=
  match Y.field pure root (ascii "services") with
  | .error what => [.error what]
  | .ok none => []
  | .ok (some services) => (Y.items services).map (readService Y)

def Converts (root : N) (c : LoadBalancerConfig) : Prop :=
  (∀ r ∈ fieldReads Y root c, r.isOk = true) ∧ ∀ r ∈ serviceReads Y root, r.isOk = true

/-- What is set before the first exception is what the target has already. -/
def SetsNothingNew (root : N) (c : LoadBalancerConfig) : Prop :=
  (∀ r ∈ (fieldReads Y root c).takeWhile Except.isOk, r = .ok true) ∧
    c.services.map .ok =
      if ∀ r ∈ fieldReads Y root c, r.isOk = true then (serviceReads Y root).takeWhile Except.isOk
      else []

/-! ### One statement of `Load` -/

section

variable {Y} {α : Type} {as : N → Except Bytes α} {root : N} {key : Bytes}
  {set : α → LoadBalancerConfig → LoadBalancerConfig}

theorem overlay_error {what : Bytes} (h : Y.field as root key = .error what)
    (rest : Unit → Loading Unit) (d : LoadBalancerConfig) :
    (overlay Y as root key set >>= rest) d = .error what d := by
  simp only [overlay, h]
  rfl

theorem overlay_ok {o : Option α} (h : Y.field as root key = .ok o)
    (get : LoadBalancerConfig → α) (hget : ∀ d, set (get d) d = d)
    (rest : Unit → Loading Unit) (d : LoadBalancerConfig) :
    (overlay Y as root key set >>= rest) d = rest () (set (o.getD (get d)) d) := by
  simp only [overlay, h]
  cases o with
  | none => exact congrArg (rest ()) (hget d).symm
  | some v => rfl

end

@[simp] theorem keeps_ok {α : Type} [DecidableEq α] (o : Option α) (v : α) :
    keeps (.ok o) v = .ok (o.all fun w => w = v) := rfl

@[simp] theorem isOk_ok {α : Type} (v : α) : (Except.ok v : Except Bytes α).isOk = true := rfl

theorem keeps_eq_true {α : Type} [DecidableEq α] {o : Option α} {v : α} :
    (o.all fun w => w = v) = true ↔ o.getD v = v := by
  cases o <;> simp

/-- What the loop over the entries leaves in the target. -/
inductive Added (d : LoadBalancerConfig) :
    List (Except Bytes ServiceNode) → EStateM.Result Bytes LoadBalancerConfig Unit → Prop
  | ok {l : List (Except Bytes ServiceNode)} {e : LoadBalancerConfig}
    (hl : ∀ r ∈ l, r.isOk = true) : Added d l (.ok () e)
  | error {l : List (Except Bytes ServiceNode)} {what : Bytes} {added : List ServiceNode}
    (hl : ¬∀ r ∈ l, r.isOk = true) (ha : added.map .ok = l.takeWhile Except.isOk) :
    Added d l (.error what { d with services := d.services ++ added })

theorem Added.cons {d : LoadBalancerConfig} {l : List (Except Bytes ServiceNode)}
    {result : EStateM.Result Bytes LoadBalancerConfig Unit} {service : ServiceNode}
    (h : Added (d.addService service) l result) : Added d (.ok service :: l) result := by
  cases h with
  | ok hl =>
    refine .ok fun r hr => ?_
    rcases List.mem_cons.mp hr with rfl | hr
    · rfl
    · exact hl r hr
  | @error what added hl ha =>
    have h : Added d (.ok service :: l)
        (.error what { d with services := d.services ++ service :: added }) :=
      .error (fun h => hl fun r hr => h r (List.mem_cons_of_mem _ hr))
        (by rw [List.map_cons, ha]; rfl)
    rw [List.append_cons] at h
    exact h

theorem added_addServices (serviceNodes : List N) : ∀ d : LoadBalancerConfig,
    Added d (serviceNodes.map (readService Y)) (addServices Y serviceNodes d) := by
  induction serviceNodes with
  | nil => exact fun d => .ok (List.forall_mem_nil _)
  | cons serviceNode rest ih =>
    intro d
    rw [List.map_cons]
    cases hs : readService Y serviceNode with
    | error what =>
      have hrun : addServices Y (serviceNode :: rest) d = .error what d := by
        simp only [addServices, List.forM_eq_forM, List.forM_cons, hs]
        rfl
      have h : Added d (.error what :: rest.map (readService Y))
          (.error what { d with services := d.services ++ [] }) :=
        .error (fun h => Bool.false_ne_true (h _ List.mem_cons_self)) rfl
      rw [List.append_nil] at h
      rwa [hrun]
    | ok service =>
      rw [addServices_cons hs]
      exact (ih (d.addService service)).cons

/-! ### The body of `Load` -/

variable {Y}

theorem stopped {root : N} {c e : LoadBalancerConfig} {what : Bytes} (n : Nat)
    (h : (fieldReads Y root c)[n]? = some (.error what))
    (hb : ∀ r ∈ (fieldReads Y root c).take n, r.isOk = true)
    (he : e = c ↔ (∀ r ∈ (fieldReads Y root c).take n, r = .ok true) ∧ c.services = []) :
    ¬Converts Y root c ∧ (e = c ↔ SetsNothingNew Y root c) := by
  have hbad : ¬∀ r ∈ fieldReads Y root c, r.isOk = true := fun hall =>
    Bool.false_ne_true (hall _ (List.mem_of_getElem? h))
  obtain ⟨hn, hget⟩ := List.getElem?_eq_some_iff.mp h
  have hsplit : (fieldReads Y root c).takeWhile Except.isOk = (fieldReads Y root c).take n := by
    conv_lhs => rw [← List.take_append_drop n (fieldReads Y root c)]
    rw [List.takeWhile_append_of_pos hb, List.drop_eq_getElem_cons hn, hget]
    exact List.append_nil _
  refine ⟨fun hc => hbad hc.1, ?_⟩
  rw [he, SetsNothingNew, if_neg hbad, List.map_eq_nil_iff, hsplit]

theorem stopped_services {root : N} {c e : LoadBalancerConfig} {added : List ServiceNode}
    (hall : ∀ r ∈ fieldReads Y root c, r.isOk = true)
    (hbad : ¬∀ r ∈ serviceReads Y root, r.isOk = true)
    (ha : added.map .ok = (serviceReads Y root).takeWhile Except.isOk)
    (he : e = c ↔ (∀ r ∈ fieldReads Y root c, r = .ok true) ∧ c.services = added) :
    ¬Converts Y root c ∧ (e = c ↔ SetsNothingNew Y root c) := by
  have hinj : c.services = added ↔
      c.services.map (fun v => (.ok v : Except Bytes ServiceNode)) = added.map .ok :=
    (List.map_injective_iff.mpr fun _ _ h => Except.ok.inj h).eq_iff.symm
  refine ⟨fun hc => hbad hc.2, ?_⟩
  have hself : (fieldReads Y root c).takeWhile Except.isOk = fieldReads Y root c := by
    have h : (fieldReads Y root c ++ []).takeWhile Except.isOk = fieldReads Y root c ++ [] :=
      List.takeWhile_append_of_pos hall
    rwa [List.append_nil] at h
  rw [he, SetsNothingNew, if_pos hall, hself, hinj, ha]

/-- The services are compared last. -/
theorem config_eq_iff {d c : LoadBalancerConfig} : d = c ↔
    (d.name = c.name ∧ d.listenAddress = c.listenAddress ∧ d.listenPort = c.listenPort ∧
      d.routingAlgorithm = c.routingAlgorithm ∧ d.healthCheck = c.healthCheck ∧
      d.connection = c.connection) ∧ c.services = d.services := by
  constructor
  · rintro rfl
    exact ⟨⟨rfl, rfl, rfl, rfl, rfl, rfl⟩, rfl⟩
  · obtain ⟨name, address, port, algorithm, services, healthCheck, connection⟩ := d
    rintro ⟨⟨rfl, rfl, rfl, rfl, rfl, rfl⟩, rfl⟩
    rfl

/-- **What `Load` leaves in the target.**  It stops at the first conversion that
fails, and then everything before that one is set. -/
theorem loadRoot_cases (root : N) (c : LoadBalancerConfig) :
    (∃ e, loadRoot Y root c = .ok () e ∧ Converts Y root c) ∨
      ∃ what e, loadRoot Y root c = .error what e ∧ ¬Converts Y root c ∧
        (e = c ↔ SetsNothingNew Y root c) := by
  have hclear : ∀ rest : Unit → Loading Unit,
      (modify (·.clearServices) >>= rest) c = rest () c.clearServices := fun _ => rfl
  rw [loadRoot, hclear, LoadBalancerConfig.clearServices]
  obtain ⟨name, address, port, algorithm, services, healthCheck, connection⟩ := c
  rcases h1 : Y.field Y.asString root (ascii "name") with what | o1
  · rw [overlay_error h1]
    exact .inr ⟨_, _, rfl, stopped 0 (by rw [fieldReads, h1]; rfl) (by simp)
      (by simp [config_eq_iff])⟩
  rw [overlay_ok h1 (·.name) fun _ => rfl]
  dsimp only
  rcases h2 : Y.field Y.asString root (ascii "listenAddress") with what | o2
  · rw [overlay_error h2]
    exact .inr ⟨_, _, rfl, stopped 1 (by rw [fieldReads, h2]; rfl) (by simp [fieldReads, h1])
      (by simp [fieldReads, h1, config_eq_iff, keeps_eq_true])⟩
  rw [overlay_ok h2 (·.listenAddress) fun _ => rfl]
  dsimp only
  rcases h3 : Y.field Y.asUInt16 root (ascii "listenPort") with what | o3
  · rw [overlay_error h3]
    exact .inr ⟨_, _, rfl, stopped 2 (by rw [fieldReads, h3]; rfl) (by simp [fieldReads, h1, h2])
      (by simp [fieldReads, h1, h2, config_eq_iff, keeps_eq_true])⟩
  rw [overlay_ok h3 (·.listenPort) fun _ => rfl]
  dsimp only
  rcases h4 : Y.field Y.asString root (ascii "routingAlgorithm") with what | o4
  · rw [overlay_error h4]
    exact .inr ⟨_, _, rfl, stopped 3 (by rw [fieldReads, h4]; rfl)
      (by simp [fieldReads, h1, h2, h3])
      (by simp [fieldReads, h1, h2, h3, config_eq_iff, keeps_eq_true])⟩
  rw [overlay_ok h4 (·.routingAlgorithm) fun _ => rfl]
  dsimp only
  rcases h5 : Y.field (readHealthCheck Y) root (ascii "healthCheck") with what | o5
  · rw [overlay_error h5]
    exact .inr ⟨_, _, rfl, stopped 4 (by rw [fieldReads, h5]; rfl)
      (by simp [fieldReads, h1, h2, h3, h4])
      (by simp [fieldReads, h1, h2, h3, h4, config_eq_iff, keeps_eq_true])⟩
  rw [overlay_ok h5 (·.healthCheck) fun _ => rfl]
  dsimp only
  rcases h6 : Y.field (readConnection Y) root (ascii "connection") with what | o6
  · rw [overlay_error h6]
    exact .inr ⟨_, _, rfl, stopped 5 (by rw [fieldReads, h6]; rfl)
      (by simp [fieldReads, h1, h2, h3, h4, h5])
      (by simp [fieldReads, h1, h2, h3, h4, h5, config_eq_iff, keeps_eq_true])⟩
  rw [overlay_ok h6 (·.connection) fun _ => rfl]
  dsimp only
  have hfields : ∀ r ∈ fieldReads Y root
      ⟨name, address, port, algorithm, services, healthCheck, connection⟩, r.isOk = true := by
    simp [fieldReads, h1, h2, h3, h4, h5, h6]
  rcases h7 : Y.field pure root (ascii "services") with what | _ | node
  · have hreads : serviceReads Y root = [.error what] := by rw [serviceReads, h7]
    have hnil : ([] : List ServiceNode).map .ok = (serviceReads Y root).takeWhile Except.isOk := by
      rw [hreads]
      rfl
    refine .inr ⟨what, _, rfl, stopped_services hfields ?_ hnil ?_⟩
    · rw [hreads]
      exact fun h => Bool.false_ne_true (h _ (List.mem_singleton_self _))
    · simp [fieldReads, h1, h2, h3, h4, h5, h6, config_eq_iff, keeps_eq_true]
  · refine .inl ⟨_, rfl, hfields, ?_⟩
    rw [serviceReads, h7]
    exact List.forall_mem_nil _
  · rw [ofExcept_ok, pure_bind]
    dsimp only
    have hreads : serviceReads Y root = (Y.items node).map (readService Y) := by
      rw [serviceReads, h7]
    have hadd := added_addServices Y (Y.items node)
      ⟨o1.getD name, o2.getD address, o3.getD port, o4.getD algorithm, [], o5.getD healthCheck,
        o6.getD connection⟩
    rw [← hreads] at hadd
    generalize addServices Y (Y.items node) _ = result at hadd ⊢
    cases hadd with
    | @ok e hl => exact .inl ⟨e, rfl, hfields, hl⟩
    | @error what added hl ha =>
      refine .inr ⟨what, _, rfl, stopped_services hfields hl ha ?_⟩
      simp [fieldReads, h1, h2, h3, h4, h5, h6, config_eq_iff, keeps_eq_true]

/-- **A load that fails.**  Into any target and from any file: the target is
left alone by every load that returns an error if and only if the file cannot be
read or parsed, or everything in it converts (there is no error), or all that is
set before the first conversion that fails is what the target has already. -/
theorem failed_load (files : Files) (c : LoadBalancerConfig) (filePath : Bytes) :
    (∀ what d, load Y files c filePath = (.error what, d) → d = c) ↔
      ∀ root, loadFile Y files filePath = .ok root →
        Converts Y root c ∨ SetsNothingNew Y root c := by
  constructor
  · intro h root hroot
    rcases loadRoot_cases (Y := Y) root c with ⟨e, -, hc⟩ | ⟨what, e, he, -, hiff⟩
    · exact .inl hc
    · refine .inr (hiff.mp (h (yamlError what) e ?_))
      rw [load, hroot]
      simp only [EStateM.run, he]
  · intro h what d hd
    rw [load] at hd
    split at hd
    · exact (Prod.mk.inj hd).2.symm
    · next root hroot =>
      rcases loadRoot_cases (Y := Y) root c with ⟨e, he, -⟩ | ⟨what', e, he, hno, hiff⟩
      · simp only [EStateM.run, he] at hd
        cases (Prod.mk.inj hd).1
      · simp only [EStateM.run, he] at hd
        rw [← (Prod.mk.inj hd).2]
        exact hiff.mpr ((h root hroot).resolve_left hno)

/-- A name that is set, and a port that does not convert. -/
theorem port_after_name : ¬∀ (N : Type) (Y : YamlCpp N) (files : Files) (c : LoadBalancerConfig)
    (filePath what : Bytes) (d : LoadBalancerConfig),
    load Y files c filePath = (.error what, d) → d = c := by
  intro h
  let text := ascii "name: edge\nlistenPort: http"
  let Y := YamlCpp.ofDocument (.map [(ascii "name", .scalar (.string (ascii "edge"))),
    (ascii "listenPort", .scalar (.string (ascii "http")))]) text
  let c : LoadBalancerConfig := { services := [{ name := ascii "web-1", ip := ascii "10.0.0.1" }] }
  have hload : load Y (fun _ => some text) c (ascii "lb.yaml") =
      (.error (yamlError (ascii "bad conversion")), { name := ascii "edge" }) := rfl
  have hc := h _ Y (fun _ => some text) c _ _ _ hload
  exact absurd (congrArg (·.services) hc) (by decide)

end YamlConfigSerializer

end BitBridge
