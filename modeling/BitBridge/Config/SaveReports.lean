import BitBridge.Config.Serializer

/-!
# What `Save` reports

Four things can go wrong in `Save`.  The emitter's exception becomes an error,
and so does a file that cannot be opened.  A `filesystem_error` of
`create_directories` is not caught, and the stream is not looked at after the
write.

* `save_error`: the failures that are reported.
* `save_reports`: **`Save` reports truthfully** exactly when the parent path can
  be created and the write comes through, as far as they are tried.
* `save_of_full_disk`: a document that is cut short is reported as saved.
-/

namespace BitBridge

open Yaml

namespace YamlConfigSerializer

variable {N : Type} (Y : YamlCpp N)

inductive SaveFails (disk : Disk) (config : LoadBalancerConfig) (filePath : Bytes) : Prop
  | emit {what : Bytes} (h : Y.emit (document config) = .error what)
  | parent (h : disk.hasParentPath filePath = true) (hc : disk.createDirectories filePath = false)
  | unopened (h : disk.canOpen filePath = false)
  | write {text : Bytes} (h : Y.emit (document config) = .ok text)
    (hw : disk.written filePath text ≠ text)

/-- No exception escapes, a failure is an error, and success means that the file
is the document. -/
structure SaveReported (disk : Disk) (files : Files) (config : LoadBalancerConfig)
    (filePath : Bytes) : Prop where
  returns : (save Y disk files config filePath).1 ≠ .threw
  failed : SaveFails Y disk config filePath →
    ∃ what, (save Y disk files config filePath).1 = .returned (.error what)
  complete : (save Y disk files config filePath).1 = .returned (.ok ()) →
    ∃ text, Y.emit (document config) = .ok text ∧
      (save Y disk files config filePath).2 filePath = some text

/-- Where `Save` gets to them, the parent path can be created and the document
can be written. -/
def DiskHolds (disk : Disk) (config : LoadBalancerConfig) (filePath : Bytes) : Prop :=
  ∀ text, Y.emit (document config) = .ok text →
    (disk.hasParentPath filePath = true → disk.createDirectories filePath = true) ∧
      (disk.canOpen filePath = true → disk.written filePath text = text)

variable {Y} {disk : Disk} {files : Files} {config : LoadBalancerConfig} {filePath text : Bytes}

/-! ### One lemma for each way to end -/

theorem save_of_emit_error {what : Bytes} (h : Y.emit (document config) = .error what) :
    save Y disk files config filePath = (.returned (.error (yamlError what)), files) := by
  rw [save, h]

theorem save_of_parent (h : Y.emit (document config) = .ok text)
    (hp : disk.hasParentPath filePath = true) (hc : disk.createDirectories filePath = false) :
    save Y disk files config filePath = (.threw, files) := by
  simp [save, h, hp, hc]

theorem save_of_unopened (h : Y.emit (document config) = .ok text)
    (hp : disk.hasParentPath filePath = true → disk.createDirectories filePath = true)
    (ho : disk.canOpen filePath = false) : save Y disk files config filePath =
      (.returned (.error (ascii "Failed to open file for writing: " ++ filePath)), files) := by
  cases hpp : disk.hasParentPath filePath with
  | false => simp [save, h, hpp, ho]
  | true => simp [save, h, hpp, hp hpp, ho]

theorem save_error (hd : DiskHolds Y disk config filePath) (hf : SaveFails Y disk config filePath) :
    ∃ what, (save Y disk files config filePath).1 = .returned (.error what) := by
  cases he : Y.emit (document config) with
  | error what => exact ⟨_, congrArg Prod.fst (save_of_emit_error he)⟩
  | ok text =>
    obtain ⟨hp, hw⟩ := hd text he
    have hopen : disk.canOpen filePath = false := by
      cases hf with
      | emit h => rw [he] at h; cases h
      | parent h hc => rw [hp h] at hc; cases hc
      | unopened h => exact h
      | write h hne =>
        rw [he] at h
        cases h
        by_contra ho
        exact hne (hw (by simpa using ho))
    exact ⟨_, congrArg Prod.fst (save_of_unopened he hp hopen)⟩

theorem saveReported_of_diskHolds (hd : DiskHolds Y disk config filePath) (files : Files) :
    SaveReported Y disk files config filePath := by
  refine ⟨?_, save_error hd, ?_⟩
  · cases he : Y.emit (document config) with
    | error what => rw [save_of_emit_error he]; exact Outcome.noConfusion
    | ok text =>
      cases ho : disk.canOpen filePath with
      | false => rw [save_of_unopened he (hd text he).1 ho]; exact Outcome.noConfusion
      | true => rw [save_of_opens Y ⟨(hd text he).1, ho⟩ he]; exact Outcome.noConfusion
  · intro hok
    cases he : Y.emit (document config) with
    | error what => rw [save_of_emit_error he] at hok; cases hok
    | ok text =>
      obtain ⟨hp, hw⟩ := hd text he
      cases ho : disk.canOpen filePath with
      | false => rw [save_of_unopened he hp ho] at hok; cases hok
      | true =>
        refine ⟨text, rfl, ?_⟩
        rw [save_of_opens Y ⟨hp, ho⟩ he, hw ho]
        exact Function.update_self filePath _ files

theorem diskHolds_of_saveReported (hr : SaveReported Y disk files config filePath) :
    DiskHolds Y disk config filePath := by
  intro text he
  have hp : disk.hasParentPath filePath = true → disk.createDirectories filePath = true := by
    intro h
    by_contra hc
    exact hr.returns (congrArg Prod.fst (save_of_parent he h (by simpa using hc)))
  refine ⟨hp, fun ho => ?_⟩
  have hs : save Y disk files config filePath = (.returned (.ok ()),
      Function.update files filePath (some (disk.written filePath text))) :=
    save_of_opens Y ⟨hp, ho⟩ he files
  obtain ⟨text', he', hfile⟩ := hr.complete (congrArg Prod.fst hs)
  rw [he] at he'
  cases he'
  rw [hs] at hfile
  exact Option.some.inj ((Function.update_self filePath _ files).symm.trans hfile)

/-- **When `Save` reports truthfully.**  For every configuration, path and disk:
no exception escapes, every failure is returned as an error and success means
that the whole document was written, if and only if the parent path can be
created and the write comes through, where `Save` gets so far. -/
theorem save_reports (Y : YamlCpp N) (disk : Disk) (files : Files) (config : LoadBalancerConfig)
    (filePath : Bytes) :
    SaveReported Y disk files config filePath ↔ DiskHolds Y disk config filePath :=
  ⟨diskHolds_of_saveReported, fun hd => saveReported_of_diskHolds hd files⟩

/-- **A document that is cut short is reported as saved.** -/
theorem save_of_full_disk : ¬∀ (N : Type) (Y : YamlCpp N) (disk : Disk) (files : Files)
    (config : LoadBalancerConfig) (filePath : Bytes),
    SaveReported Y disk files config filePath := by
  intro h
  let text := ascii "name: my-bit-bridge-lb"
  let full : Disk := ⟨fun _ => false, fun _ => true, fun _ => true, fun _ text => text.take 4⟩
  have hd := diskHolds_of_saveReported
    (h _ (YamlCpp.ofDocument (tree {}) text) full (fun _ => none) {} (ascii "lb.yaml"))
  have htext : (YamlCpp.ofDocument (tree {}) text).emit (document {}) = .ok text := by
    rw [← tokens_tree]
    exact YamlCpp.emit_ofDocument _ _
  exact absurd ((hd text htext).2 rfl) (by decide)

end YamlConfigSerializer

end BitBridge
