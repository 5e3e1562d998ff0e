import BitBridge.Ui.MainFrame
import BitBridge.Ui.SettingsRoundTrip

/-!
# Opening the editor again

`BitBridgeApp::OnInit` reads the settings and opens the window, and the
constructor of `MainFrame` starts on the defaults of the settings and loads the
file on top of them.  The window says "Unsaved Changes" when its flag is set.

* `new_of_file`: a window that is opened on a saved configuration shows it,
  whatever the defaults of the settings are.
* `Synced`: the flag tells the truth.
* `nothing_unsaved`: **without unsaved changes nothing is lost**: what the window
  shows is what it was opened with or what a load gives, and once it was saved a
  new window shows the same.
* `second_start`: from the first start, which writes the settings, to the second.
-/

namespace BitBridge

open Steps Yaml YamlConfigSerializer

namespace MainFrame

variable {N : Type} (Y : YamlCpp N)

/-- `MainFrame::LoadExistingConfig`; what `Load` set before an error stays. -/
def loadExistingConfig (files : Files) (configPath : Bytes) (s : MainFrame) : MainFrame :=
  if files configPath = none then s
  else
    match load Y files s.config configPath with
    | (.ok (), config) => { s with config := config, hasUnsavedChanges := false }
    | (.error _, config) => { s with config := config }

def new (files : Files) (settings : AppSettings) : MainFrame :=
  loadExistingConfig Y files settings.configFilePath
    ⟨settings.applyDefaultConfig {}, false, []⟩

def settingsPath : Bytes := ascii "bitbridge-settings.toml"

/-- `BitBridgeApp::OnInit`: the window, and the files with the settings. -/
def onInit {M : Type} (T : Toml.TomlPlusPlus M) (disk : Disk) (files : Files) :
    MainFrame × Files :=
  let (_, settings, files) := AppSettings.loadFromFile T disk files {} settingsPath
  (new Y files settings, files)

variable {Y}

theorem new_eq (files : Files) (settings : AppSettings) :
    new Y files settings = ⟨(new Y files settings).config, false, []⟩ := by
  unfold new loadExistingConfig
  split
  · rfl
  · split <;> rfl

/-- **Opening a window on a saved configuration.** -/
theorem new_of_file {node : Node → N} (h : Y.Reads node) {files : Files} {text : Bytes}
    {c : LoadBalancerConfig} (settings : AppSettings)
    (hfile : files settings.configFilePath = some text)
    (hload : Y.load text = .ok (node (tree c))) : new Y files settings = ⟨c, false, []⟩ := by
  have hread : load Y files (settings.applyDefaultConfig {}) settings.configFilePath =
      (.ok (), c) := by
    simp only [load, loadFile, hfile, hload, EStateM.run, loadRoot_tree h c]
  simp [new, loadExistingConfig, hfile, hread]

end MainFrame

/-! ### The flag -/

namespace Desktop

variable {N : Type} {W : Editor N} {node : Node → N} {first : LoadBalancerConfig} {s t : Desktop}

/-- No other program writes the file of the settings, and the parser returns
what the emitter is given. -/
def Alone (W : Editor N) (node : Node → N) (s : Desktop) : Event → Prop
  | .saveConfig _ => W.Y.RoundTrips node (document s.frame.config)
  | .write path _ => path ≠ W.configPath
  | _ => True

/-- Without unsaved changes the window shows what the window was opened with or
what a load gives; and a file of its own holds what it shows. -/
structure Synced (W : Editor N) (node : Node → N) (first : LoadBalancerConfig) (s : Desktop) :
    Prop where
  clean : s.frame.hasUnsavedChanges = false → s.frame.config = first ∨
    load W.Y s.files {} W.configPath = (.ok (), s.frame.config)
  ours : s.ours = true → ∃ c, Holds W node s.files c ∧
    (s.frame.hasUnsavedChanges = false → c = s.frame.config)

namespace Synced

theorem edit (h : s.Synced W node first) {f : MainFrame}
    (hf : f.hasUnsavedChanges = true ∨
      f.hasUnsavedChanges = s.frame.hasUnsavedChanges ∧ f.config = s.frame.config) :
    Synced W node first { s with frame := f } := by
  rcases hf with hf | ⟨hflag, hconfig⟩
  · have hset : f.hasUnsavedChanges ≠ false := by simp [hf]
    refine ⟨fun hc => absurd hc hset, fun hours => ?_⟩
    obtain ⟨c, hc, -⟩ := h.ours hours
    exact ⟨c, hc, fun hc => absurd hc hset⟩
  · refine ⟨fun hc => ?_, fun hours => ?_⟩
    · rw [hconfig]
      exact h.clean (hflag ▸ hc)
    · obtain ⟨c, hc, hs⟩ := h.ours hours
      exact ⟨c, hc, fun hflag' => (hs (hflag ▸ hflag')).trans hconfig.symm⟩

theorem addService (h : s.Synced W node first) (name ip portStr weightStr : Bytes) :
    Synced W node first
      { s with frame := s.frame.onAddService W.toULong name ip portStr weightStr } := by
  refine h.edit ?_
  unfold MainFrame.onAddService
  split
  · exact .inr ⟨rfl, rfl⟩
  · dsimp only
    split
    · exact .inr ⟨rfl, rfl⟩
    · exact .inl rfl

theorem removeService (h : s.Synced W node first) (isSelected : List Bool) :
    Synced W node first { s with frame := s.frame.onRemoveService isSelected } := by
  refine h.edit ?_
  unfold MainFrame.onRemoveService
  dsimp only
  split
  · exact .inr ⟨rfl, rfl⟩
  · exact .inl rfl

/-- **Saving** makes the file hold what the window shows, or changes nothing. -/
theorem saveConfig {disk : Disk} (h : s.Synced W node first) (hreads : W.Y.Reads node)
    (hround : W.Y.RoundTrips node (document s.frame.config))
    (hwhole : Whole W s (.saveConfig disk)) (hs : s.step W (.saveConfig disk) = some t) :
    t.Synced W node first := by
  obtain rfl := Option.some.inj hs
  obtain ⟨text, htext, hload⟩ := hround (tree s.frame.config) (tokens_tree s.frame.config)
  rcases save_cases W.Y disk s.files htext W.configPath with
    hsave | ⟨what, hsave⟩ | ⟨hopens, hsave⟩
  · simp only [MainFrame.onSaveConfig, writes, hsave, Bool.or_false]
    exact ⟨h.clean, h.ours⟩
  · simp only [MainFrame.onSaveConfig, writes, hsave, Bool.or_false]
    exact h.edit (.inr ⟨rfl, rfl⟩)
  · simp only [MainFrame.onSaveConfig, writes, hsave, hwhole text htext hopens]
    have hholds : Holds W node (Function.update s.files W.configPath (some text))
        s.frame.config := ⟨text, Function.update_self .., hload⟩
    exact ⟨fun _ => .inr (hholds.load_eq hreads {}), fun _ => ⟨_, hholds, fun _ => rfl⟩⟩

/-- **Loading** shows what the file holds, or changes nothing. -/
theorem loadConfig (h : s.Synced W node first) (hreads : W.Y.Reads node)
    (hs : s.step W .loadConfig = some t) : t.Synced W node first := by
  obtain rfl := Option.some.inj hs
  unfold MainFrame.onLoadConfig
  split
  · exact h.edit (.inr ⟨rfl, rfl⟩)
  · split
    · next newConfig hload =>
      refine ⟨fun _ => .inr hload, fun hours => ?_⟩
      obtain ⟨c, hc, -⟩ := h.ours hours
      refine ⟨c, hc, fun _ => ?_⟩
      rw [hc.load_eq hreads {}] at hload
      exact (Prod.mk.inj hload).2
    · exact h.edit (.inr ⟨rfl, rfl⟩)

theorem write (h : s.Synced W node first) {path : Bytes} {contents : Option Bytes}
    (hpath : path ≠ W.configPath) (hs : s.step W (.write path contents) = some t) :
    t.Synced W node first := by
  obtain rfl := Option.some.inj hs
  have hfile : Function.update s.files path contents W.configPath = s.files W.configPath :=
    Function.update_of_ne (Ne.symm hpath) ..
  refine ⟨fun hc => (h.clean hc).imp_right fun hl => ?_, fun hours => ?_⟩
  · rw [← hl]
    simp only [load, loadFile, hfile]
  · rw [Bool.and_eq_true] at hours
    obtain ⟨c, ⟨text, htext, hload⟩, hs⟩ := h.ours hours.1
    exact ⟨c, ⟨text, hfile.trans htext, hload⟩, hs⟩

theorem step (h : s.Synced W node first) (hreads : W.Y.Reads node) {e : Event}
    (hok : Alone W node s e) (hwhole : Whole W s e) (hs : s.step W e = some t) :
    t.Synced W node first := by
  cases e with
  | addService name ip portStr weightStr =>
    obtain rfl := Option.some.inj hs
    exact h.addService name ip portStr weightStr
  | removeService isSelected =>
    obtain rfl := Option.some.inj hs
    exact h.removeService isSelected
  | saveConfig => exact h.saveConfig hreads hok hwhole hs
  | loadConfig => exact h.loadConfig hreads hs
  | write => exact h.write hok hs

end Synced

/-- **Without unsaved changes nothing is lost.**  Open a window on any files with
any settings, let no other program write its file, and let no save be cut short.
Whenever the window does not say that there are unsaved changes, it shows what it
was opened with or what a load would show; and once it has saved, a window that
is opened on the files, with whatever defaults, shows exactly what this one
shows. -/
theorem nothing_unsaved {files : Files} {settings : AppSettings} (hreads : W.Y.Reads node)
    (h : ReachesIn (step W) (fun s e => Alone W node s e ∧ Whole W s e)
      (start (MainFrame.new W.Y files settings).config files) s)
    (hclean : s.frame.hasUnsavedChanges = false) :
    (s.frame.config = (MainFrame.new W.Y files settings).config ∨
      load W.Y s.files {} W.configPath = (.ok (), s.frame.config)) ∧
    (s.ours = true → ∀ later : AppSettings, later.configFilePath = W.configPath →
      MainFrame.new W.Y s.files later = ⟨s.frame.config, false, []⟩) := by
  have hs : s.Synced W node (MainFrame.new W.Y files settings).config :=
    h.invariant (I := Synced W node _) ⟨fun _ => .inl rfl, fun ho => absurd ho Bool.false_ne_true⟩
      fun hi hok hs => hi.step hreads hok.1 hok.2 hs
  refine ⟨hs.clean hclean, fun hours later hpath => ?_⟩
  obtain ⟨c, ⟨text, hfile, hload⟩, hc⟩ := hs.ours hours
  obtain rfl := hc hclean
  exact MainFrame.new_of_file hreads _ (hpath ▸ hfile) hload

/-- A service is added and saved, and the editor is opened again with a default
of another port. -/
theorem nothing_unsaved_web :
    let web : ServiceNode := { name := ascii "web-1", ip := ascii "10.0.0.1", port := 80 }
    let W : Editor (Option Node) :=
      ⟨YamlCpp.ofDocument (tree { services := [web] })
          (webText ++ ascii "\n    port: 80\n    weight: 1"),
        fun s => if s = ascii "80" then some 80 else if s = ascii "1" then some 1 else none,
        ascii "bitbridge-config.yaml"⟩
    ∃ a b, step W (start (MainFrame.new W.Y (fun _ => none) {}).config fun _ => none)
        (.addService (ascii "web-1") (ascii "10.0.0.1") (ascii "80") (ascii "1")) = some a ∧
      step W a (.saveConfig AppSettings.workingDisk) = some b ∧
      MainFrame.new W.Y b.files { listenPort := 9090 } = ⟨{ services := [web] }, false, []⟩ := by
  intro web W
  let first := start (MainFrame.new W.Y (fun _ => none) {}).config fun _ => none
  have hadd : (step W first
      (.addService (ascii "web-1") (ascii "10.0.0.1") (ascii "80") (ascii "1"))).map
        (fun a => a.frame.config) = some { services := [web] } := by
    decide
  obtain ⟨a, ha, hconfig⟩ := Option.map_eq_some_iff.mp hadd
  have hround : W.Y.RoundTrips some (document a.frame.config) := by
    rw [hconfig]
    exact ofDocument_roundTrips _ _
  have hworks : AppSettings.workingDisk.Works W.configPath := ⟨fun _ => rfl, rfl, fun _ => rfl⟩
  obtain ⟨b, hb, hours, hframe, -⟩ := exists_step_saveConfig hworks hround
  have hfirst : Alone W some first
      (.addService (ascii "web-1") (ascii "10.0.0.1") (ascii "80") (ascii "1")) := trivial
  have hsave : Alone W some a (.saveConfig AppSettings.workingDisk) := hround
  have hreach : ReachesIn (step W) (fun s e => Alone W some s e ∧ Whole W s e) first b :=
    .tail (.single ⟨hfirst, trivial⟩ ha) ⟨hsave, fun _ _ _ => rfl⟩ hb
  have hclean : b.frame.hasUnsavedChanges = false := by rw [hframe]
  have hnew := (nothing_unsaved (YamlCpp.ofDocument_reads _ _) hreach hclean).2
    hours { listenPort := 9090 } rfl
  rw [hframe, hconfig] at hnew
  exact ⟨a, b, ha, hb, hnew⟩

/-! ### The second start -/

structure Undisturbed (W : Editor N) (node : Node → N) (s : Desktop) (e : Event) : Prop where
  alone : Alone W node s e
  whole : Whole W s e
  settings : ∀ contents, e ≠ .write MainFrame.settingsPath contents

theorem settings_step {e : Event} (hpath : W.configPath ≠ MainFrame.settingsPath)
    (hok : ∀ contents, e ≠ .write MainFrame.settingsPath contents) (hs : s.step W e = some t) :
    t.files MainFrame.settingsPath = s.files MainFrame.settingsPath := by
  cases e with
  | addService | removeService | loadConfig =>
    obtain rfl := Option.some.inj hs
    rfl
  | saveConfig =>
    obtain rfl := Option.some.inj hs
    unfold MainFrame.onSaveConfig save
    dsimp only
    cases W.Y.emit (document s.frame.config) with
    | error what => rfl
    | ok text =>
      dsimp only
      split_ifs
      · rfl
      · rfl
      · exact Function.update_of_ne (Ne.symm hpath) ..
  | write path contents =>
    obtain rfl := Option.some.inj hs
    refine Function.update_of_ne ?_ ..
    rintro rfl
    exact hok contents rfl

/-- **From the first start to the second.**  Where there are no settings, the
first start writes the defaults, if the disk takes them, and no other file.  Let
the editor run from there, with no other program writing the settings or its
file and no save cut short.  When it has saved and there are no unsaved changes,
a second start shows what it showed last, and changes no file. -/
theorem second_start {M : Type} {T : Toml.TomlPlusPlus M} {disk : Disk} (files : Files)
    (hT : T.Conforms (AppSettings.text {})) (hreads : W.Y.Reads node)
    (hopen : disk.canOpen MainFrame.settingsPath = true)
    (hwritten : disk.written MainFrame.settingsPath (AppSettings.text {}) = AppSettings.text {})
    (hmissing : files MainFrame.settingsPath = none)
    (hpath : W.configPath = ({} : AppSettings).configFilePath)
    (h : ReachesIn (step W) (Undisturbed W node)
      (start (MainFrame.onInit W.Y T disk files).1.config
        (MainFrame.onInit W.Y T disk files).2) s)
    (hours : s.ours = true) (hclean : s.frame.hasUnsavedChanges = false) :
    (MainFrame.onInit W.Y T disk files).2 =
      Function.update files MainFrame.settingsPath (some (AppSettings.text {})) ∧
    ∀ later, MainFrame.onInit W.Y T later s.files = (⟨s.frame.config, false, []⟩, s.files) := by
  have hne : W.configPath ≠ MainFrame.settingsPath := by
    rw [hpath]
    decide
  have hfirst : (MainFrame.onInit W.Y T disk files).2 =
      Function.update files MainFrame.settingsPath (some (AppSettings.text {})) := by
    simp only [MainFrame.onInit, AppSettings.loadFromFile, hmissing, AppSettings.saveToFile, hopen,
      hwritten]
    rfl
  have hsettings : s.files MainFrame.settingsPath = some (AppSettings.text {}) := by
    refine h.invariant (I := fun s => s.files MainFrame.settingsPath = some (AppSettings.text {}))
      ?_ fun hi hok hs => (settings_step hne hok.settings hs).trans hi
    show (MainFrame.onInit W.Y T disk files).2 MainFrame.settingsPath = _
    rw [hfirst, Function.update_self]
  have hsynced : s.Synced W node (MainFrame.onInit W.Y T disk files).1.config :=
    h.invariant (I := Synced W node _) ⟨fun _ => .inl rfl, fun ho => absurd ho Bool.false_ne_true⟩
      fun hi hok hs => hi.step hreads hok.alone hok.whole hs
  refine ⟨hfirst, fun later => ?_⟩
  obtain ⟨n, hparse, htable⟩ := hT.accepts (AppSettings.lines {})
    (AppSettings.wellFormed_lines AppSettings.isUtf8_default AppSettings.plain_default)
    (AppSettings.text_eq {}).symm
  have hload : AppSettings.loadFromFile T later s.files {} MainFrame.settingsPath =
      (true, {}, s.files) := by
    simp only [AppSettings.loadFromFile, hsettings, hparse, AppSettings.readTable_lines htable]
  obtain ⟨c, ⟨text, hfile, hloadc⟩, hc⟩ := hsynced.ours hours
  obtain rfl := hc hclean
  have hnew := MainFrame.new_of_file hreads {} (hpath ▸ hfile) hloadc
  simp only [MainFrame.onInit, hload, hnew]

/-- The first start, a service that is added and saved, and the second start,
which finds the disk full. -/
theorem second_start_web :
    let web : ServiceNode := { name := ascii "web-1", ip := ascii "10.0.0.1", port := 80 }
    let T := Toml.ofLines (AppSettings.lines {})
    let W : Editor (Option Node) :=
      ⟨YamlCpp.ofDocument (tree { services := [web] })
          (webText ++ ascii "\n    port: 80\n    weight: 1"),
        fun s => if s = ascii "80" then some 80 else if s = ascii "1" then some 1 else none,
        ascii "bitbridge-config.yaml"⟩
    let full : Disk := ⟨fun _ => false, fun _ => true, fun _ => true, fun _ _ => []⟩
    let first := MainFrame.onInit W.Y T AppSettings.workingDisk fun _ => none
    first.2 MainFrame.settingsPath = some (AppSettings.text {}) ∧
    ∃ a b, step W (start first.1.config first.2)
        (.addService (ascii "web-1") (ascii "10.0.0.1") (ascii "80") (ascii "1")) = some a ∧
      step W a (.saveConfig AppSettings.workingDisk) = some b ∧
      MainFrame.onInit W.Y T full b.files = (⟨{ services := [web] }, false, []⟩, b.files) := by
  intro web T W full first
  have hconforms : T.Conforms (AppSettings.text {}) := by
    rw [AppSettings.text_eq]
    exact Toml.ofLines_conforms
      (AppSettings.wellFormed_lines AppSettings.isUtf8_default AppSettings.plain_default)
  have hconfig : (step W (start first.1.config first.2)
      (.addService (ascii "web-1") (ascii "10.0.0.1") (ascii "80") (ascii "1"))).map
        (fun a => a.frame.config) = some { services := [web] } := by
    decide
  obtain ⟨a, ha, hconfig⟩ := Option.map_eq_some_iff.mp hconfig
  have hround : W.Y.RoundTrips some (document a.frame.config) := by
    rw [hconfig]
    exact ofDocument_roundTrips _ _
  have hworks : AppSettings.workingDisk.Works W.configPath := ⟨fun _ => rfl, rfl, fun _ => rfl⟩
  obtain ⟨b, hb, hours, hframe, -⟩ := exists_step_saveConfig hworks hround
  have hclean : b.frame.hasUnsavedChanges = false := by rw [hframe]
  have hadd : Undisturbed W some (start first.1.config first.2)
      (.addService (ascii "web-1") (ascii "10.0.0.1") (ascii "80") (ascii "1")) :=
    ⟨trivial, trivial, nofun⟩
  have hsave : Undisturbed W some a (.saveConfig AppSettings.workingDisk) :=
    ⟨hround, fun _ _ _ => rfl, nofun⟩
  have hreach : ReachesIn (step W) (Undisturbed W some) (start first.1.config first.2) b :=
    .tail (.single hadd ha) hsave hb
  obtain ⟨hdefaults, hsecond⟩ := second_start (fun _ => none) hconforms
    (YamlCpp.ofDocument_reads _ _) rfl rfl rfl rfl hreach hours hclean
  rw [hframe, hconfig] at hsecond
  refine ⟨?_, a, b, ha, hb, hsecond full⟩
  rw [hdefaults, Function.update_self]

end Desktop

end BitBridge
