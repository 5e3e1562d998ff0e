import BitBridge.Health.Monitor
import BitBridge.Proxy.SessionInv
import BitBridge.Routing.P2C

/-!
# The load balancer

`main` (`core/main.cpp`) runs a `TcpProxy` and, when it is enabled, a
`HealthChecker` on one thread, over one pool, until a signal stops both.
`LoadBalancer` is the whole program between two handlers.

A `Session` object stays in `sessions` for good, in the order of creation; it is
live while it has pending operations, and its destructor runs when it has none
left.  A handler that throws ends `io_context::run`; `main` returns, and the
handlers that are left are destroyed, each on its own (`destroy`).

`log` and `outcomes` are for the statements only.
-/

namespace BitBridge

open Proactor Proxy Health

/-- What the program takes from outside: which strings `make_address` accepts,
and how a draw works. -/
structure Env (σ : Type) where
  isIpLiteral : Bytes → Bool
  dist : Distribution σ

namespace LoadBalancer

inductive Op
  | accept
  | signal
  deriving DecidableEq, Repr

def Op.isAccept : Op → Bool
  | .accept => true
  | .signal => false

/-- What the proxy did so far.  The two counter entries have the count before. -/
inductive Entry
  | asyncAccept
  | dropped
  | increment (index : Nat) (before : UInt64)
  | decrement (index : Nat) (before : UInt64)
  | threw
  deriving DecidableEq, Repr

end LoadBalancer

structure LoadBalancer (σ : Type) where
  now : Nat
  running : Bool
  pool : ServicePool
  strategy : Strategy σ
  acceptorOpen : Bool
  connectTimeoutMs : UInt32
  idleTimeoutMs : UInt32
  pending : List (Pending LoadBalancer.Op)
  sessions : List Session
  checker : Option HealthChecker
  log : List LoadBalancer.Entry
  outcomes : List Outcome

namespace LoadBalancer

variable {σ : Type}

/-- The count of a service, as a mutator finds it. -/
def activeConnections (s : LoadBalancer σ) (index : Nat) : UInt64 :=
  match s.pool.getService index with
  | some svc => svc.activeConnections
  | none => 0

def incrementConnections (s : LoadBalancer σ) (index : Nat) : LoadBalancer σ :=
  { s with
    pool := s.pool.update index .incrementConnections
    log := s.log ++ [.increment index (s.activeConnections index)] }

def decrementConnections (s : LoadBalancer σ) (index : Nat) : LoadBalancer σ :=
  { s with
    pool := s.pool.update index .decrementConnections
    log := s.log ++ [.decrement index (s.activeConnections index)] }

def throw (s : LoadBalancer σ) : LoadBalancer σ :=
  { s with running := false, log := s.log ++ [.threw] }

def drop (s : LoadBalancer σ) : LoadBalancer σ := { s with log := s.log ++ [.dropped] }

/-- `TcpProxy::AcceptNext`; on a closed acceptor the accept fails at once. -/
def acceptNext (s : LoadBalancer σ) : LoadBalancer σ :=
  { s with
    pending := s.pending ++
      [⟨.accept, if s.acceptorOpen then .waiting else .queued .badDescriptor 0⟩]
    log := s.log ++ [.asyncAccept] }

def stop (s : LoadBalancer σ) : LoadBalancer σ :=
  { s with acceptorOpen := false, pending := cancel Op.isAccept s.pending }

def setStrategy (s : LoadBalancer σ) (strategy : Strategy σ) : LoadBalancer σ :=
  { s with strategy := strategy }

def addSession (s : LoadBalancer σ) (session : Session) : LoadBalancer σ :=
  { s with sessions := s.sessions ++ [session] }

/-- `OnAccept` from the construction of the session on.  When `Start` throws,
the exception destroys the session. -/
def startSession (E : Env σ) (s : LoadBalancer σ) (backendIdx : Nat) (backend : ServiceState) :
    LoadBalancer σ :=
  let session := Session.new backendIdx s.connectTimeoutMs s.idleTimeoutMs
  let s := s.incrementConnections backendIdx
  match session.start E.isIpLiteral s.now backend.node.ip with
  | some session => (s.addSession session).acceptNext
  | none => ((s.addSession session).decrementConnections backendIdx).throw

/-- `OnAccept` once the strategy has returned; `none` is its exception. -/
def onSelected (E : Env σ) (s : LoadBalancer σ) : Option (Except RoutingError Nat) → LoadBalancer σ
  | none => s.throw
  | some (.error _) => s.drop.acceptNext
  | some (.ok backendIdx) =>
    match s.pool.getService backendIdx with
    | none => s.throw
    | some backend => s.startSession E backendIdx backend

/-- `TcpProxy::OnAccept`.  `peer` is the client's address, or `none` when
`remote_endpoint` throws.  `none` means that the strategy did not return. -/
def onAccept (E : Env σ) (s : LoadBalancer σ) (ec : ErrorCode) (peer : Option Bytes) (fuel : Nat) :
    Option (LoadBalancer σ) :=
  if ec = .operationAborted then some s
  else if ec.failed then some s.acceptNext
  else
    match peer with
    | none => some s.throw
    | some routingKey =>
      (s.strategy.selectService E.dist fuel s.pool routingKey).map fun r =>
        (s.setStrategy r.2).onSelected E r.1

def onSignal (s : LoadBalancer σ) (ec : ErrorCode) : LoadBalancer σ :=
  if ec.failed then s else { s with checker := s.checker.map .stop }.stop

/-- A session after a turn; its destructor runs when nothing holds it. -/
def setSession (s : LoadBalancer σ) (k : Nat) (session : Session) : LoadBalancer σ :=
  let s := { s with sessions := s.sessions.set k session }
  if session.pending = [] then s.decrementConnections session.backend else s

/-- `main`, from the construction of its parts to `signals.async_wait`. -/
def initial (now : Nat) (nodes : List ServiceNode) (strategy : Strategy σ)
    (conn : ConnectionConfig) : LoadBalancer σ where
  now := now
  running := true
  pool := .ofNodes nodes
  strategy := strategy
  acceptorOpen := true
  connectTimeoutMs := conn.connectTimeoutMs
  idleTimeoutMs := conn.idleTimeoutMs
  pending := [⟨.signal, .waiting⟩]
  sessions := []
  checker := none
  log := []
  outcomes := []

/-- `main`, to `ioContext.run()`; `TcpProxy::Start` is its `AcceptNext`. -/
def start (now : Nat) (nodes : List ServiceNode) (strategy : Strategy σ) (conn : ConnectionConfig)
    (hc : HealthCheckConfig) : LoadBalancer σ :=
  let s := (initial now nodes strategy conn).acceptNext
  if hc.enabled then { s with checker := some ((HealthChecker.new hc).start now) } else s

inductive Event
  | tick
  | complete (op : Op) (ec : ErrorCode)
  | accept (ec : ErrorCode) (peer : Option Bytes) (fuel : Nat)
  | signal (ec : ErrorCode)
  | session (k : Nat) (e : Session.Event)
  | checker (e : HealthChecker.Event)
  | destroy (k : Nat) (p : Pending Proxy.Op)
  deriving DecidableEq, Repr

/-- The results the outside world may give.  An accept is aborted by `Stop` only. -/
def mayComplete : Op → ErrorCode → Bool
  | .accept, ec => ec ≠ .operationAborted
  | .signal, ec => ec = .success

def dequeue (s : LoadBalancer σ) (op : Op) (ec : ErrorCode) : LoadBalancer σ :=
  { s with pending := consume s.pending op ec 0 }

def turn (E : Env σ) (s : LoadBalancer σ) : Event → Option (LoadBalancer σ)
  | .tick => some { s with now := s.now + 1 }
  | .complete op ec =>
    if ⟨op, .waiting⟩ ∈ s.pending ∧ mayComplete op ec then
      some { s with pending := resolve s.pending op ec 0 }
    else none
  | .accept ec peer fuel =>
    if ⟨.accept, .queued ec 0⟩ ∈ s.pending then
      (s.dequeue .accept ec).onAccept E ec peer fuel
    else none
  | .signal ec =>
    if ⟨.signal, .queued ec 0⟩ ∈ s.pending then
      some ((s.dequeue .signal ec).onSignal ec)
    else none
  | .session k e => do
    let session ← s.sessions[k]?
    let session ← session.step s.now e
    some (s.setSession k session)
  | .checker e => do
    let c ← s.checker
    let t ← c.step E.isIpLiteral s.now s.pool e
    some { s with
      pool := t.pool
      checker := some t.checker
      running := !t.threw
      outcomes := note s.outcomes e }
  | .destroy _ _ => none

/-- The destruction of a handler that was never run. -/
def unwind (s : LoadBalancer σ) : Event → Option (LoadBalancer σ)
  | .destroy k p => do
    let session ← s.sessions[k]?
    let session ← session.discard p
    some (s.setSession k session)
  | _ => none

def step (E : Env σ) (s : LoadBalancer σ) (e : Event) : Option (LoadBalancer σ) :=
  if s.running then s.turn E e else s.unwind e

end LoadBalancer

end BitBridge
