import BitBridge.Lib.Proactor
import BitBridge.State.ServicePool

/-!
# The health checker

`HealthChecker` (`core/health/HealthChecker.cpp`) probes every service once in
each interval: it tries to connect, with a timer that closes the socket when the
connect takes too long.  A probe is numbered in the order of launch.  Its two
handlers share its socket and its timer, so they are operations with that
number, and the handler of the connect also holds the index of the service.

A handler that throws ends `io_context::run`; `Turn.threw` says that one did.
-/

namespace BitBridge.Health

open Proactor

inductive Op
  | round
  | timeout (probe : Nat)
  | connect (probe index : Nat)
  deriving DecidableEq, Repr

namespace Op

def isRound : Op → Bool
  | .round => true
  | _ => false

def isTimeout (probe : Nat) : Op → Bool
  | .timeout k => k = probe
  | _ => false

def isConnect (probe : Nat) : Op → Bool
  | .connect k _ => k = probe
  | _ => false

end Op

/-- A probe whose connect was started. -/
structure Probe where
  index : Nat
  expiry : Nat
  deriving DecidableEq, Repr

structure HealthChecker where
  config : HealthCheckConfig
  expiry : Nat
  stopped : Bool
  probes : List Probe
  pending : List (Pending Op)
  deriving DecidableEq, Repr

/-- What a turn of the checker leaves behind. -/
structure Turn where
  pool : ServicePool
  checker : HealthChecker
  threw : Bool
  deriving DecidableEq, Repr

/-- What `OnProbeResult` does to the service it is about. -/
def probed (unhealthyThreshold : UInt32) (ec : ErrorCode) (svc : ServiceState) : ServiceState :=
  if ec.failed then
    let svc := svc.incrementFailures
    if unhealthyThreshold.toUInt64 ≤ svc.consecutiveFailures ∧ svc.healthy then
      svc.setHealthy false
    else svc
  else svc.resetFailures.setHealthy true

namespace HealthChecker

def new (config : HealthCheckConfig) : HealthChecker := ⟨config, 0, false, [], []⟩

def scheduleNextRound (c : HealthChecker) (now : Nat) : HealthChecker :=
  if c.stopped then c
  else { c with
    expiry := now + c.config.intervalMs.toNat
    pending := cancel Op.isRound c.pending ++ [⟨.round, .waiting⟩] }

def start (c : HealthChecker) (now : Nat) : HealthChecker := c.scheduleNextRound now

def stop (c : HealthChecker) : HealthChecker :=
  { c with stopped := true, pending := cancel Op.isRound c.pending }

def closeSocket (c : HealthChecker) (probe : Nat) : HealthChecker :=
  { c with pending := cancel (Op.isConnect probe) c.pending }

def cancelTimer (c : HealthChecker) (probe : Nat) : HealthChecker :=
  { c with pending := cancel (Op.isTimeout probe) c.pending }

/-- `HealthChecker::ProbeOne`.  When `make_address` throws, the timer that was
just armed is destroyed with the exception. -/
def probeOne (isIpLiteral : Bytes → Bool) (now : Nat) (pool : ServicePool) (c : HealthChecker)
    (index : Nat) : Except HealthChecker HealthChecker :=
  match pool.getService index with
  | none => .error c
  | some svc =>
    let probe := c.probes.length
    let timed : HealthChecker := { c with pending := c.pending ++ [⟨.timeout probe, .waiting⟩] }
    if isIpLiteral svc.node.ip then
      .ok { timed with
        probes := c.probes ++ [⟨index, now + c.config.timeoutMs.toNat⟩]
        pending := timed.pending ++ [⟨.connect probe index, .waiting⟩] }
    else .error (timed.cancelTimer probe)

def probeAll (isIpLiteral : Bytes → Bool) (now : Nat) (pool : ServicePool) (c : HealthChecker) :
    Except HealthChecker HealthChecker :=
  (List.range pool.getSize).foldlM (probeOne isIpLiteral now pool) c

/-- `HealthChecker::OnProbeResult`; `GetService` throws on an index that is out
of range. -/
def onProbeResult (c : HealthChecker) (pool : ServicePool) (probe index : Nat) (ec : ErrorCode) :
    Turn :=
  match pool.getService index with
  | none => ⟨pool, c, true⟩
  | some _ =>
    let pool := pool.update index (probed c.config.unhealthyThreshold ec)
    if ec.failed then ⟨pool, c, false⟩ else ⟨pool, c.closeSocket probe, false⟩

def handle (isIpLiteral : Bytes → Bool) (now : Nat) (pool : ServicePool) (c : HealthChecker) :
    Op → ErrorCode → Turn
  | .round, ec =>
    if ec.failed ∨ c.stopped then ⟨pool, c, false⟩
    else
      match c.probeAll isIpLiteral now pool with
      | .ok c => ⟨pool, c.scheduleNextRound now, false⟩
      | .error c => ⟨pool, c, true⟩
  | .timeout probe, ec => if ec.failed then ⟨pool, c, false⟩ else ⟨pool, c.closeSocket probe, false⟩
  | .connect probe index, ec => (c.cancelTimer probe).onProbeResult pool probe index ec

def mayComplete (c : HealthChecker) (now : Nat) : Op → ErrorCode → Bool
  | .round, ec => ec = .success ∧ c.expiry ≤ now
  | .timeout probe, ec => ec = .success ∧ (c.probes[probe]?).any fun p => p.expiry ≤ now
  | .connect _ _, _ => true

inductive Event
  | complete (op : Op) (ec : ErrorCode)
  | dispatch (op : Op) (ec : ErrorCode)
  deriving DecidableEq, Repr

def step (isIpLiteral : Bytes → Bool) (now : Nat) (pool : ServicePool) (c : HealthChecker) :
    Event → Option Turn
  | .complete op ec =>
    if ⟨op, .waiting⟩ ∈ c.pending ∧ c.mayComplete now op ec then
      some ⟨pool, { c with pending := resolve c.pending op ec 0 }, false⟩
    else none
  | .dispatch op ec =>
    if ⟨op, .queued ec 0⟩ ∈ c.pending then
      some ({ c with pending := consume c.pending op ec 0 }.handle isIpLiteral now pool op ec)
    else none

end HealthChecker

end BitBridge.Health
