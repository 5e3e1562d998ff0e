import BitBridge.Lib.Steps
import BitBridge.Lib.Proactor

/-!
# The load of the benchmark driver

`RunLoad` (`bench/main.cpp`) makes `total` connections, at most `concurrency` at
a time.  Everything runs on the one thread that is in `ioc.run()`: a `Load` is
what its handlers share, with the operations that are pending, and a handler
boundary is a state between two events.

A connection is named by the number of those launched before it.  It has a timer
and one operation on its socket, and it ends in `OnConnect`, `OnWriteDone` or
`OnReadSome` with one result.  `recorded` and `seen` are kept for the proofs:
the connection of each result, and every value that the in-flight counter took.
-/

namespace BitBridge.Bench

open Proactor

def connectionReset : ErrorCode := .other 104

/-- The operations of a connection; a read has the bytes that were read before. -/
inductive Op
  | timer (c : Nat)
  | connect (c : Nat)
  | write (c : Nat)
  | read (c : Nat) (bytesRead : Nat)
  deriving DecidableEq, Repr

namespace Op

def socket : Op → Option Nat
  | .timer _ => none
  | .connect c => some c
  | .write c => some c
  | .read c _ => some c

def isOn (c : Nat) (op : Op) : Bool := op.socket = some c

def isTimerOf (c : Nat) : Op → Bool
  | .timer c' => c' = c
  | _ => false

end Op

/-- `ConnResult`, without the time. -/
structure ConnResult where
  ok : Bool
  bytes : Nat
  deriving DecidableEq, Repr

/-- `LoadContext`, with what is pending in its `io_context`. -/
structure Load where
  inflight : Int
  peakInflight : Int
  launched : Int
  done : Int
  bytesReceived : Int
  results : List ConnResult
  closed : List Nat
  posted : Bool
  stopped : Bool
  pending : List (Pending Op)
  recorded : List Nat
  seen : List Int
  deriving DecidableEq, Repr

namespace Load

/-- `RunLoad` up to `ioc.run()`: the first wave is posted. -/
def start : Load where
  inflight := 0
  peakInflight := 0
  launched := 0
  done := 0
  bytesReceived := 0
  results := []
  closed := []
  posted := true
  stopped := false
  pending := []
  recorded := []
  seen := []

def cancelTimer (s : Load) (c : Nat) : Load :=
  { s with pending := cancel (Op.isTimerOf c) s.pending }

def close (s : Load) (c : Nat) : Load :=
  { s with closed := c :: s.closed, pending := cancel (Op.isOn c) s.pending }

/-- An operation is started on the socket of `c`; on a closed one it fails at once. -/
def post (s : Load) (c : Nat) (op : Op) : Load :=
  { s with pending := s.pending ++
      [⟨op, if c ∈ s.closed then .queued .badDescriptor 0 else .waiting⟩] }

/-- A turn of the loop in `LaunchWave`. -/
def launch (s : Load) : Load :=
  let current := s.inflight + 1
  let c := s.launched.toNat
  { s with
    inflight := current
    seen := s.seen ++ [current]
    launched := s.launched + 1
    peakInflight := if s.peakInflight < current then current else s.peakInflight
    pending := s.pending ++ [⟨.timer c, .waiting⟩, ⟨.connect c, .waiting⟩] }

section

variable (total concurrency : Int)

def launchLoop : Nat → Load → Load
  | 0, s => s
  | turns + 1, s =>
    if s.inflight < concurrency ∧ s.launched < total then launchLoop turns s.launch else s

/-- `LaunchWave`; its loop takes a turn for each connection that is left, at most. -/
def launchWave (s : Load) : Load :=
  if total ≤ s.launched then s
  else launchLoop total concurrency (total - s.launched).toNat s

/-- What `OnConnect`, `OnWriteDone` and `OnReadSome` do at the end of a connection. -/
def finish (s : Load) (c : Nat) (r : ConnResult) : Load :=
  let s := s.cancelTimer c
  let s := { s with results := s.results ++ [r], recorded := s.recorded ++ [c] }
  let s := s.close c
  let s := { s with inflight := s.inflight - 1, seen := s.seen ++ [s.inflight - 1] }
  let s := { s with done := s.done + 1 }
  let s := s.launchWave total concurrency
  if total ≤ s.done then { s with stopped := true } else s

def onConnect (s : Load) (c : Nat) (ec : ErrorCode) : Load :=
  if ec.failed then s.finish total concurrency c ⟨false, 0⟩
  else (s.cancelTimer c).post c (.write c)

def onWriteDone (s : Load) (c : Nat) (ec : ErrorCode) : Load :=
  if ec.failed then s.finish total concurrency c ⟨false, 0⟩
  else s.post c (.read c 0)

def onReadSome (s : Load) (c : Nat) (bytesRead : Nat) (ec : ErrorCode) (n : Nat) : Load :=
  if ec.failed then
    let ok : Bool := ec = .eof ∨ ec = connectionReset
    let s := { s with bytesReceived := s.bytesReceived + if ok then bytesRead else 0 }
    s.finish total concurrency c ⟨ok, bytesRead⟩
  else s.post c (.read c (bytesRead + n))

def onTimer (s : Load) (c : Nat) (ec : ErrorCode) : Load :=
  if ec.failed then s else s.close c

def handle (s : Load) : Op → ErrorCode → Nat → Load
  | .timer c, ec, _ => s.onTimer c ec
  | .connect c, ec, _ => s.onConnect total concurrency c ec
  | .write c, ec, _ => s.onWriteDone total concurrency c ec
  | .read c bytesRead, ec, n => s.onReadSome total concurrency c bytesRead ec n

end

/-- The results that the outside world gives: a timer expires, a connect and a
write end in any way, and a read fails or brings bytes (`recv`). -/
def mayComplete : Op → ErrorCode → Bool
  | .timer _, ec => ec = .success
  | .read _ _, ec => ec.failed
  | _, _ => true

inductive Event
  | wave
  | complete (op : Op) (ec : ErrorCode)
  | recv (c bytesRead n : Nat)
  | dispatch (op : Op) (ec : ErrorCode) (n : Nat)
  deriving DecidableEq, Repr

/-- An event of the loop, which has none any more once it is stopped. -/
def step (total concurrency : Int) (s : Load) : Event → Option Load
  | .wave =>
    if !s.stopped ∧ s.posted then
      some ({ s with posted := false }.launchWave total concurrency)
    else none
  | .complete op ec =>
    if !s.stopped ∧ ⟨op, .waiting⟩ ∈ s.pending ∧ mayComplete op ec then
      some { s with pending := resolve s.pending op ec 0 }
    else none
  | .recv c bytesRead n =>
    if !s.stopped ∧ ⟨.read c bytesRead, .waiting⟩ ∈ s.pending ∧ 0 < n ∧ n ≤ 4096 then
      some { s with pending := resolve s.pending (.read c bytesRead) .success n }
    else none
  | .dispatch op ec n =>
    if !s.stopped ∧ ⟨op, .queued ec n⟩ ∈ s.pending then
      some ({ s with pending := consume s.pending op ec n }.handle total concurrency op ec n)
    else none

end Load

end BitBridge.Bench
