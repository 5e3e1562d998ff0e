import BitBridge.Lib.Steps
import BitBridge.Lib.Proactor
import BitBridge.Proxy.Buffer

/-!
# A session

`Session` (`core/proxy/Session.cpp`) relays one client to one backend.  It runs
on one thread: `handle` is what each of its handlers does, and the operations
whose handlers hold its `shared_ptr` are its `pending` list.  The session lives
while that list is not empty.

The two relay loops differ in their sockets and buffers, and in the idle timer,
which only `readFromClient` restarts; a direction `Dir` names the loop, `up` for
client to backend and `down` for backend to client.

`step` is one turn: the outside world finishes an operation (`complete`, `recv`),
moves more bytes of a write (`send`), or the loop runs a handler (`dispatch`).
Nothing orders the dispatches of queued operations.  A socket that is closed
fails its waiting operations with `operationAborted` and every operation
started on it with `badDescriptor`; a queued operation keeps its result.
-/

namespace BitBridge.Proxy

open Proactor

inductive Side
  | client
  | backend
  deriving DecidableEq, Repr

inductive Dir
  | up
  | down
  deriving DecidableEq, Repr

def Dir.source : Dir → Side
  | .up => .client
  | .down => .backend

def Dir.dest : Dir → Side
  | .up => .backend
  | .down => .client

/-- The asynchronous operations of a session.  A write has `bytes` to send from
the front of its loop's buffer, and `sent` is what the socket took so far. -/
inductive Op
  | connectWait
  | idleWait
  | connect
  | read (d : Dir)
  | write (d : Dir) (bytes : Nat) (sent : Bytes)
  deriving DecidableEq, Repr

namespace Op

def isConnectWait : Op → Bool
  | .connectWait => true
  | _ => false

def isIdleWait : Op → Bool
  | .idleWait => true
  | _ => false

def isOn (side : Side) : Op → Bool
  | .connect => side = .backend
  | .read d => side = d.source
  | .write d _ _ => side = d.dest
  | _ => false

def isRead (d : Dir) : Op → Bool
  | .read d' => d' = d
  | _ => false

def isWrite (d : Dir) : Op → Bool
  | .write d' _ _ => d' = d
  | _ => false

end Op

/-- A `Session` object with the operations that keep it alive. -/
structure Session where
  backend : Nat
  connectTimeoutMs : UInt32
  idleTimeoutMs : UInt32
  clientOpen : Bool
  backendOpen : Bool
  connectExpiry : Nat
  idleExpiry : Nat
  clientBuf : Buffer
  backendBuf : Buffer
  shuttingDown : Bool
  pending : List (Pending Op)

namespace Session

/-- The constructor: the accepted socket is open, the backend's is not. -/
def new (backend : Nat) (connectTimeoutMs idleTimeoutMs : UInt32) : Session where
  backend := backend
  connectTimeoutMs := connectTimeoutMs
  idleTimeoutMs := idleTimeoutMs
  clientOpen := true
  backendOpen := false
  connectExpiry := 0
  idleExpiry := 0
  clientBuf := .zeroed
  backendBuf := .zeroed
  shuttingDown := false
  pending := []

def isOpen (s : Session) : Side → Bool
  | .client => s.clientOpen
  | .backend => s.backendOpen

def buf (s : Session) : Dir → Buffer
  | .up => s.clientBuf
  | .down => s.backendBuf

def setBuf (s : Session) (d : Dir) (b : Buffer) : Session :=
  match d with
  | .up => { s with clientBuf := b }
  | .down => { s with backendBuf := b }

def post (s : Session) (op : Op) : Session :=
  { s with pending := s.pending ++ [⟨op, .waiting⟩] }

/-- An operation is started on a socket; on a closed one it fails at once. -/
def postOn (s : Session) (side : Side) (op : Op) : Session :=
  { s with pending := s.pending ++
      [⟨op, if s.isOpen side then .waiting else .queued .badDescriptor 0⟩] }

def cancelConnectTimer (s : Session) : Session :=
  { s with pending := cancel Op.isConnectWait s.pending }

def cancelIdleTimer (s : Session) : Session :=
  { s with pending := cancel Op.isIdleWait s.pending }

def closeClient (s : Session) : Session :=
  { s with clientOpen := false, pending := cancel (Op.isOn .client) s.pending }

def closeBackend (s : Session) : Session :=
  { s with backendOpen := false, pending := cancel (Op.isOn .backend) s.pending }

def shutdown (s : Session) : Session :=
  if s.shuttingDown then s
  else { s with shuttingDown := true }.cancelConnectTimer.cancelIdleTimer.closeClient.closeBackend

/-- `m_connectTimer.expires_after(..)`, then `async_wait`. -/
def armConnectTimer (s : Session) (now : Nat) : Session :=
  { s.cancelConnectTimer with connectExpiry := now + s.connectTimeoutMs.toNat }.post .connectWait

def armIdleTimer (s : Session) (now : Nat) : Session :=
  { s.cancelIdleTimer with idleExpiry := now + s.idleTimeoutMs.toNat }.post .idleWait

/-- `async_connect` opens the socket it is called on. -/
def asyncConnect (s : Session) : Session :=
  { s with backendOpen := true }.postOn .backend .connect

def asyncReadSome (s : Session) (d : Dir) : Session := s.postOn d.source (.read d)

def asyncWrite (s : Session) (d : Dir) (bytes : Nat) : Session :=
  s.postOn d.dest (.write d bytes [])

/-- `Session::ConnectToBackend`; `make_address` throws on a string that is not
an IP literal, before anything is started. -/
def connectToBackend (s : Session) (isIpLiteral : Bytes → Bool) (now : Nat) (ip : Bytes) :
    Option Session :=
  if isIpLiteral ip then some (s.armConnectTimer now).asyncConnect else none

/-- `Session::Start`; `none` when it throws. -/
def start (s : Session) (isIpLiteral : Bytes → Bool) (now : Nat) (ip : Bytes) : Option Session :=
  s.connectToBackend isIpLiteral now ip

def readFromClient (s : Session) (now : Nat) : Session :=
  if 0 < s.idleTimeoutMs then (s.armIdleTimer now).asyncReadSome .up else s.asyncReadSome .up

def readFromBackend (s : Session) : Session := s.asyncReadSome .down

def readNext (s : Session) (now : Nat) : Dir → Session
  | .up => s.readFromClient now
  | .down => s.readFromBackend

def onConnected (s : Session) (now : Nat) (ec : ErrorCode) : Session :=
  if ec.failed then s.cancelConnectTimer.shutdown
  else (s.cancelConnectTimer.readFromClient now).readFromBackend

def dequeue (s : Session) (op : Op) (ec : ErrorCode) (bytes : Nat) : Session :=
  { s with pending := consume s.pending op ec bytes }

def handle (s : Session) (now : Nat) : Op → ErrorCode → Nat → Session
  | .connectWait, ec, _ => if ec.failed then s else s.shutdown
  | .idleWait, ec, _ => if ec.failed then s else s.shutdown
  | .connect, ec, _ => s.onConnected now ec
  | .read d, ec, bytes => if ec.failed then s.shutdown else s.asyncWrite d bytes
  | .write d _ _, ec, _ => if ec.failed then s.shutdown else s.readNext now d

/-- The results the outside world may give a waiting operation: a timer its
expiry, a connect anything, a read an error (its data come with `recv`), and a
write an error or, once every byte was sent, success. -/
def mayComplete (s : Session) (now : Nat) : Op → ErrorCode → Bool
  | .connectWait, ec => ec = .success ∧ s.connectExpiry ≤ now
  | .idleWait, ec => ec = .success ∧ s.idleExpiry ≤ now
  | .connect, _ => true
  | .read _, ec => ec.failed
  | .write _ bytes sent, ec => ec.failed ∨ sent.length = bytes

inductive Event
  | complete (op : Op) (ec : ErrorCode)
  | recv (d : Dir) (chunk : Bytes)
  | send (d : Dir) (bytes : Nat) (sent : Bytes) (k : Nat)
  | dispatch (op : Op) (ec : ErrorCode) (bytes : Nat)
  deriving DecidableEq, Repr

def step (now : Nat) (s : Session) : Event → Option Session
  | .complete op ec =>
    if ⟨op, .waiting⟩ ∈ s.pending ∧ s.mayComplete now op ec then
      some { s with pending := resolve s.pending op ec 0 }
    else none
  | .recv d chunk =>
    if ⟨.read d, .waiting⟩ ∈ s.pending ∧ 0 < chunk.length ∧ chunk.length ≤ BUFFER_SIZE then
      some { s.setBuf d ((s.buf d).fill chunk) with
        pending := resolve s.pending (.read d) .success chunk.length }
    else none
  | .send d bytes sent k =>
    if ⟨.write d bytes sent, .waiting⟩ ∈ s.pending ∧ 0 < k ∧ sent.length + k ≤ bytes then
      some { s with pending := s.pending.erase ⟨.write d bytes sent, .waiting⟩ ++
        [⟨.write d bytes (sent ++ (((s.buf d).take bytes).drop sent.length).take k), .waiting⟩] }
    else none
  | .dispatch op ec bytes =>
    if ⟨op, .queued ec bytes⟩ ∈ s.pending then
      some ((s.dequeue op ec bytes).handle now op ec bytes)
    else none

/-- A handler is destroyed, waiting or queued, without being run. -/
def discard (s : Session) (p : Pending Op) : Option Session :=
  if p ∈ s.pending then some { s with pending := s.pending.erase p } else none

theorem of_discard {s s' : Session} {p : Pending Op} (h : s.discard p = some s') :
    p ∈ s.pending ∧ s' = { s with pending := s.pending.erase p } := by
  simp only [discard, Option.ite_none_right_eq_some, Option.some.injEq] at h
  exact ⟨h.1, h.2.symm⟩

@[simp] theorem buf_pending (s : Session) (l : List (Pending Op)) (d : Dir) :
    { s with pending := l }.buf d = s.buf d := by cases d <;> rfl

@[simp] theorem dequeue_pending (s : Session) (op : Op) (ec : ErrorCode) (n : Nat) :
    (s.dequeue op ec n).pending = consume s.pending op ec n := rfl

@[simp] theorem buf_dequeue (s : Session) (op : Op) (ec : ErrorCode) (n : Nat) (d : Dir) :
    (s.dequeue op ec n).buf d = s.buf d := buf_pending _ _ _

@[simp] theorem buf_setBuf (s : Session) (d : Dir) (b : Buffer) : (s.setBuf d b).buf d = b := by
  cases d <;> rfl

theorem buf_setBuf_other (s : Session) {d d' : Dir} (b : Buffer) (h : d' ≠ d) :
    (s.setBuf d' b).buf d = s.buf d := by
  cases d <;> cases d' <;> first | exact absurd rfl h | rfl

/-- What an operation has been given to write in the direction `d`. -/
def content (s : Session) (d : Dir) : Op → Bytes
  | .write d' bytes _ => if d' = d then (s.buf d).take bytes else []
  | _ => []

/-- The content of the pending writes of a direction. -/
def inFlight (s : Session) (d : Dir) : Bytes := s.pending.flatMap fun p => s.content d p.op

theorem content_eq_nil (s : Session) (d : Dir) (op : Op) (h : op.isWrite d = false) :
    s.content d op = [] := by
  cases op with
  | write d' bytes sent => exact if_neg (by simpa [Op.isWrite] using h)
  | _ => rfl

/-! ### What the operations do to the pending list -/

section Pending

variable (s : Session) (now : Nat) (f : Op → Bool)

@[simp] theorem post_pending (op : Op) : (s.post op).pending = s.pending ++ [⟨op, .waiting⟩] := rfl

@[simp] theorem postOn_pending (side : Side) (op : Op) : (s.postOn side op).pending =
    s.pending ++ [⟨op, if s.isOpen side then .waiting else .queued .badDescriptor 0⟩] := rfl

@[simp] theorem cancelConnectTimer_pending :
    s.cancelConnectTimer.pending = cancel Op.isConnectWait s.pending := rfl

@[simp] theorem armIdleTimer_pending : (s.armIdleTimer now).pending =
    cancel Op.isIdleWait s.pending ++ [⟨.idleWait, .waiting⟩] := rfl

/-- **`Shutdown` finishes every operation that waits.** -/
theorem shutdown_pending : s.shutdown.pending =
    if s.shuttingDown then s.pending else cancel (fun _ => true) s.pending := by
  unfold shutdown
  split
  · rfl
  · simp only [closeBackend, closeClient, cancelIdleTimer, cancelConnectTimer, cancel_cancel]
    congr 1
    funext op
    rcases op with _ | _ | _ | ⟨_ | _⟩ | ⟨_ | _⟩ <;> rfl

@[simp] theorem count_postOn (side : Side) (op : Op) : count f (s.postOn side op).pending =
    count f s.pending + if f op then 1 else 0 := by simp

@[simp] theorem count_shutdown : count f s.shutdown.pending = count f s.pending := by
  rw [shutdown_pending]
  split
  · rfl
  · exact count_cancel _ _ _

theorem count_readFromClient (h : f .idleWait = false) : count f (s.readFromClient now).pending =
    count f s.pending + if f (.read .up) then 1 else 0 := by
  unfold readFromClient
  split <;> simp [asyncReadSome, h]

theorem count_readFromBackend : count f s.readFromBackend.pending =
    count f s.pending + if f (.read .down) then 1 else 0 := count_postOn _ _ _ _

theorem count_readNext (h : f .idleWait = false) (d : Dir) :
    count f (s.readNext now d).pending = count f s.pending + if f (.read d) then 1 else 0 := by
  cases d
  · exact count_readFromClient s now f h
  · exact count_readFromBackend s f

end Pending

end Session

end BitBridge.Proxy
