import Credis.SessionCore
import Credis.RespCore

/-! `ReplicaManager` on the master and `ReplicaConnector` on the replica. -/

namespace Credis

open ByteString

structure ReplicaState where
  fd : Fd
  offset : Int
  deriving DecidableEq

structure WaitResult where
  clientFd : Fd
  count : Int
  deriving DecidableEq

structure WaitState where
  clientFd : Fd
  numreplicas : Int
  targetOffset : Int
  deadline : Time
  deriving DecidableEq

structure AckResult where
  wait : Option WaitResult
  consumed : Nat
  deriving DecidableEq

/-- The 64-bit offset does not wrap within any run. -/
structure ReplicaManager where
  replicas : List ReplicaState
  masterOffset : Int
  waitState : Option WaitState
  deriving DecidableEq

namespace ReplicaManager

variable (manager : ReplicaManager) (fd : Fd)

def empty : ReplicaManager := ⟨[], 0, none⟩

def find : Option ReplicaState :=
  manager.replicas.find? fun replica => replica.fd == fd

def contains : Bool := (manager.find fd).isSome

def count : Nat := manager.replicas.length

def countAckedFor (target : Int) : Int :=
  manager.replicas.countP fun replica => decide (target ≤ replica.offset)

def addReplica : ReplicaManager :=
  { manager with replicas := manager.replicas ++ [⟨fd, 0⟩] }

/-- The first entry of the descriptor changes places with the last one, which is
dropped. -/
def removeFirst (replicas : List ReplicaState) : List ReplicaState :=
  match replicas.findIdx? fun replica => replica.fd == fd with
  | none => replicas
  | some index =>
    match replicas.getLast? with
    | none => replicas
    | some last => (replicas.set index last).dropLast

def removeReplica : ReplicaManager :=
  { manager with replicas := removeFirst fd manager.replicas }

def setOffset (fd : Fd) (offset : Int) : List ReplicaState → List ReplicaState
  | [] => []
  | replica :: rest =>
    if replica.fd = fd then { replica with offset := offset } :: rest
    else replica :: setOffset fd offset rest

def ackOffset : List Bytes → Option Int
  | name :: option :: offset :: _ =>
    if toUpper name = ascii "REPLCONF" ∧ toUpper option = ascii "ACK" then parseInt64 offset
    else none
  | _ => none

/-- The loop of `process_ack`: the last offset that is acknowledged, if any, and
the bytes consumed. -/
def ackLoop : Nat → Bytes → Option Int × Nat
  | 0, _ => (none, 0)
  | fuel + 1, data =>
    match parseOne data with
    | .error _ => (none, 0)
    | .ok command =>
      match ackLoop fuel (data.drop command.consumed) with
      | (later, consumed) => (later.or (ackOffset command.args), command.consumed + consumed)

def settleWait : ReplicaManager × Option WaitResult :=
  match manager.waitState with
  | none => (manager, none)
  | some wait =>
    let acked := manager.countAckedFor wait.targetOffset
    if wait.numreplicas ≤ acked then
      ({ manager with waitState := none }, some ⟨wait.clientFd, acked⟩)
    else (manager, none)

def processAck (data : Bytes) : ReplicaManager × AckResult :=
  if manager.contains fd then
    match ackLoop data.length data with
    | (acknowledged, consumed) =>
      let recorded :=
        match acknowledged with
        | none => manager
        | some offset => { manager with replicas := setOffset fd offset manager.replicas }
      match recorded.settleWait with
      | (settled, wait) => (settled, ⟨wait, consumed⟩)
  else (manager, ⟨none, 0⟩)

def propagate (message : Bytes) : ReplicaManager :=
  { manager with masterOffset := manager.masterOffset + message.length }

def waitDeadline (now : Time) (timeoutMs : Int) : Time :=
  if timeoutMs = 0 then now else addMillis now timeoutMs

def startWait (now : Time) (clientFd : Fd) (numreplicas timeoutMs : Int) : ReplicaManager :=
  { manager with
    waitState :=
      some ⟨clientFd, numreplicas, manager.masterOffset, waitDeadline now timeoutMs⟩ }

def checkWaitTimeout (now : Time) : ReplicaManager × Option WaitResult :=
  match manager.waitState with
  | none => (manager, none)
  | some wait =>
    if now < wait.deadline then (manager, none)
    else
      ({ manager with waitState := none },
        some ⟨wait.clientFd, manager.countAckedFor wait.targetOffset⟩)

def nextDeadline : Option Time := manager.waitState.map WaitState.deadline

end ReplicaManager

structure ProcessedBuffer where
  ackResponses : Bytes
  commands : List Bytes
  deriving DecidableEq

structure ReplicaConnector where
  fd : Fd
  pendingBuffer : Bytes
  offset : Int
  deriving DecidableEq

namespace ReplicaConnector

def isGetack : List Bytes → Bool
  | name :: option :: _ => toUpper name == ascii "REPLCONF" && toUpper option == ascii "GETACK"
  | _ => false

/-- The bytes that `commands.emplace_back` copies. The string is followed by one
readable zero byte. -/
def copyFront (buffer : Bytes) (count : Nat) : Except Fault Bytes :=
  if count ≤ buffer.length + 1 then .ok ((buffer ++ [0]).take count) else .error .bufferOverread

def ackReply (offset : Int) : Bytes :=
  encodeArray [ascii "REPLCONF", ascii "ACK", intText offset]

def bufferLoop : Nat → ReplicaConnector → Except Fault (ReplicaConnector × ProcessedBuffer)
  | 0, connector => .ok (connector, ⟨[], []⟩)
  | fuel + 1, connector =>
    match parseOne connector.pendingBuffer with
    | .error _ => .ok (connector, ⟨[], []⟩)
    | .ok command =>
      let rest : ReplicaConnector :=
        { connector with
          offset := connector.offset + command.consumed
          pendingBuffer := connector.pendingBuffer.drop command.consumed }
      if isGetack command.args then
        match bufferLoop fuel rest with
        | .error fault => .error fault
        | .ok (last, processed) =>
          .ok (last,
            { processed with
              ackResponses := ackReply connector.offset ++ processed.ackResponses })
      else
        match copyFront connector.pendingBuffer command.consumed with
        | .error fault => .error fault
        | .ok copied =>
          match bufferLoop fuel rest with
          | .error fault => .error fault
          | .ok (last, processed) =>
            .ok (last, { processed with commands := copied :: processed.commands })

def processBufferImpl (connector : ReplicaConnector) :
    Except Fault (ReplicaConnector × ProcessedBuffer) :=
  bufferLoop connector.pendingBuffer.length connector

/-- `incoming` is what the socket holds; a read takes at most 4096 bytes and a
read of nothing ends the connection. -/
def processPropagatedCommands (connector : ReplicaConnector) (incoming : Bytes) :
    Except Fault (Option (ReplicaConnector × ProcessedBuffer)) :=
  if connector.fd < 0 ∨ incoming.take 4096 = [] then .ok none
  else
    ({ connector with
      pendingBuffer := connector.pendingBuffer ++ incoming.take 4096 }.processBufferImpl).map some

end ReplicaConnector

end Credis
