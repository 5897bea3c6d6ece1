import Credis.SystemCore
import Credis.ReplicaCore

/-! `dispatch_event` and `compute_timeout` over the whole server. The event loop
itself is an input: which descriptor is ready, what its socket holds and which
connection is accepted. -/

namespace Credis

open ByteString

/-- The server as `main` wires it: the handler works on the pool of the server
and asks the replica manager for its two callbacks. -/
structure ServerState where
  handler : HandlerState
  pool : ConnectionPool
  replicaMgr : ReplicaManager
  replicaConn : Option ReplicaConnector
  listenerFd : Fd

/-- What a readable descriptor gives: the bytes its socket holds, and for the
listener the descriptor that `accept` returns. -/
structure Readiness where
  incoming : Bytes
  accepted : Option Fd

inductive Action
  /-- a wait of this client is tested against this offset; it is due at this time -/
  | wait (fd : Fd) (offset : Int) (deadline : Time)
  /-- this client is answered with an integer -/
  | waitReply (fd : Fd) (count : Int)
  /-- the request for an acknowledgement goes to this replica -/
  | getack (fd : Fd)
  /-- this command goes to this replica -/
  | propagate (fd : Fd) (raw : Bytes)
  deriving DecidableEq

namespace ServerState

variable (server : ServerState) (now : Time) (fd : Fd) (ready : Readiness)

def context : CommandContext where
  toHandlerState :=
    { server.handler with
      replicaCount := some server.replicaMgr.count
      offset := some server.replicaMgr.masterOffset }
  connPool := some server.pool
  transactions := ∅
  authenticatedFds := []

def withContext (ctx : CommandContext) : ServerState :=
  { server with handler := ctx.toHandlerState, pool := ctx.connPool.getD server.pool }

def sendAll (pool : ConnectionPool) (messages : List (Fd × Bytes)) : ConnectionPool :=
  messages.foldl (fun pool message => pool.sendTo message.1 message.2) pool

def getackCommand : Bytes := encodeArray [ascii "REPLCONF", ascii "GETACK", ascii "*"]

def message : Action → Option (Fd × Bytes)
  | .wait _ _ _ => none
  | .waitReply fd count => some (fd, encodeInteger count)
  | .getack fd => some (fd, getackCommand)
  | .propagate fd raw => some (fd, raw)

def perform (pool : ConnectionPool) (actions : List Action) : ConnectionPool :=
  sendAll pool (actions.filterMap message)

def dispatchState (manager : ReplicaManager) (now : Time) (fd : Fd) :
    ProcessState → ReplicaManager × List Action
  | .wait numreplicas timeoutMs =>
    if manager.masterOffset = 0 ∨ numreplicas ≤ manager.countAckedFor manager.masterOffset then
      (manager,
        [.wait fd manager.masterOffset (ReplicaManager.waitDeadline now timeoutMs),
          .waitReply fd manager.count])
    else
      (manager.startWait now fd numreplicas timeoutMs,
        .wait fd manager.masterOffset (ReplicaManager.waitDeadline now timeoutMs) ::
          manager.replicas.map fun replica => .getack replica.fd)
  | .replicaHandshake => (manager.addReplica fd, [])
  | .normal => (manager, [])
  | .block => (manager, [])

def dispatchPropagate : List Bytes → ReplicaManager → ReplicaManager × List Action
  | [], manager => (manager, [])
  | raw :: rest, manager =>
    match dispatchPropagate rest (manager.propagate raw) with
    | (last, actions) =>
      (last, (manager.replicas.map fun replica => .propagate replica.fd raw) ++ actions)

/-- Input of a client: the commands run, then the state of the result is
dispatched, then the writes are propagated. -/
def dispatchInput (data : Bytes) : Except Fault (ServerState × List Action) :=
  match server.context.processWithFd fd true data with
  | .error fault => .error fault
  | .ok outcome =>
    let called := server.withContext outcome.ctx
    let pool := (sendAll called.pool (outcome.outputs fd)).consume fd outcome.consumed
    match dispatchState server.replicaMgr now fd outcome.state with
    | (waiting, first) =>
      match dispatchPropagate outcome.propagateCmds waiting with
      | (manager, second) =>
        .ok ({ called with
            pool := perform pool (first ++ second)
            replicaMgr := manager }, first ++ second)

def dropClient : ServerState :=
  { server with
    replicaMgr := server.replicaMgr.removeReplica fd
    handler := { server.handler with
      blockingManager := server.handler.blockingManager.map fun manager => manager.unblockClient fd
      pubsubManager := server.handler.pubsubManager.map fun manager => manager.unsubscribeAll fd }
    pool := server.pool.remove fd }

def dispatchReplica (incoming : Bytes) : Except Fault (ServerState × List Action) :=
  match server.pool.readFrom fd incoming with
  | .error fault => .error fault
  | .ok (pool, none) =>
    .ok ({ server with
      replicaMgr := server.replicaMgr.removeReplica fd
      pool := pool.remove fd }, [])
  | .ok (pool, some data) =>
    match server.replicaMgr.processAck fd data with
    | (manager, result) =>
      let actions := result.wait.toList.map fun wait => Action.waitReply wait.clientFd wait.count
      .ok ({ server with
        replicaMgr := manager
        pool := perform (pool.consume fd result.consumed) actions }, actions)

def processAll : List Bytes → CommandContext → Except Fault CommandContext
  | [], ctx => .ok ctx
  | command :: rest, ctx =>
    match ctx.process command with
    | .error fault => .error fault
    | .ok (ctx, _) => processAll rest ctx

def dispatchMaster (connector : ReplicaConnector) (incoming : Bytes) :
    Except Fault (ServerState × Bytes) :=
  match connector.processPropagatedCommands incoming with
  | .error fault => .error fault
  | .ok none => .ok ({ server with replicaConn := none }, [])
  | .ok (some (connector, processed)) =>
    match processAll processed.commands server.context with
    | .error fault => .error fault
    | .ok ctx =>
      .ok ({ server.withContext ctx with replicaConn := some connector },
        processed.ackResponses)

def dispatchClient (incoming : Bytes) : Except Fault (ServerState × List Action) :=
  match server.pool.readFrom fd incoming with
  | .error fault => .error fault
  | .ok (pool, none) => .ok ({ server with pool := pool }.dropClient fd, [])
  | .ok (pool, some data) => { server with pool := pool }.dispatchInput now fd data

def dispatchOther : Except Fault (ServerState × List Action) :=
  if server.replicaMgr.contains fd then server.dispatchReplica fd ready.incoming
  else if fd = server.listenerFd then
    match ready.accepted with
    | some client => .ok ({ server with pool := server.pool.add client }, [])
    | none => .ok (server, [])
  else server.dispatchClient now fd ready.incoming

def dispatchEvent : Except Fault (ServerState × List Action) :=
  match server.replicaConn with
  | some connector =>
    if fd = connector.fd then
      (server.dispatchMaster connector ready.incoming).map fun result => (result.1, [])
    else server.dispatchOther now fd ready
  | none => server.dispatchOther now fd ready

/-- The replies to expired clients and to an overdue wait, and the check of a
running rewrite, which `compute_timeout` makes before it computes. -/
def settleTimeouts (status : AofManager.ChildStatus) : ServerState × List Action :=
  let expired := (server.handler.blockingManager.map fun manager =>
    manager.getExpiredClients now).getD (BlockingManager.empty, [])
  let pool := sendAll server.pool.flushAll.1 (expired.2.map fun fd => (fd, encodeNullArray))
  match server.replicaMgr.checkWaitTimeout now with
  | (manager, overdue) =>
    let actions := overdue.toList.map fun wait => Action.waitReply wait.clientFd wait.count
    ({ server with
      handler := { server.handler with
        blockingManager := server.handler.blockingManager.map fun _ => expired.1
        aofManager := server.handler.aofManager.map fun aof =>
          (aof.checkRewriteComplete status now).1 }
      replicaMgr := manager
      pool := (perform pool actions).flushAll.1 }, actions)

def earliestDeadline : Option Time :=
  match server.handler.blockingManager.bind BlockingManager.getNextDeadline,
      server.replicaMgr.nextDeadline with
  | some blocking, some wait => some (if wait < blocking then wait else blocking)
  | some blocking, none => some blocking
  | none, wait => wait

/-- Also returned is the timeout in milliseconds, -1 for none. -/
def computeTimeout (status : AofManager.ChildStatus) : ServerState × List Action × Int :=
  match server.settleTimeouts now status with
  | (settled, actions) =>
    (settled, actions,
      match settled.earliestDeadline with
      | none => -1
      | some deadline => if deadline ≤ now then 0 else (deadline - now) / 1000000)

/-- The timeout as the event loop passes it to `epoll_wait`, which takes an `int`. -/
def epollTimeout (timeoutMs : Int) : Int := if timeoutMs < 0 then -1 else wrap32 timeoutMs

inductive Turn
  | ready (now : Time) (fd : Fd) (ready : Readiness)
  | timeouts (now : Time) (status : AofManager.ChildStatus)

def turn (server : ServerState) : Turn → Except Fault (ServerState × List Action)
  | .ready now fd ready => server.dispatchEvent now fd ready
  | .timeouts now status => .ok (server.settleTimeouts now status)

def initial (config : ServerConfig) (aof : AofManager) (clock : Nat → Instant) (forks : Nat → Bool)
    (listenerFd : Fd) : ServerState where
  handler := (CommandContext.wired config aof clock forks 0).toHandlerState
  pool := ConnectionPool.empty
  replicaMgr := ReplicaManager.empty
  replicaConn := none
  listenerFd := listenerFd

end ServerState

end Credis
