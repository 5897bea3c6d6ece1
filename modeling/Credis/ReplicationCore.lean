import Credis.MarkedStream
import Credis.ServerCore

/-! The master and its replicas, joined by links that keep the order of what they
carry. The master is the manager with the two dispatch functions that act on it,
a replica is its connector; `sent` and `processed` record what has been said and
done so far. -/

namespace Credis

open ByteString

structure Link where
  toReplica : List Bytes
  connector : ReplicaConnector
  processed : List Bytes
  toMaster : List Bytes

namespace Link

def fresh (fd : Fd) : Link := ⟨[], ⟨fd, [], 0⟩, [], []⟩

end Link

structure Replication where
  manager : ReplicaManager
  sent : List Bytes
  links : Fd → Link

/-- A wait is answered. `received` is the number of replicas that have processed
the writes up to its target at that moment. -/
structure Answer where
  client : Fd
  target : Int
  count : Int
  received : Nat
  deriving DecidableEq

inductive ReplicationEvent
  /-- a replica connects -/
  | handshake (fd : Fd)
  /-- a call of the handler comes back with a state and with writes to propagate -/
  | call (now : Time) (fd : Fd) (result : ProcessState) (commands : List Bytes)
  | timeouts (now : Time)
  /-- a replica reads this many messages at once -/
  | deliver (fd : Fd) (count : Nat)
  /-- the master reads this many messages of a replica at once -/
  | acknowledge (fd : Fd) (count : Nat)
  /-- a replica is gone -/
  | leave (fd : Fd)

namespace Replication

open ServerState

def initial : Replication := ⟨ReplicaManager.empty, [], Link.fresh⟩

def isGetackCommand (message : Bytes) : Bool := message == getackCommand

def writes (net : Replication) : List Bytes := MarkedStream.payload isGetackCommand net.sent

def hasReceived (net : Replication) (target : Nat) (fd : Fd) : Bool :=
  (net.writes.flatten.take target).isPrefixOf (net.links fd).processed.flatten

def received (net : Replication) (target : Int) : Nat :=
  net.manager.replicas.countP fun replica => net.hasReceived target.toNat replica.fd

def messagesTo (fd : Fd) (actions : List Action) : List Bytes :=
  actions.filterMap fun
    | .getack replica => if replica = fd then some getackCommand else none
    | .propagate replica raw => if replica = fd then some raw else none
    | .wait _ _ _ => none
    | .waitReply _ _ => none

def setLink (net : Replication) (fd : Fd) (link : Link) : Replication :=
  { net with links := Function.update net.links fd link }

def asks (manager : ReplicaManager) : ProcessState → Bool
  | .wait numreplicas _ =>
    ¬ (manager.masterOffset = 0 ∨ numreplicas ≤ manager.countAckedFor manager.masterOffset)
  | _ => false

def answers (net : Replication) (target : Int) (results : List (Fd × Int)) : List Answer :=
  results.map fun result => ⟨result.1, target, result.2, net.received target⟩

def repliesOf (actions : List Action) : List (Fd × Int) :=
  actions.filterMap fun
    | .waitReply fd count => some (fd, count)
    | _ => none

def target (manager : ReplicaManager) : Int := (manager.waitState.map WaitState.targetOffset).getD 0

def results (wait : Option WaitResult) : List (Fd × Int) :=
  wait.toList.map fun result => (result.clientFd, result.count)

def step (net : Replication) : ReplicationEvent → Except Fault (Replication × List Answer)
  | .handshake fd =>
    let joined := { net with manager := (dispatchState net.manager 0 fd .replicaHandshake).1 }
    .ok (joined.setLink fd (Link.fresh fd), [])
  | .call now fd result commands =>
    match dispatchState net.manager now fd result with
    | (waiting, first) =>
      match dispatchPropagate commands waiting with
      | (manager, second) =>
        let next : Replication :=
          { manager := manager
            sent := net.sent ++ (if asks net.manager result then [getackCommand] else []) ++
              commands
            links := fun fd =>
              { net.links fd with
                toReplica := (net.links fd).toReplica ++ messagesTo fd (first ++ second) } }
        .ok (next, net.answers net.manager.masterOffset (repliesOf first))
  | .timeouts now =>
    match net.manager.checkWaitTimeout now with
    | (manager, wait) =>
      .ok ({ net with manager := manager }, net.answers (target net.manager) (results wait))
  | .deliver fd count =>
    let link := net.links fd
    match ({ link.connector with
        pendingBuffer := link.connector.pendingBuffer ++
          (link.toReplica.take count).flatten } : ReplicaConnector).processBufferImpl with
    | .error fault => .error fault
    | .ok (connector, processed) =>
      .ok (net.setLink fd
        { toReplica := link.toReplica.drop count
          connector := connector
          processed := link.processed ++ processed.commands
          toMaster := link.toMaster ++ [processed.ackResponses] }, [])
  | .acknowledge fd count =>
    let link := net.links fd
    match net.manager.processAck fd (link.toMaster.take count).flatten with
    | (manager, result) =>
      let next := { net with manager := manager }.setLink fd
        { link with toMaster := link.toMaster.drop count }
      .ok (next, next.answers (target net.manager) (results result.wait))
  | .leave fd => .ok ({ net with manager := net.manager.removeReplica fd }, [])

def isWriteText (raw : Bytes) : Bool :=
  match parseOneInto raw with
  | .ok (args, length) => length == raw.length && isWriteCommand (toUpper (args.headD []))
  | .error _ => false

/-- Replicas connect before the first write, a connection becomes a replica once,
the propagated commands are writes, the counters stay within 64 bits, and only
replicas read and acknowledge. -/
def Proper (net : Replication) : ReplicationEvent → Prop
  | .handshake fd => net.sent = [] ∧ net.manager.contains fd = false
  | .call _ _ result commands =>
    result ≠ .replicaHandshake ∧ (∀ raw ∈ commands, isWriteText raw = true) ∧
      (net.sent ++ getackCommand :: commands).flatten.length < 2 ^ 63
  | .timeouts _ => True
  | .deliver fd _ => net.manager.contains fd = true
  | .acknowledge fd _ => net.manager.contains fd = true
  | .leave _ => True

/-- Writes are propagated only as long as the replicas have been asked for
acknowledgements once at most. -/
def AsksOnce (net : Replication) : ReplicationEvent → Prop
  | .call _ _ result commands =>
    commands = [] ∨
      MarkedStream.markers isGetackCommand net.sent + (asks net.manager result).toNat ≤ 1
  | _ => True

/-- A wait that is answered at once behind the first write finds every replica
up to date. -/
def AnswersAll (net : Replication) : ReplicationEvent → Prop
  | .call _ _ (.wait numreplicas timeoutMs) _ =>
    asks net.manager (.wait numreplicas timeoutMs) = false → net.manager.masterOffset ≠ 0 →
      net.manager.countAckedFor net.manager.masterOffset = net.manager.count
  | _ => True

instance (net : Replication) (event : ReplicationEvent) : Decidable (net.Proper event) :=
  match event with
  | .handshake _ => inferInstanceAs (Decidable (_ ∧ _))
  | .call _ _ _ _ => inferInstanceAs (Decidable (_ ∧ _ ∧ _))
  | .deliver _ _ | .acknowledge _ _ => inferInstanceAs (Decidable (_ = _))
  | .timeouts _ | .leave _ => inferInstanceAs (Decidable True)

instance (net : Replication) (event : ReplicationEvent) : Decidable (net.AsksOnce event) :=
  match event with
  | .call _ _ _ _ => inferInstanceAs (Decidable (_ ∨ _))
  | .handshake _ | .timeouts _ | .deliver _ _ | .acknowledge _ _ | .leave _ =>
    inferInstanceAs (Decidable True)

instance (net : Replication) (event : ReplicationEvent) : Decidable (net.AnswersAll event) :=
  match event with
  | .call _ _ (.wait _ _) _ => inferInstanceAs (Decidable (_ → _ → _))
  | .call _ _ .normal _ | .call _ _ .block _ | .call _ _ .replicaHandshake _ | .handshake _
  | .timeouts _ | .deliver _ _ | .acknowledge _ _ | .leave _ => inferInstanceAs (Decidable True)

end Replication

end Credis
