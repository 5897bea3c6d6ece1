import Credis.StoreCore

/-! `BlockingManager`: a queue of waiting clients for each key, and for each
descriptor the list node of its latest wait. -/

namespace Credis

open ByteString

abbrev Fd := Int

/-- `node` is the identity of the list node, so an iterator is the client it
points to. -/
structure BlockedClient where
  fd : Fd
  key : Key
  deadline : Time
  lastId : StreamId
  node : Nat
  deriving DecidableEq

namespace BlockedClient

def isIndefinite (client : BlockedClient) : Bool := client.deadline == timeMax

end BlockedClient

structure BlockingManager where
  blockedClients : AList fun _ : Key => List BlockedClient
  fdToClient : AList fun _ : Fd => BlockedClient
  nextNode : Nat

namespace BlockingManager

variable (manager : BlockingManager) (now : Time) (fd : Fd) (key : Key)

def empty : BlockingManager := ⟨∅, ∅, 0⟩

def queue : List BlockedClient :=
  (manager.blockedClients.lookup key).getD []

/-- A queue that becomes empty is erased. -/
def setQueue (clients : AList fun _ : Key => List BlockedClient) (key : Key)
    (queue : List BlockedClient) : AList fun _ : Key => List BlockedClient :=
  if queue = [] then clients.erase key else clients.insert key queue

def blockClientForStream (lastId : StreamId) (timeoutMs : Int) : BlockingManager :=
  let deadline := if timeoutMs = 0 then timeMax else addMillis now timeoutMs
  let client : BlockedClient := ⟨fd, key, deadline, lastId, manager.nextNode⟩
  { blockedClients := manager.blockedClients.insert key (manager.queue key ++ [client])
    fdToClient := manager.fdToClient.insert fd client
    nextNode := manager.nextNode + 1 }

def blockClient (timeoutMs : Int) : BlockingManager :=
  manager.blockClientForStream now fd key ⟨0, 0⟩ timeoutMs

def wakeClient : BlockingManager × Option BlockedClient :=
  match manager.queue key with
  | [] => (manager, none)
  | client :: rest =>
    ({ manager with
        blockedClients := setQueue manager.blockedClients key rest
        fdToClient := manager.fdToClient.erase client.fd }, some client)

/-- The first client of the queue whose threshold lies below the new ID. -/
def wakeClientForStream (newEntryId : Bytes) : BlockingManager × Option BlockedClient :=
  match StreamId.parse newEntryId with
  | none => (manager, none)
  | some newId =>
    match (manager.queue key).find? fun client => StreamId.lt client.lastId newId with
    | none => (manager, none)
    | some client =>
      ({ manager with
          blockedClients :=
            setQueue manager.blockedClients key ((manager.queue key).erase client)
          fdToClient := manager.fdToClient.erase client.fd }, some client)

def isOverdue (client : BlockedClient) : Bool :=
  !client.isIndefinite && decide (client.deadline ≤ now)

structure Sweep where
  queue : List BlockedClient
  fdToClient : AList fun _ : Fd => BlockedClient
  expired : List Fd

/-- The inner loop of `get_expired_clients`. The iterator stands at the front of its
argument, and the nodes that it has passed are the queue of the sweep. -/
def expireLoop : List BlockedClient → Sweep → Sweep
  | [], sweep => sweep
  | client :: rest, sweep =>
    if isOverdue now client then
      expireLoop rest { sweep with
        expired := sweep.expired ++ [client.fd]
        fdToClient := sweep.fdToClient.erase client.fd }
    else expireLoop rest { sweep with queue := sweep.queue ++ [client] }

def expireQueue (state : BlockingManager × List Fd) (key : Key) : BlockingManager × List Fd :=
  let sweep := expireLoop now (state.1.queue key) ⟨[], state.1.fdToClient, state.2⟩
  ({ state.1 with
      blockedClients := setQueue state.1.blockedClients key sweep.queue
      fdToClient := sweep.fdToClient }, sweep.expired)

def getExpiredClients : BlockingManager × List Fd :=
  manager.blockedClients.keys.foldl (expireQueue now) (manager, [])

def unblockClient : BlockingManager :=
  match manager.fdToClient.lookup fd with
  | none => manager
  | some client =>
    { manager with
      blockedClients :=
        if client.key ∈ manager.blockedClients then
          setQueue manager.blockedClients client.key ((manager.queue client.key).erase client)
        else manager.blockedClients
      fdToClient := manager.fdToClient.erase fd }

def earlier (earliest : Option Time) (client : BlockedClient) : Option Time :=
  if client.isIndefinite then earliest
  else
    match earliest with
    | none => some client.deadline
    | some time => if client.deadline < time then some client.deadline else some time

def getNextDeadline : Option Time :=
  (manager.blockedClients.keys.flatMap manager.queue).foldl earlier none

def isBlocked : Bool := decide (fd ∈ manager.fdToClient)

end BlockingManager

end Credis
