import Credis.BlockingCore
import Credis.Sha256

/-! What the server keeps for its connections: transactions, buffers and
authentication, the channel subscriptions, the users and the configuration. -/

namespace Credis

open ByteString

inductive Fault
  /-- an argument vector is indexed at or behind its size -/
  | argumentIndex
  /-- `ConnectionPool::get_connection` or `get_pending_write` of an unknown descriptor -/
  | missingConnection
  /-- the empty `send_to_client` function is called -/
  | emptyCallback
  /-- `read_pos_` lies behind `data_len_`, so their difference wraps -/
  | bufferUnderflow
  /-- a copy runs past the end of a buffer -/
  | bufferOverread
  deriving DecidableEq

structure TransactionState where
  inMulti : Bool
  queuedCommands : List (List Bytes)
  watchedKeys : AList fun _ : Key => Nat

namespace TransactionState

def fresh : TransactionState := ⟨false, [], ∅⟩

end TransactionState

/-- `buffer` holds the first `data_len_` bytes of the source's vector, whose
size is `capacity`. -/
structure Connection where
  buffer : Bytes
  capacity : Nat
  readPos : Nat
  pendingWrite : Bytes
  authenticated : Bool
  dirty : Bool
  tx : Option TransactionState

namespace Connection

variable (connection : Connection)

def initialBufferSize : Nat := 4096

def maxBufferSize : Nat := 512 * 1024 * 1024

def fresh : Connection := ⟨[], initialBufferSize, 0, [], false, false, none⟩

def compact : Except Fault Connection :=
  if connection.readPos = 0 then .ok connection
  else if connection.buffer.length < connection.readPos then .error .bufferUnderflow
  else .ok { connection with
    buffer := connection.buffer.drop connection.readPos
    readPos := 0 }

/-- `incoming` is what the socket holds. The read takes as much of it as the
buffer has room for, and a read of nothing ends the connection. -/
def handleRead (incoming : Bytes) : Except Fault (Connection × Option Bytes) :=
  match connection.compact with
  | .error fault => .error fault
  | .ok connection =>
    let capacity :=
      if connection.buffer.length = connection.capacity ∧
          connection.capacity < maxBufferSize then connection.capacity * 2
      else connection.capacity
    let received := incoming.take (capacity - connection.buffer.length)
    if received = [] then .ok ({ connection with capacity := capacity }, none)
    else
      let buffer := connection.buffer ++ received
      .ok ({ connection with buffer := buffer, capacity := capacity },
        some (buffer.drop connection.readPos))

def consume (count : Nat) : Connection :=
  { connection with readPos := connection.readPos + count }

def sendData (data : Bytes) : Connection :=
  { connection with pendingWrite := connection.pendingWrite ++ data }

def flush (fd : Fd) : Connection × Bytes :=
  if connection.pendingWrite = [] ∨ fd < 0 then (connection, [])
  else ({ connection with pendingWrite := [] }, connection.pendingWrite)

end Connection

structure ConnectionPool where
  connections : AList fun _ : Fd => Connection
  dirtyFds : List Fd

namespace ConnectionPool

variable (pool : ConnectionPool) (fd : Fd)

def empty : ConnectionPool := ⟨∅, []⟩

def find : Option Connection := pool.connections.lookup fd

def modify (change : Connection → Connection) : ConnectionPool :=
  match pool.find fd with
  | none => pool
  | some connection => { pool with connections := pool.connections.insert fd (change connection) }

def contains : Bool := (pool.find fd).isSome

def markDirty : ConnectionPool :=
  match pool.find fd with
  | none => pool
  | some connection =>
    if connection.dirty then pool
    else
      { pool.modify fd (fun connection => { connection with dirty := true }) with
        dirtyFds := pool.dirtyFds ++ [fd] }

def add : ConnectionPool :=
  { pool with connections := pool.connections.insert fd Connection.fresh }

def remove : ConnectionPool :=
  { pool with connections := pool.connections.erase fd }

def readFrom (incoming : Bytes) : Except Fault (ConnectionPool × Option Bytes) :=
  match pool.find fd with
  | none => .ok (pool, none)
  | some connection =>
    match connection.handleRead incoming with
    | .error fault => .error fault
    | .ok (connection, data) =>
      .ok ({ pool with connections := pool.connections.insert fd connection }, data)

def consume (count : Nat) : ConnectionPool :=
  pool.modify fd fun connection => connection.consume count

/-- The caller appends to the connection's pending bytes afterwards. -/
def getPendingWrite : Except Fault ConnectionPool :=
  if pool.contains fd then .ok (pool.markDirty fd) else .error .missingConnection

def sendTo (response : Bytes) : ConnectionPool :=
  (pool.modify fd fun connection => connection.sendData response).markDirty fd

def flushStep (state : ConnectionPool × List (Fd × Bytes)) (fd : Fd) :
    ConnectionPool × List (Fd × Bytes) :=
  match state.1.find fd with
  | none => state
  | some connection =>
    (state.1.modify fd (fun connection => { (connection.flush fd).1 with dirty := false }),
      state.2 ++ [(fd, (connection.flush fd).2)])

def flushAll : ConnectionPool × List (Fd × Bytes) :=
  let flushed := pool.dirtyFds.foldl flushStep (pool, [])
  ({ flushed.1 with dirtyFds := [] }, flushed.2)

end ConnectionPool

structure PubSubManager where
  subscriptions : AList fun _ : Fd => List Bytes
  channelSubscribers : AList fun _ : Bytes => List Fd

namespace PubSubManager

variable (manager : PubSubManager) (fd : Fd) (channel : Bytes)

def empty : PubSubManager := ⟨∅, ∅⟩

def channels : List Bytes :=
  (manager.subscriptions.lookup fd).getD []

def getSubscribers : List Fd :=
  (manager.channelSubscribers.lookup channel).getD []

def subscribe : PubSubManager × Nat :=
  let channels := (manager.channels fd).insert channel
  ({ subscriptions := manager.subscriptions.insert fd channels
     channelSubscribers :=
       manager.channelSubscribers.insert channel ((manager.getSubscribers channel).insert fd) },
    channels.length)

/-- The descriptor leaves one channel, which goes when nobody is left on it. -/
def leaveChannel (subscribers : AList fun _ : Bytes => List Fd) (channel : Bytes) :
    AList fun _ : Bytes => List Fd :=
  match subscribers.lookup channel with
  | none => subscribers
  | some fds =>
    if fds.erase fd = [] then subscribers.erase channel
    else subscribers.insert channel (fds.erase fd)

def unsubscribe : PubSubManager × Nat :=
  match manager.subscriptions.lookup fd with
  | none => (manager, 0)
  | some channels =>
    let remaining := channels.erase channel
    ({ subscriptions :=
         if remaining = [] then manager.subscriptions.erase fd
         else manager.subscriptions.insert fd remaining
       channelSubscribers := leaveChannel fd manager.channelSubscribers channel },
      remaining.length)

def unsubscribeAll : PubSubManager :=
  match manager.subscriptions.lookup fd with
  | none => manager
  | some channels =>
    { subscriptions := manager.subscriptions.erase fd
      channelSubscribers := channels.foldl (leaveChannel fd) manager.channelSubscribers }

def isSubscribed : Bool :=
  !(manager.channels fd).isEmpty

end PubSubManager

structure AclUser where
  passwords : List Bytes
  nopass : Bool
  deriving DecidableEq

structure AclManager where
  users : AList fun _ : Bytes => AclUser

namespace AclManager

variable (manager : AclManager)

def initial : AclManager := ⟨AList.singleton (ascii "default") ⟨[], true⟩⟩

def getUser (username : Bytes) : Option AclUser :=
  manager.users.lookup username

def setPassword (username password : Bytes) : AclManager :=
  let user := (manager.getUser username).getD ⟨[], true⟩
  ⟨manager.users.insert username ⟨user.passwords ++ [sha256 password], false⟩⟩

def authenticate (username password : Bytes) : Bool :=
  match manager.getUser username with
  | none => false
  | some user => user.passwords.contains (sha256 password)

def defaultNopass : Bool :=
  (manager.getUser (ascii "default")).any AclUser.nopass

end AclManager

structure ReplicaConfig where
  host : Bytes
  port : Int

structure ServerConfig where
  replica : Option ReplicaConfig
  masterReplid : Bytes
  dir : Bytes
  dbfilename : Bytes

namespace ServerConfig

def isReplica (config : ServerConfig) : Bool := config.replica.isSome

end ServerConfig

end Credis
