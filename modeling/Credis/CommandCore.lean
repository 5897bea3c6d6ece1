import Credis.AofCore
import Credis.HandlerCore

/-! The command table: the handlers that use more of the server than the
keyspace, the commands with their least argument counts, and
`execute_command`. -/

namespace Credis

open ByteString

inductive ProcessState
  | normal
  | block
  | replicaHandshake
  | wait (numreplicas timeoutMs : Int)
  deriving DecidableEq

/-- The part of the command context that the handlers of the table use. The
clocks and the results of `fork` are inputs, numbered by the commands that have
read them so far. `replicaCount` and `offset` are the values of the two callbacks,
when they are set. -/
structure HandlerState where
  store : Store
  config : ServerConfig
  aofManager : Option AofManager
  blockingManager : Option BlockingManager
  pubsubManager : Option PubSubManager
  aclManager : AclManager
  replicaCount : Option Nat
  offset : Option Int
  clock : Nat → Instant
  forks : Nat → Bool
  ticks : Nat

/-- What a handler leaves behind. `authenticated` tells that the handler marks
its connection, `sends` are its calls of `send_to_client`, all of them made
before it writes its reply. -/
structure Outcome where
  state : HandlerState
  result : ProcessState
  reply : Bytes
  sends : List (Fd × Bytes)
  authenticated : Bool

namespace HandlerState

def isSubscribed (state : HandlerState) (fd : Fd) : Bool :=
  state.pubsubManager.any fun manager => manager.isSubscribed fd

def tick (state : HandlerState) : HandlerState := { state with ticks := state.ticks + 1 }

def replied (state : HandlerState) (reply : Bytes) : Outcome := ⟨state, .normal, reply, [], false⟩

def onStore (state : HandlerState) (handled : Except Fault (Store × Bytes)) :
    Except Fault Outcome :=
  handled.map fun result => { state with store := result.1 }.replied result.2

/-- A handler that may block or wake clients. Without a callback it must not
send. -/
def onBlocking (state : HandlerState) (send : Bool)
    (handled : Except Fault BlockingOutcome) : Except Fault Outcome :=
  match handled with
  | .error fault => .error fault
  | .ok outcome =>
    if outcome.sends ≠ [] ∧ send = false then .error .emptyCallback
    else
      .ok ⟨{ state with store := outcome.store, blockingManager := outcome.manager },
        if outcome.blocked then .block else .normal, outcome.reply, outcome.sends, false⟩

end HandlerState

/-! Server commands. -/

def handlePing (state : HandlerState) (fd : Fd) : Bytes :=
  if 0 ≤ fd ∧ state.isSubscribed fd then encodeArray [ascii "pong", []] else respPong

def handleEcho : List Bytes → Except Fault Bytes
  | _ :: message :: _ => .ok (encodeBulkString message)
  | _ => .error .argumentIndex

def handleInfo (state : HandlerState) : Bytes :=
  encodeBulkString (ascii "# Replication" ++ crlf ++ ascii "role:" ++
    (if state.config.isReplica then ascii "slave" else ascii "master") ++ crlf ++
    ascii "master_replid:" ++ state.config.masterReplid ++ crlf ++
    ascii "master_repl_offset:" ++ intText (state.offset.getD 0) ++ crlf)

def parameterReply (name : String) (value : Bytes) : Bytes :=
  arrayHeader 2 ++ encodeBulkString (ascii name) ++ value

def aofParameter (state : HandlerState) (name : String) (read : AofManager → Bytes) : Bytes :=
  parameterReply name (encodeBulkString ((state.aofManager.map read).getD []))

def handleConfigGet (state : HandlerState) (parameter : Bytes) : Bytes :=
  let upper := toUpper parameter
  if upper = ascii "DIR" then parameterReply "dir" (encodeBulkString state.config.dir)
  else if upper = ascii "DBFILENAME" then
    parameterReply "dbfilename"
      (if state.config.dbfilename = [] then encodeNullBulkString
        else encodeBulkString state.config.dbfilename)
  else if upper = ascii "APPENDONLY" then aofParameter state "appendonly" AofManager.appendonly
  else if upper = ascii "APPENDDIRNAME" then
    aofParameter state "appenddirname" AofManager.appenddirname
  else if upper = ascii "APPENDFILENAME" then
    aofParameter state "appendfilename" AofManager.appendfilename
  else if upper = ascii "APPENDFSYNC" then aofParameter state "appendfsync" AofManager.appendfsync
  else arrayHeader 0

def switchAppendonly (manager : AofManager) (dir value : Bytes) : AofManager :=
  let switched := manager.setAppendonly value
  if value = ascii "yes" ∧ manager.appendonly ≠ ascii "yes" then
    ((switched.ensureFile dir).ensureManifest dir).openFile dir
  else if value = ascii "no" ∧ manager.appendonly ≠ ascii "no" then switched.close
  else switched

def handleConfigSet (aofManager : Option AofManager) (dir parameter value : Bytes) :
    Option AofManager × Bytes :=
  let upper := toUpper parameter
  let lower := toLower value
  if upper = ascii "APPENDONLY" then
    match aofManager with
    | none => (none, errorReply "ERR AOF is not configured")
    | some manager =>
      if lower ≠ ascii "yes" ∧ lower ≠ ascii "no" then
        (some manager, errorReply "ERR invalid value for appendonly")
      else (some (switchAppendonly manager dir lower), respOk)
  else if upper = ascii "APPENDFSYNC" then
    match aofManager with
    | none => (none, errorReply "ERR AOF is not configured")
    | some manager =>
      if lower ≠ ascii "always" ∧ lower ≠ ascii "everysec" ∧ lower ≠ ascii "no" then
        (some manager, errorReply "ERR invalid value for appendfsync")
      else (some (manager.setAppendfsync lower), respOk)
  else (aofManager, errorReply "ERR unsupported CONFIG parameter")

def handleConfig (state : HandlerState) : List Bytes → Except Fault Outcome
  | _ :: subcommand :: parameter :: rest =>
    if toUpper subcommand = ascii "GET" then
      .ok (state.replied (handleConfigGet state parameter))
    else if toUpper subcommand = ascii "SET" then
      match rest with
      | [] =>
        .ok (state.replied
          (errorReply "ERR wrong number of arguments for 'config|set' command"))
      | value :: _ =>
        let changed := handleConfigSet state.aofManager state.config.dir parameter value
        .ok ({ state with aofManager := changed.1 }.replied changed.2)
    else .ok (state.replied (errorReply "ERR unsupported CONFIG subcommand"))
  | _ => .ok (state.replied (errorReply "ERR wrong number of arguments for 'config' command"))

def aclHelpReply : Bytes := errorReply "ERR unknown subcommand for 'ACL'. Try ACL HELP."

def handleAclGetuser (manager : AclManager) (username : Bytes) : Bytes :=
  match manager.getUser username with
  | none => encodeNullArray
  | some user =>
    encodeRawArray [encodeBulkString (ascii "flags"),
      encodeArray (if user.nopass then [ascii "nopass"] else []),
      encodeBulkString (ascii "passwords"), encodeArray user.passwords]

/-- A rule that starts with `>` adds a password, every other rule is skipped. -/
def applyRule (username : Bytes) (manager : AclManager) : Bytes → AclManager
  | 62 :: password => manager.setPassword username password
  | _ => manager

def handleAclSetuser (manager : AclManager) (username : Bytes) (rules : List Bytes) : AclManager :=
  rules.foldl (applyRule username) manager

def handleAcl (manager : AclManager) : List Bytes → AclManager × Bytes
  | _ :: subcommand :: rest =>
    if toUpper subcommand = ascii "WHOAMI" then (manager, encodeBulkString (ascii "default"))
    else if toUpper subcommand = ascii "GETUSER" then
      match rest with
      | [] => (manager, errorReply "ERR wrong number of arguments for 'acl|getuser' command")
      | username :: _ => (manager, handleAclGetuser manager username)
    else if toUpper subcommand = ascii "SETUSER" then
      match rest with
      | [] => (manager, errorReply "ERR wrong number of arguments for 'acl|setuser' command")
      | username :: rules => (handleAclSetuser manager username rules, respOk)
    else (manager, aclHelpReply)
  | _ => (manager, aclHelpReply)

def handleAuth (manager : AclManager) : List Bytes → Bool × Bytes
  | _ :: username :: password :: _ =>
    if manager.authenticate username password then (true, respOk)
    else (false, errorReply "WRONGPASS invalid username-password pair or user is disabled.")
  | _ => (false, errorReply "ERR wrong number of arguments for 'auth' command")

def handleReplconf : List Bytes → Bytes
  | _ :: option :: _ =>
    if toUpper option = ascii "GETACK" then
      encodeArray [ascii "REPLCONF", ascii "ACK", ascii "0"]
    else respOk
  | _ => respOk

def emptyRdb : Bytes :=
  ascii "REDIS0011" ++ [0xfa, 0x09] ++ ascii "redis-ver" ++ [0x05] ++ ascii "7.2.0" ++
    [0xfa, 0x0a] ++ ascii "redis-bits" ++ [0xc0, 0x40, 0xfa, 0x05] ++ ascii "ctime" ++
    [0xc2, 0x6d, 0x08, 0xbc, 0x65, 0xfa, 0x08] ++ ascii "used-mem" ++
    [0xc2, 0xb0, 0xc4, 0x10, 0x00, 0xfa, 0x08] ++ ascii "aof-base" ++
    [0xc0, 0x00, 0xff, 0xf0, 0x6e, 0x3b, 0xfe, 0xc0, 0xff, 0x5a, 0xa2]

example : emptyRdb.length = 88 := by decide

def handlePsync (state : HandlerState) : Bytes :=
  ascii "+FULLRESYNC " ++ state.config.masterReplid ++ ascii " " ++
    intText (state.offset.getD 0) ++ crlf ++ ascii "$88" ++ crlf ++ emptyRdb

def handleWait : List Bytes → ProcessState × Bytes
  | _ :: numreplicas :: timeout :: _ =>
    match parseInt64 numreplicas, parseInt64 timeout with
    | some numreplicas, some timeoutMs => (.wait numreplicas timeoutMs, [])
    | _, _ => (.normal, notIntegerReply)
  | _ => (.normal, errorReply "ERR wrong number of arguments for 'wait' command")

def handleBgrewriteaof (aofManager : Option AofManager) (store : Store) (dir : Bytes)
    (forked : Bool) : Option AofManager × Bytes :=
  match aofManager with
  | none => (none, errorReply "ERR AOF is not enabled")
  | some manager =>
    if manager.appendonly ≠ ascii "yes" then
      (some manager, errorReply "ERR AOF is not enabled")
    else if manager.rewriteInProgress then
      (some manager, errorReply "ERR AOF rewrite already in progress")
    else
      match manager.startRewrite store dir forked with
      | (manager, false) => (some manager, errorReply "ERR AOF rewrite failed")
      | (manager, true) =>
        (some manager,
          encodeSimpleString (ascii "Background append only file rewriting started"))

/-! Channels. -/

def subscriptionReply (kind : String) (channel : Bytes) (count : Nat) : Bytes :=
  arrayHeader 3 ++ encodeBulkString (ascii kind) ++ encodeBulkString channel ++
    encodeInteger count

def handleSubscribe (manager : Option PubSubManager) (fd : Fd) :
    List Bytes → Except Fault (Option PubSubManager × Bytes)
  | _ :: channel :: _ =>
    match manager with
    | none => .ok (none, subscriptionReply "subscribe" channel 1)
    | some manager =>
      let subscribed := manager.subscribe fd channel
      .ok (some subscribed.1, subscriptionReply "subscribe" channel subscribed.2)
  | _ => .ok (manager, errorReply "ERR wrong number of arguments for 'subscribe' command")

def handleUnsubscribe (manager : Option PubSubManager) (fd : Fd) :
    List Bytes → Except Fault (Option PubSubManager × Bytes)
  | _ :: channel :: _ =>
    match manager with
    | none => .ok (none, subscriptionReply "unsubscribe" channel 0)
    | some manager =>
      let left := manager.unsubscribe fd channel
      .ok (some left.1, subscriptionReply "unsubscribe" channel left.2)
  | _ => .ok (manager, errorReply "ERR wrong number of arguments for 'unsubscribe' command")

def handlePublish (manager : Option PubSubManager) (send : Bool) :
    List Bytes → List (Fd × Bytes) × Bytes
  | _ :: channel :: message :: _ =>
    match manager with
    | none => ([], encodeInteger 0)
    | some manager =>
      let subscribers := manager.getSubscribers channel
      let text := encodeArray [ascii "message", channel, message]
      (if send then subscribers.map fun subscriber => (subscriber, text) else [],
        encodeInteger subscribers.length)
  | _ => ([], errorReply "ERR wrong number of arguments for 'publish' command")

/-! The table. -/

inductive Command
  | ping | echo | set | mset | get | incr | rpush | lpush | llen | lpop | rpop | lrange | blpop
  | type | keys | xadd | zadd | zrank | zrange | zcard | zscore | zrem | geoadd | geopos | geodist
  | geosearch | xrange | xread | info | bgrewriteaof | config | acl | auth | replconf | wait
  | psync | subscribe | unsubscribe | publish
  deriving DecidableEq

namespace Command

def name : Command → Bytes
  | .ping => ascii "PING"
  | .echo => ascii "ECHO"
  | .set => ascii "SET"
  | .mset => ascii "MSET"
  | .get => ascii "GET"
  | .incr => ascii "INCR"
  | .rpush => ascii "RPUSH"
  | .lpush => ascii "LPUSH"
  | .llen => ascii "LLEN"
  | .lpop => ascii "LPOP"
  | .rpop => ascii "RPOP"
  | .lrange => ascii "LRANGE"
  | .blpop => ascii "BLPOP"
  | .type => ascii "TYPE"
  | .keys => ascii "KEYS"
  | .xadd => ascii "XADD"
  | .zadd => ascii "ZADD"
  | .zrank => ascii "ZRANK"
  | .zrange => ascii "ZRANGE"
  | .zcard => ascii "ZCARD"
  | .zscore => ascii "ZSCORE"
  | .zrem => ascii "ZREM"
  | .geoadd => ascii "GEOADD"
  | .geopos => ascii "GEOPOS"
  | .geodist => ascii "GEODIST"
  | .geosearch => ascii "GEOSEARCH"
  | .xrange => ascii "XRANGE"
  | .xread => ascii "XREAD"
  | .info => ascii "INFO"
  | .bgrewriteaof => ascii "BGREWRITEAOF"
  | .config => ascii "CONFIG"
  | .acl => ascii "ACL"
  | .auth => ascii "AUTH"
  | .replconf => ascii "REPLCONF"
  | .wait => ascii "WAIT"
  | .psync => ascii "PSYNC"
  | .subscribe => ascii "SUBSCRIBE"
  | .unsubscribe => ascii "UNSUBSCRIBE"
  | .publish => ascii "PUBLISH"

def minArgs : Command → Nat
  | .ping | .info | .bgrewriteaof | .psync => 1
  | .echo | .get | .incr | .llen | .lpop | .rpop | .type | .keys | .zcard | .acl | .auth
  | .replconf | .subscribe | .unsubscribe => 2
  | .set | .mset | .rpush | .lpush | .blpop | .zrank | .zscore | .zrem | .geopos | .config
  | .wait | .publish => 3
  | .lrange | .xadd | .zadd | .zrange | .geodist | .xrange | .xread => 4
  | .geoadd => 5
  | .geosearch => 8

def all : List Command :=
  [.ping, .echo, .set, .mset, .get, .incr, .rpush, .lpush, .llen, .lpop, .rpop, .lrange, .blpop,
    .type, .keys, .xadd, .zadd, .zrank, .zrange, .zcard, .zscore, .zrem, .geoadd, .geopos,
    .geodist, .geosearch, .xrange, .xread, .info, .bgrewriteaof, .config, .acl, .auth, .replconf,
    .wait, .psync, .subscribe, .unsubscribe, .publish]

def readsClock : Command → Bool
  | .ping | .echo | .info | .config | .acl | .auth | .replconf | .wait | .psync | .subscribe
  | .unsubscribe | .publish => false
  | _ => true

def lookup (cmd : Bytes) : Option Command := all.find? fun command => command.name == cmd

def handler (state : HandlerState) (now : Instant) (forked : Bool) (fd : Fd) (send : Bool)
    (args : List Bytes) : Command → Except Fault Outcome
  | .ping => .ok (state.replied (handlePing state fd))
  | .echo => (handleEcho args).map state.replied
  | .set => state.onStore (handleSet state.store now.steady args)
  | .mset => state.onStore (handleMset state.store now.steady args)
  | .get => state.onStore (handleGet state.store now.steady args)
  | .incr => state.onStore (handleIncr state.store now.steady args)
  | .rpush =>
    if send then
      state.onBlocking send
        (handleRpushWithBlocking state.store state.blockingManager now.steady args)
    else state.onStore (handleRpush state.store now.steady args)
  | .lpush =>
    if send then
      state.onBlocking send
        (handleLpushWithBlocking state.store state.blockingManager now.steady args)
    else state.onStore (handleLpush state.store now.steady args)
  | .llen => state.onStore (handleLlen state.store now.steady args)
  | .lpop => state.onStore (handleLpop state.store now.steady args)
  | .rpop => state.onStore (handleRpop state.store now.steady args)
  | .lrange => state.onStore (handleLrange state.store now.steady args)
  | .blpop =>
    state.onBlocking send (handleBlpop state.store state.blockingManager now.steady fd args)
  | .type => state.onStore (handleType state.store now.steady args)
  | .keys => state.onStore (.ok (handleKeys state.store now.steady))
  | .xadd =>
    state.onBlocking send (handleXaddWithBlocking state.store state.blockingManager now args)
  | .zadd => state.onStore (handleZadd state.store now.steady args)
  | .zrank => state.onStore (handleZrank state.store now.steady args)
  | .zrange => state.onStore (handleZrange state.store now.steady args)
  | .zcard => state.onStore (handleZcard state.store now.steady args)
  | .zscore => state.onStore (handleZscore state.store now.steady args)
  | .zrem => state.onStore (handleZrem state.store now.steady args)
  | .geoadd => state.onStore (handleGeoadd state.store now.steady args)
  | .geopos => state.onStore (handleGeopos state.store now.steady args)
  | .geodist => state.onStore (handleGeodist state.store now.steady args)
  | .geosearch => state.onStore (handleGeosearch state.store now.steady args)
  | .xrange => state.onStore (handleXrange state.store now.steady args)
  | .xread =>
    state.onBlocking send
      (.ok (handleXreadWithBlocking state.store state.blockingManager now.steady fd args))
  | .info => .ok (state.replied (handleInfo state))
  | .bgrewriteaof =>
    let rewritten := handleBgrewriteaof state.aofManager state.store state.config.dir forked
    .ok ({ state with aofManager := rewritten.1 }.replied rewritten.2)
  | .config => handleConfig state args
  | .acl =>
    let changed := handleAcl state.aclManager args
    .ok ({ state with aclManager := changed.1 }.replied changed.2)
  | .auth =>
    let checked := handleAuth state.aclManager args
    .ok ⟨state, .normal, checked.2, [], checked.1⟩
  | .replconf => .ok (state.replied (handleReplconf args))
  | .wait =>
    let waiting := handleWait args
    .ok ⟨state, waiting.1, waiting.2, [], false⟩
  | .psync => .ok ⟨state, .replicaHandshake, handlePsync state, [], false⟩
  | .subscribe =>
    (handleSubscribe state.pubsubManager fd args).map fun changed =>
      { state with pubsubManager := changed.1 }.replied changed.2
  | .unsubscribe =>
    (handleUnsubscribe state.pubsubManager fd args).map fun changed =>
      { state with pubsubManager := changed.1 }.replied changed.2
  | .publish =>
    let published := handlePublish state.pubsubManager send args
    .ok ⟨state, .normal, published.2, published.1, false⟩

end Command

def writeCommands : List Bytes :=
  [ascii "SET", ascii "DEL", ascii "INCR", ascii "MSET", ascii "RPUSH", ascii "LPUSH",
    ascii "LPOP", ascii "RPOP", ascii "XADD", ascii "ZADD", ascii "ZREM", ascii "GEOADD"]

def isWriteCommand (cmd : Bytes) : Bool := writeCommands.contains cmd

def unknownReply (cmd : Bytes) : Bytes :=
  encodeError (ascii "ERR unknown command '" ++ cmd ++ ascii "'")

def arityReply (cmd : Bytes) : Bytes :=
  encodeError (ascii "ERR wrong number of arguments for '" ++ cmd ++ ascii "' command")

/-- A command that reads the clocks takes the next reading. -/
def executeCommand (state : HandlerState) (fd : Fd) (send : Bool) (args : List Bytes)
    (cmd : Bytes) : Except Fault Outcome :=
  match Command.lookup cmd with
  | none => .ok (state.replied (unknownReply cmd))
  | some command =>
    if args.length < command.minArgs then .ok (state.replied (arityReply cmd))
    else
      command.handler (if command.readsClock then state.tick else state)
        (state.clock state.ticks) (state.forks state.ticks) fd send args

end Credis
