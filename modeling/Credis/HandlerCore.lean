import Credis.RespCore
import Credis.Geo
import Credis.SessionCore

/-! The handlers that read and write the keyspace. Each takes the argument
vector with the command name in front and returns the keyspace behind it with
the reply; indexing behind the vector is a fault. Several clock readings within
one command are one reading. -/

namespace Credis

open ByteString

variable (store : Store) (now : Time)

/-! The encoders for stream entries. -/

def encodeEntry (entry : StreamEntry) : Bytes :=
  arrayHeader 2 ++ encodeBulkString entry.id ++ arrayHeader (entry.fields.length * 2) ++
    entry.fields.flatMap fun field => encodeBulkString field.1 ++ encodeBulkString field.2

def encodeEntries (entries : List StreamEntry) : Bytes :=
  arrayHeader entries.length ++ entries.flatMap encodeEntry

def encodeStreamEntries (streams : List (Key × List StreamEntry)) : Bytes :=
  arrayHeader streams.length ++
    streams.flatMap fun stream =>
      arrayHeader 2 ++ encodeBulkString stream.1 ++ encodeEntries stream.2

/-! The error replies that several handlers share. -/

def errorReply (text : String) : Bytes := encodeError (ascii text)

def wrongTypeReply : Bytes :=
  errorReply "WRONGTYPE Operation against a key holding the wrong kind of value"

def notIntegerReply : Bytes := errorReply "ERR value is not an integer or out of range"

def notFloatReply : Bytes := errorReply "ERR value is not a valid float"

def syntaxReply : Bytes := errorReply "ERR syntax error"

def optionalBulkString : Option Bytes → Bytes
  | some text => encodeBulkString text
  | none => encodeNullBulkString

/-! Strings. -/

def setOptions : List Bytes → Option Nat → Except Bytes (Option Nat)
  | [], ttlMs => .ok ttlMs
  | [option], ttlMs =>
    if toUpper option = ascii "EX" ∨ toUpper option = ascii "PX" then .error syntaxReply
    else .ok ttlMs
  | option :: amount :: rest, ttlMs =>
    if toUpper option = ascii "EX" ∨ toUpper option = ascii "PX" then
      match parseUInt64 amount with
      | none => .error notIntegerReply
      | some parsed =>
        setOptions rest
          (some (if toUpper option = ascii "EX" then parsed * 1000 % 2 ^ 64 else parsed))
    else setOptions (amount :: rest) ttlMs

def handleSet : List Bytes → Except Fault (Store × Bytes)
  | _ :: key :: value :: options =>
    match setOptions options none with
    | .error reply => .ok (store, reply)
    | .ok ttlMs =>
      match store.setIfValidType now key value ttlMs with
      | (store, true) => .ok (store, respOk)
      | (store, false) => .ok (store, wrongTypeReply)
  | _ => .error .argumentIndex

def handleGet : List Bytes → Except Fault (Store × Bytes)
  | _ :: key :: _ =>
    match store.get now key with
    | (store, value) => .ok (store, optionalBulkString value)
  | _ => .error .argumentIndex

def handleIncr : List Bytes → Except Fault (Store × Bytes)
  | _ :: key :: _ =>
    match store.incrIfValidType now key with
    | (store, none) => .ok (store, notIntegerReply)
    | (store, some number) => .ok (store, encodeInteger number)
  | _ => .error .argumentIndex

def pairUp : List Bytes → List (Bytes × Bytes)
  | first :: second :: rest => (first, second) :: pairUp rest
  | _ => []

def setAll (items : List (Bytes × Bytes)) : Store :=
  items.foldl (fun store item => store.set now item.1 item.2 none) store

def handleMset : List Bytes → Except Fault (Store × Bytes)
  | _ :: items =>
    if items.length % 2 ≠ 0 then
      .ok (store, errorReply "ERR wrong number of arguments for MSET")
    else if (pairUp items).all fun item =>
        Store.keyIsAbsentOrHolds (fun value => value.string?.isSome) store now item.1 then
      .ok (setAll store now (pairUp items), respOk)
    else .ok (store, wrongTypeReply)
  | _ => .error .argumentIndex

/-! Lists. -/

/-- `handle_rpush` and `handle_lpush` with the two store operations of each. -/
def handlePush (pushIfValidType : Store → Time → Key → Bytes → Store × Option Int)
    (push : Store → Time → Key → Bytes → Store × Int) (store : Store) (now : Time) :
    List Bytes → Except Fault (Store × Bytes)
  | _ :: key :: value :: values =>
    match pushIfValidType store now key value with
    | (store, none) => .ok (store, wrongTypeReply)
    | (store, some count) =>
      let pushed := values.foldl
        (fun (state : Store × Int) value => push state.1 now key value) (store, count)
      .ok (pushed.1, encodeInteger pushed.2)
  | _ => .error .argumentIndex

def handleRpush := handlePush Store.rpushIfValidType Store.rpush

def handleLpush := handlePush Store.lpushIfValidType Store.lpush

/-- `handle_lpop` and `handle_rpop` with the two store operations of each. -/
def handlePop (pop : Store → Time → Key → Store × Option Bytes)
    (popCount : Store → Time → Key → Int → Store × List Bytes) (store : Store) (now : Time) :
    List Bytes → Except Fault (Store × Bytes)
  | [_, key] =>
    match pop store now key with
    | (store, element) => .ok (store, optionalBulkString element)
  | _ :: key :: count :: _ =>
    match parseInt64 count with
    | none => .ok (store, notIntegerReply)
    | some count =>
      if count ≤ 0 then .ok (store, arrayHeader 0)
      else
        match popCount store now key count with
        | (store, elements) => .ok (store, encodeArray elements)
  | _ => .error .argumentIndex

def handleLpop := handlePop Store.lpop Store.lpopCount

def handleRpop := handlePop Store.rpop Store.rpopCount

def handleLlen : List Bytes → Except Fault (Store × Bytes)
  | _ :: key :: _ =>
    match store.llen now key with
    | (store, count) => .ok (store, encodeInteger count)
  | _ => .error .argumentIndex

/-- `handle_lrange` and `handle_zrange` with the store operation of each. -/
def handleRange (range : Store → Time → Key → Int → Int → Store × List Bytes) (store : Store)
    (now : Time) : List Bytes → Except Fault (Store × Bytes)
  | _ :: key :: start :: stop :: _ =>
    match parseInt64 start, parseInt64 stop with
    | some start, some stop =>
      match range store now key start stop with
      | (store, elements) => .ok (store, encodeArray elements)
    | _, _ => .ok (store, notIntegerReply)
  | _ => .error .argumentIndex

def handleLrange := handleRange Store.lrange

structure BlockingOutcome where
  store : Store
  manager : Option BlockingManager
  blocked : Bool
  reply : Bytes
  sends : List (Fd × Bytes)

def handleBlpop (manager : Option BlockingManager) (now : Time) (fd : Fd) :
    List Bytes → Except Fault BlockingOutcome
  | _ :: key :: timeout :: _ =>
    match Double.parse timeout with
    | none => .ok ⟨store, manager, false, notIntegerReply, []⟩
    | some seconds =>
      if seconds < 0 then
        .ok ⟨store, manager, false, errorReply "ERR timeout is negative", []⟩
      else
        match store.lpopCount now key 1 with
        | (store, element :: _) =>
          .ok ⟨store, manager, false, encodeArray [key, element], []⟩
        | (store, []) =>
          match manager with
          | some blocking =>
            let waiting := blocking.blockClient now fd key (Double.toInt64 (seconds * 1000))
            .ok ⟨store, some waiting, true, [], []⟩
          | none => .ok ⟨store, none, false, errorReply "ERR blocking not available", []⟩
  | _ => .error .argumentIndex

structure PushState where
  store : Store
  manager : Option BlockingManager
  count : Int
  sends : List (Fd × Bytes)

def tryWake (key : Key) (state : PushState) : PushState × Bool :=
  match state.manager with
  | none => (state, false)
  | some blocking =>
    match blocking.wakeClient key with
    | (_, none) => (state, false)
    | (blocking, some client) =>
      match state.store.lpopCount now key 1 with
      | (store, element :: _) =>
        (⟨store, some blocking, state.count,
          state.sends ++ [(client.fd, encodeArray [key, element])]⟩, true)
      | (store, []) => (⟨store, some blocking, state.count, state.sends⟩, true)

/-- One turn of the loop over the further values: a client is woken instead of
the value being pushed. -/
def pushStep (push : Store → Time → Key → Bytes → Store × Int) (now : Time) (key : Key)
    (state : PushState) (value : Bytes) : PushState :=
  match tryWake now key state with
  | (state, true) => state
  | (state, false) =>
    match push state.store now key value with
    | (store, count) => ⟨store, state.manager, count, state.sends⟩

/-- `handle_rpush_with_blocking` and `handle_lpush_with_blocking` with the two
store operations of each. -/
def handlePushWithBlocking (pushIfValidType : Store → Time → Key → Bytes → Store × Option Int)
    (push : Store → Time → Key → Bytes → Store × Int) (store : Store)
    (manager : Option BlockingManager) (now : Time) : List Bytes → Except Fault BlockingOutcome
  | _ :: key :: value :: values =>
    match pushIfValidType store now key value with
    | (store, none) => .ok ⟨store, manager, false, wrongTypeReply, []⟩
    | (store, some count) =>
      let first := (tryWake now key ⟨store, manager, count, []⟩).1
      let final := values.foldl (pushStep push now key) first
      .ok ⟨final.store, final.manager, false, encodeInteger final.count, final.sends⟩
  | _ => .error .argumentIndex

def handleRpushWithBlocking := handlePushWithBlocking Store.rpushIfValidType Store.rpush

def handleLpushWithBlocking := handlePushWithBlocking Store.lpushIfValidType Store.lpush

/-! Sorted sets. -/

/-- The loop over the further score and member pairs. A score without a member
behind it is read outside the vector. -/
def zaddPairs (now : Time) (key : Key) : List Bytes → Store → Int → Except Fault (Store × Bytes)
  | [], store, added => .ok (store, encodeInteger added)
  | [score], store, _ =>
    match Double.parse score with
    | none => .ok (store, notFloatReply)
    | some _ => .error .argumentIndex
  | score :: member :: rest, store, added =>
    match Double.parse score with
    | none => .ok (store, notFloatReply)
    | some number =>
      match store.zadd now key number member with
      | (store, count) => zaddPairs now key rest store (added + count)

def handleZadd : List Bytes → Except Fault (Store × Bytes)
  | _ :: key :: score :: member :: rest =>
    match Double.parse score with
    | none => .ok (store, notFloatReply)
    | some number =>
      match store.zaddIfValidType now key number member with
      | (store, none) => .ok (store, wrongTypeReply)
      | (store, some added) => zaddPairs now key rest store added
  | _ => .error .argumentIndex

def handleZrank : List Bytes → Except Fault (Store × Bytes)
  | _ :: key :: member :: _ =>
    match store.zrank now key member with
    | (store, some rank) => .ok (store, encodeInteger rank)
    | (store, none) => .ok (store, encodeNullBulkString)
  | _ => .error .argumentIndex

def handleZrange := handleRange Store.zrange

def handleZcard : List Bytes → Except Fault (Store × Bytes)
  | _ :: key :: _ =>
    match store.zcard now key with
    | (store, count) => .ok (store, encodeInteger count)
  | _ => .error .argumentIndex

def handleZscore : List Bytes → Except Fault (Store × Bytes)
  | _ :: key :: member :: _ =>
    match store.zscore now key member with
    | (store, score) => .ok (store, optionalBulkString (score.map (Double.formatGeneral 17)))
  | _ => .error .argumentIndex

def handleZrem : List Bytes → Except Fault (Store × Bytes)
  | _ :: key :: member :: _ =>
    match store.zrem now key member with
    | (store, removed) => .ok (store, encodeInteger removed)
  | _ => .error .argumentIndex

/-! Coordinates. -/

def outside (low high value : Float) : Bool :=
  !value.isFinite || value < low || value > high

def handleGeoadd : List Bytes → Except Fault (Store × Bytes)
  | _ :: key :: longitude :: latitude :: member :: _ =>
    if Store.keyIsAbsentOrHolds (fun value => value.zset?.isSome) store now key then
      match Double.parse longitude, Double.parse latitude with
      | some lon, some lat =>
        if outside Geo.lonMin Geo.lonMax lon || outside Geo.latMin Geo.latMax lat then
          -- `snprintf` cuts the text at the size of its buffer
          .ok (store, encodeError ((ascii "ERR invalid longitude,latitude pair " ++
            Double.formatFixed 6 lon ++ ascii "," ++ Double.formatFixed 6 lat).take 127))
        else
          match store.zadd now key (Geo.encode lat lon).toFloat member with
          | (store, added) => .ok (store, encodeInteger added)
      | _, _ => .ok (store, notFloatReply)
    else .ok (store, wrongTypeReply)
  | _ => .error .argumentIndex

def coordinatesReply (score : Option Float) : Bytes :=
  match score with
  | some score =>
    let coordinates := Geo.decode score.toUInt64
    arrayHeader 2 ++ encodeBulkString (Double.formatGeneral 17 coordinates.lon) ++
      encodeBulkString (Double.formatGeneral 17 coordinates.lat)
  | none => encodeNullArray

def geoposMembers (now : Time) (key : Key) : List Bytes → Store → Store × Bytes
  | [], store => (store, [])
  | member :: rest, store =>
    match store.zscore now key member with
    | (store, score) =>
      match geoposMembers now key rest store with
      | (store, reply) => (store, coordinatesReply score ++ reply)

def handleGeopos : List Bytes → Except Fault (Store × Bytes)
  | _ :: key :: members =>
    match geoposMembers now key members store with
    | (store, reply) => .ok (store, arrayHeader members.length ++ reply)
  | _ => .error .argumentIndex

def scoreDistance (first second : Float) : Float :=
  let start := Geo.decode first.toUInt64
  let stop := Geo.decode second.toUInt64
  Geo.distance start.lat start.lon stop.lat stop.lon

/-- The reply text is cut at the size of the `snprintf` buffer. -/
def handleGeodist : List Bytes → Except Fault (Store × Bytes)
  | _ :: key :: first :: second :: _ =>
    match store.zscore now key first with
    | (store, start) =>
      match store.zscore now key second with
      | (store, stop) =>
        match start, stop with
        | some start, some stop =>
          .ok (store, encodeBulkString
            ((Double.formatFixed 4 (scoreDistance start stop)).take 31))
        | _, _ => .ok (store, encodeNullBulkString)
  | _ => .error .argumentIndex

def unitFactor (unit : Bytes) : Option Float :=
  if unit = ascii "M" then some 1.0
  else if unit = ascii "KM" then some 1000.0
  else if unit = ascii "MI" then some 1609.34
  else if unit = ascii "FT" then some 0.3048
  else none

def withinRadius (lat lon radius score : Float) : Bool :=
  let coordinates := Geo.decode score.toUInt64
  Geo.distance lat lon coordinates.lat coordinates.lon ≤ radius

def handleGeosearch : List Bytes → Except Fault (Store × Bytes)
  | _ :: key :: origin :: longitude :: latitude :: shape :: radius :: unit :: _ =>
    if toUpper origin ≠ ascii "FROMLONLAT" then .ok (store, syntaxReply)
    else
      match Double.parse longitude, Double.parse latitude with
      | some lon, some lat =>
        if toUpper shape ≠ ascii "BYRADIUS" then .ok (store, syntaxReply)
        else
          match Double.parse radius with
          | none => .ok (store, notFloatReply)
          | some radius =>
            match unitFactor (toUpper unit) with
            | none => .ok (store, errorReply "ERR unsupported unit provided")
            | some factor =>
              match store.zgetall now key with
              | (store, members) =>
                let matched := members.filter fun item =>
                  withinRadius lat lon (radius * factor) item.2
                .ok (store, encodeArray (matched.map Prod.fst))
      | _, _ => .ok (store, notFloatReply)
  | _ => .error .argumentIndex

/-! Types and keys. -/

def handleType : List Bytes → Except Fault (Store × Bytes)
  | _ :: key :: _ =>
    match store.getType now key with
    | (store, name) => .ok (store, encodeSimpleString name)
  | _ => .error .argumentIndex

def handleKeys : Store × Bytes :=
  match store.keys now with
  | (store, keys) => (store, encodeArray keys)

/-! Streams. -/

def handleXrange : List Bytes → Except Fault (Store × Bytes)
  | _ :: key :: start :: stop :: _ =>
    match store.xrange now key start stop with
    | (store, entries) => .ok (store, encodeEntries entries)
  | _ => .error .argumentIndex

/-- The ID to read behind: `$` stands for the last one in the stream. -/
def resolveId (key : Key) (id : Bytes) : Store × Bytes :=
  if id = ascii "$" then
    match store.getStreamMaxId now key with
    | (store, last) => (store, last.getD (ascii "0-0"))
  else (store, id)

def readStreams (now : Time) : List (Key × Bytes) → Store → Store × List (Key × List StreamEntry)
  | [], store => (store, [])
  | (key, id) :: rest, store =>
    match resolveId store now key id with
    | (store, id) =>
      match store.xread now key id with
      | (store, entries) =>
        match readStreams now rest store with
        | (store, results) => (store, (key, entries) :: results)

/-- The part of `handle_xread_with_blocking` behind the `BLOCK` option, whose
timeout is `block`; `args` starts where the search for `STREAMS` does. -/
def readWithBlocking (manager : Option BlockingManager) (now : Time) (fd : Fd) (block : Option Int)
    (args : List Bytes) : BlockingOutcome :=
  let behind := args.dropWhile fun arg => toUpper arg ≠ ascii "STREAMS"
  let names := behind.drop 1
  let streams := (names.take (names.length / 2)).zip (names.drop (names.length / 2))
  if behind = [] then ⟨store, manager, false, syntaxReply, []⟩
  else if names.length = 0 ∨ names.length % 2 ≠ 0 then
    ⟨store, manager, false, errorReply "ERR wrong number of arguments for 'xread' command", []⟩
  else if block.isSome ∧ streams.length ≠ 1 then
    ⟨store, manager, false, errorReply "ERR BLOCK only supports single stream", []⟩
  else
    match readStreams now streams store with
    | (store, results) =>
      match block with
      | none => ⟨store, manager, false, encodeStreamEntries results, []⟩
      | some timeoutMs =>
        if results.any fun result => !result.2.isEmpty then
          ⟨store, manager, false, encodeStreamEntries results, []⟩
        else
          match manager, streams with
          | some blocking, (key, id) :: _ =>
            match resolveId store now key id with
            | (store, id) =>
              let lastId := (StreamId.parse id).getD ⟨0, 0⟩
              ⟨store, some (blocking.blockClientForStream now fd key lastId timeoutMs),
                true, [], []⟩
          | _, _ => ⟨store, manager, false, errorReply "ERR blocking not available", []⟩

def handleXreadWithBlocking (manager : Option BlockingManager) (now : Time) (fd : Fd) :
    List Bytes → BlockingOutcome
  | _ :: option :: rest =>
    if toUpper option = ascii "BLOCK" then
      match rest with
      | [] => ⟨store, manager, false, syntaxReply, []⟩
      | timeout :: args =>
        match parseInt64 timeout with
        | none => ⟨store, manager, false, notIntegerReply, []⟩
        | some timeoutMs => readWithBlocking store manager now fd (some timeoutMs) args
    else readWithBlocking store manager now fd none (option :: rest)
  | _ => readWithBlocking store manager now fd none []

/-- The wake loop of `handle_xadd_with_blocking`. Each turn takes one client out
of the queue, so the length of the queue bounds the turns. -/
def wakeStreamClients (now : Time) (key : Key) (newId : Bytes) :
    Nat → Store → BlockingManager → Store × BlockingManager × List (Fd × Bytes)
  | 0, store, manager => (store, manager, [])
  | fuel + 1, store, manager =>
    match manager.wakeClientForStream key newId with
    | (manager, none) => (store, manager, [])
    | (manager, some client) =>
      match store.xread now key client.lastId.toText with
      | (store, entries) =>
        match wakeStreamClients now key newId fuel store manager with
        | (store, manager, sends) =>
          (store, manager, (client.fd, encodeStreamEntries [(key, entries)]) :: sends)

def handleXaddWithBlocking (manager : Option BlockingManager) (now : Instant) :
    List Bytes → Except Fault BlockingOutcome
  | _ :: key :: id :: fields =>
    if fields.length % 2 ≠ 0 then
      .ok ⟨store, manager, false,
        errorReply "ERR wrong number of arguments for 'xadd' command", []⟩
    else
      match store.xaddIfValidType now key id (pairUp fields) with
      | (store, none) => .ok ⟨store, manager, false, wrongTypeReply, []⟩
      | (store, some newId) =>
        if startsWith newId (ascii "ERR") then
          .ok ⟨store, manager, false, encodeError newId, []⟩
        else
          match manager with
          | none => .ok ⟨store, none, false, encodeBulkString newId, []⟩
          | some blocking =>
            match wakeStreamClients now.steady key newId (blocking.queue key).length store
                blocking with
            | (store, blocking, sends) =>
              .ok ⟨store, some blocking, false, encodeBulkString newId, sends⟩
  | _ => .error .argumentIndex

end Credis
