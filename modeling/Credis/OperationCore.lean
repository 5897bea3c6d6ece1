import Credis.StoreCore

/-! The public operations of the keyspace as one type, and what each of them makes
of the live entry under its key. -/

namespace Credis

open ByteString

namespace Store

variable (store : Store) (now : Time) (key : Key)

def contents : Option Value := (store.data.lookup key).map Entry.value

def liveEntry : Option Entry :=
  (store.data.lookup key).filter fun entry => !isExpired now entry

def liveValue : Option Value := (store.liveEntry now key).map Entry.value

def isOther {α : Type} (view : Value → Option α) (live : Option Entry) : Bool :=
  (live.map Entry.value).any fun value => (view value).isNone

def holdsOther {α : Type} (view : Value → Option α) (store : Store) (now : Time) (key : Key) :
    Bool :=
  isOther view (store.liveEntry now key)

inductive Operation
  | set (key : Key) (value : Bytes) (ttlMs : Option Nat)
  | setIfValidType (key : Key) (value : Bytes) (ttlMs : Option Nat)
  | incrIfValidType (key : Key)
  | rpushIfValidType (key : Key) (value : Bytes)
  | lpushIfValidType (key : Key) (value : Bytes)
  | zaddIfValidType (key : Key) (score : Float) (member : Bytes)
  | xaddIfValidType (key : Key) (id : Bytes) (fields : List (Bytes × Bytes))
  | get (key : Key)
  | incr (key : Key)
  | exists? (key : Key)
  | del (key : Key)
  | rpush (key : Key) (value : Bytes)
  | lpush (key : Key) (value : Bytes)
  | llen (key : Key)
  | lpop (key : Key)
  | lpopCount (key : Key) (count : Int)
  | rpop (key : Key)
  | rpopCount (key : Key) (count : Int)
  | lrange (key : Key) (start stop : Int)
  | xadd (key : Key) (id : Bytes) (fields : List (Bytes × Bytes))
  | xrange (key : Key) (start stop : Bytes)
  | xread (key : Key) (id : Bytes)
  | getStreamMaxId (key : Key)
  | zadd (key : Key) (score : Float) (member : Bytes)
  | zrank (key : Key) (member : Bytes)
  | zrange (key : Key) (start stop : Int)
  | zcard (key : Key)
  | zscore (key : Key) (member : Bytes)
  | zrem (key : Key) (member : Bytes)
  | zgetall (key : Key)
  | getType (key : Key)
  | keys
  | keyIsAbsentOrHolds (holds : Value → Bool) (key : Key)
  | getKeyVersion (key : Key)
  | forEachValidEntry

inductive Returned
  | nothing
  | flag (value : Bool)
  | number (value : Int)
  | number? (value : Option Int)
  | text (value : Bytes)
  | text? (value : Option Bytes)
  | texts (values : List Bytes)
  | score? (value : Option Float)
  | scores (values : List (Bytes × Float))
  | stream (entries : List StreamEntry)
  | visited (entries : List (Key × Entry))

namespace Operation

def key? : Operation → Option Key
  | .set key _ _ | .setIfValidType key _ _ | .incrIfValidType key | .rpushIfValidType key _
  | .lpushIfValidType key _ | .zaddIfValidType key _ _ | .xaddIfValidType key _ _ | .get key
  | .incr key | .exists? key | .del key | .rpush key _ | .lpush key _ | .llen key | .lpop key
  | .lpopCount key _ | .rpop key | .rpopCount key _ | .lrange key _ _ | .xadd key _ _
  | .xrange key _ _ | .xread key _ | .getStreamMaxId key | .zadd key _ _ | .zrank key _
  | .zrange key _ _ | .zcard key | .zscore key _ | .zrem key _ | .zgetall key | .getType key
  | .keyIsAbsentOrHolds _ key | .getKeyVersion key => some key
  | .keys | .forEachValidEntry => none

def pushes : Operation → Bool
  | .rpushIfValidType _ _ | .lpushIfValidType _ _ | .rpush _ _ | .lpush _ _ => true
  | _ => false

def pops : Operation → Bool
  | .lpop _ | .lpopCount _ _ | .rpop _ | .rpopCount _ _ => true
  | _ => false

def returning {α : Type} (wrap : α → Returned) (done : Store × α) : Store × Returned :=
  (done.1, wrap done.2)

def call (store : Store) (now : Instant) : Operation → Store × Returned
  | .set key value ttlMs => (store.set now.steady key value ttlMs, .nothing)
  | .setIfValidType key value ttlMs =>
    returning .flag (store.setIfValidType now.steady key value ttlMs)
  | .incrIfValidType key => returning .number? (store.incrIfValidType now.steady key)
  | .rpushIfValidType key value =>
    returning .number? (store.rpushIfValidType now.steady key value)
  | .lpushIfValidType key value =>
    returning .number? (store.lpushIfValidType now.steady key value)
  | .zaddIfValidType key score member =>
    returning .number? (store.zaddIfValidType now.steady key score member)
  | .xaddIfValidType key id fields =>
    returning .text? (store.xaddIfValidType now key id fields)
  | .get key => returning .text? (store.get now.steady key)
  | .incr key => returning .number? (store.incr now.steady key)
  | .exists? key => returning .flag (store.exists? now.steady key)
  | .del key => returning .flag (store.del key)
  | .rpush key value => returning .number (store.rpush now.steady key value)
  | .lpush key value => returning .number (store.lpush now.steady key value)
  | .llen key => returning .number (store.llen now.steady key)
  | .lpop key => returning .text? (store.lpop now.steady key)
  | .lpopCount key count => returning .texts (store.lpopCount now.steady key count)
  | .rpop key => returning .text? (store.rpop now.steady key)
  | .rpopCount key count => returning .texts (store.rpopCount now.steady key count)
  | .lrange key start stop => returning .texts (store.lrange now.steady key start stop)
  | .xadd key id fields => returning .text (store.xadd now key id fields)
  | .xrange key start stop => returning .stream (store.xrange now.steady key start stop)
  | .xread key id => returning .stream (store.xread now.steady key id)
  | .getStreamMaxId key => returning .text? (store.getStreamMaxId now.steady key)
  | .zadd key score member => returning .number (store.zadd now.steady key score member)
  | .zrank key member => returning .number? (store.zrank now.steady key member)
  | .zrange key start stop => returning .texts (store.zrange now.steady key start stop)
  | .zcard key => returning .number (store.zcard now.steady key)
  | .zscore key member => returning .score? (store.zscore now.steady key member)
  | .zrem key member => returning .number (store.zrem now.steady key member)
  | .zgetall key => returning .scores (store.zgetall now.steady key)
  | .getType key => returning .text (store.getType now.steady key)
  | .keys => returning .texts (store.keys now.steady)
  | .keyIsAbsentOrHolds holds key =>
    (store, .flag (Store.keyIsAbsentOrHolds holds store now.steady key))
  | .getKeyVersion key => (store, .number (store.getKeyVersion key))
  | .forEachValidEntry => (store, .visited (store.validEntries now.steady))

/-- The operation returns without a call of `touch_key`: it only reads, or finds a
value of another type before anything else. -/
def touchless (live : Option Entry) : Operation → Bool
  | .setIfValidType _ _ _ | .incrIfValidType _ => isOther Value.string? live
  | .rpushIfValidType _ _ | .lpushIfValidType _ _ => isOther Value.list? live
  | .zaddIfValidType _ _ _ => isOther Value.zset? live
  | .xaddIfValidType _ _ _ => isOther Value.stream? live
  | .set _ _ _ | .incr _ | .del _ | .rpush _ _ | .lpush _ _ | .lpop _ | .lpopCount _ _ | .rpop _
  | .rpopCount _ _ | .xadd _ _ _ | .zadd _ _ _ | .zrem _ _ => false
  | _ => true

def touchlessOn (store : Store) (now : Time) (operation : Operation) : Bool :=
  operation.touchless (operation.key?.bind (store.liveEntry now))

/-- When the operation changes nothing, it leaves before the call of `touch_key`.
`incr_if_valid_type` and `xadd_if_valid_type` do so for the type only: they find a
text that is no number, or an ID that is not accepted, behind that call. -/
def checksFirst (store : Store) (now : Time) : Operation → Bool
  | .setIfValidType _ _ _ | .rpushIfValidType _ _ | .lpushIfValidType _ _
  | .zaddIfValidType _ _ _ => true
  | operation => operation.touchlessOn store now

def reportsNoChange : Operation → Returned → Bool
  | .setIfValidType _ _ _, .flag done => !done
  | .incrIfValidType _, .number? value | .rpushIfValidType _ _, .number? value
  | .lpushIfValidType _ _, .number? value | .zaddIfValidType _ _ _, .number? value
  | .incr _, .number? value => value.isNone
  | .xaddIfValidType _ _ _, .text? text => text.all fun text => startsWith text (ascii "ERR")
  | .xadd _ _ _, .text text => startsWith text (ascii "ERR")
  | .del _, .flag done => !done
  | .lpop _, .text? value | .rpop _, .text? value => value.isNone
  | .lpopCount _ _, .texts values | .rpopCount _ _, .texts values => values.isEmpty
  | .zrem _ _, .number value => value == 0
  | .set _ _ _, _ | .rpush _ _, _ | .lpush _ _, _ | .zadd _ _ _, _ => false
  | _, _ => true

end Operation

variable (take : List Bytes → Option (Bytes × List Bytes)) (count : Int) (live : Option Entry)

def content {α : Type} (view : Value → Option α) (live : Option Entry) : Option α :=
  (live.map Entry.value).bind view

def expiryOf : Option Time := live.bind Entry.expiry

abbrev Act (α : Type) := Option Entry × α

def guardedAct {α β γ : Type} (view : Value → Option α) (failure : γ) (success : β → γ)
    (act : Option Entry → Act β) (live : Option Entry) : Act γ :=
  if isOther view live then (none, failure) else ((act live).1, success (act live).2)

def setAct (value : Bytes) (expiry : Option Time) (_ : Option Entry) : Act Unit :=
  (some ⟨.string value, expiry⟩, ())

def incrAct : Act (Option Int) :=
  match live with
  | none => (some ⟨.string (ascii "1"), none⟩, some 1)
  | some entry =>
    match entry.value.string?.bind incrementable with
    | none => (none, none)
    | some number => (some ⟨.string (intText (number + 1)), entry.expiry⟩, some (number + 1))

def pushAct (place : List Bytes → Bytes → List Bytes) (value : Bytes) (live : Option Entry) :
    Act Int :=
  let items := place ((content Value.list? live).getD []) value
  (some ⟨.list items, expiryOf live⟩, items.length)

def popAct : Act (Option Bytes) :=
  match (content Value.list? live).bind take with
  | none => (none, none)
  | some (value, rest) => (some ⟨.list rest, expiryOf live⟩, some value)

def popManyAct : Act (List Bytes) :=
  match content Value.list? live with
  | none => (none, [])
  | some items =>
    if items = [] ∨ count ≤ 0 then (none, [])
    else
      let taken := takeMany take (min count items.length).toNat items
      (some ⟨.list taken.2, expiryOf live⟩, taken.1)

/-- The ID that `xadd` appends and its text, or the error that it returns. -/
def settleId (system : Int) (entries : List StreamEntry) (id : Bytes) :
    Except Bytes (StreamId × Bytes) :=
  match chooseId system entries id with
  | .error failure => .error failure
  | .ok (parsed, text) =>
    if parsed.timestamp = 0 ∧ parsed.sequence = 0 then .error zeroId
    else if entries.getLast?.any fun last => !StreamId.lt last.parsedId parsed then
      .error smallId
    else .ok (parsed, text)

/-- A refused ID leaves an empty stream where there was none. -/
def xaddAct (system : Int) (id : Bytes) (fields : List (Bytes × Bytes)) (live : Option Entry) :
    Act Bytes :=
  let entries := (content Value.stream? live).getD []
  match settleId system entries id with
  | .error failure =>
    (if (content Value.stream? live).isSome then none else some ⟨.stream [], expiryOf live⟩,
      failure)
  | .ok (parsed, text) =>
    (some ⟨.stream (entries ++ [⟨text, parsed, fields⟩]), expiryOf live⟩, text)

def zaddAct (score : Float) (member : Bytes) (live : Option Entry) : Act Int :=
  let added := ((content Value.zset? live).getD .empty).add score member
  (some ⟨.zset added.1, expiryOf live⟩, added.2)

def zremAct (member : Bytes) (live : Option Entry) : Act Int :=
  match content Value.zset? live with
  | none => (none, 0)
  | some set => (some ⟨.zset (set.remove member).1, expiryOf live⟩, (set.remove member).2)

namespace Operation

/-- The operation works on the live entry under its key. `del` and the type check of the
handlers do not ask whether the entry has expired; the others look at no single entry. -/
def onEntry : Operation → Bool
  | .del _ | .keyIsAbsentOrHolds _ _ | .keys | .getKeyVersion _ | .forEachValidEntry => false
  | _ => true

def named {α : Type} (wrap : α → Returned) (act : Act α) : Act Returned := (act.1, wrap act.2)

def acts (now : Instant) (live : Option Entry) : Operation → Act Returned
  | .set _ value ttlMs =>
    named (fun _ => .nothing) (setAct value (expiryAfter now.steady ttlMs) live)
  | .setIfValidType _ value ttlMs =>
    named .flag (guardedAct Value.string? false (fun _ => true)
      (setAct value (expiryAfter now.steady ttlMs)) live)
  | .incrIfValidType _ | .incr _ => named .number? (incrAct live)
  | .rpushIfValidType _ value =>
    named .number? (guardedAct Value.list? none some (pushAct pushBack value) live)
  | .lpushIfValidType _ value =>
    named .number? (guardedAct Value.list? none some (pushAct pushFront value) live)
  | .zaddIfValidType _ score member =>
    named .number? (guardedAct Value.zset? none some (zaddAct score member) live)
  | .xaddIfValidType _ id fields =>
    named .text? (guardedAct Value.stream? none some (xaddAct now.system id fields) live)
  | .rpush _ value => named .number (pushAct pushBack value live)
  | .lpush _ value => named .number (pushAct pushFront value live)
  | .lpop _ => named .text? (popAct takeFront live)
  | .lpopCount _ count => named .texts (popManyAct takeFront count live)
  | .rpop _ => named .text? (popAct takeBack live)
  | .rpopCount _ count => named .texts (popManyAct takeBack count live)
  | .xadd _ id fields => named .text (xaddAct now.system id fields live)
  | .zadd _ score member => named .number (zaddAct score member live)
  | .zrem _ member => named .number (zremAct member live)
  | .get _ => (none, .text? (content Value.string? live))
  | .exists? _ => (none, .flag live.isSome)
  | .llen _ => (none, .number ((content Value.list? live).elim 0 fun items => items.length))
  | .lrange _ start stop =>
    (none, .texts ((content Value.list? live).elim [] fun items =>
      (rangePositions items.length start stop).map fun index => items.getD index []))
  | .getType _ => (none, .text (match live with
      | none => ascii "none"
      | some entry =>
        match entry.value with
        | .string _ => ascii "string"
        | .list _ => ascii "list"
        | .stream _ => ascii "stream"
        | .zset _ => ascii "zset"))
  | .xrange _ start stop =>
    (none, .stream ((content Value.stream? live).elim [] fun entries =>
      (entries.drop (lowerBound entries (rangeStart start))).take
        (upperBound entries (rangeEnd stop) - lowerBound entries (rangeStart start))))
  | .xread _ id =>
    (none, .stream ((content Value.stream? live).elim [] fun entries =>
      entries.drop (upperBound entries (readThreshold id))))
  | .getStreamMaxId _ =>
    (none, .text? ((content Value.stream? live).bind fun entries =>
      entries.getLast?.map StreamEntry.id))
  | .zrank _ member =>
    (none, .number? ((content Value.zset? live).bind fun set =>
      (set.memberScores.lookup member).map fun position =>
        set.entries.findIdx (SortedSet.isAt position)))
  | .zrange _ start stop =>
    (none, .texts ((content Value.zset? live).elim [] fun set =>
      (rangePositions set.entries.length start stop).map fun index =>
        (set.entries.getD index (0, [])).2))
  | .zcard _ =>
    (none, .number ((content Value.zset? live).elim 0 fun set => set.memberScores.keys.length))
  | .zscore _ member =>
    (none, .score? ((content Value.zset? live).bind fun set =>
      (set.memberScores.lookup member).map Prod.fst))
  | .zgetall _ =>
    (none, .scores ((content Value.zset? live).elim [] fun set =>
      set.entries.map fun item => (item.2, item.1)))
  | .del _ | .keyIsAbsentOrHolds _ _ | .keys | .getKeyVersion _ | .forEachValidEntry =>
    (none, .nothing)

end Operation

def unexpired (store : Store) (now : Time) (key : Key) : Store :=
  (store.findValidEntry now key).1

def write (store : Store) (key : Key) : Option Entry → Store
  | none => store
  | some entry => store.put key entry

def actOn {α : Type} (store : Store) (now : Time) (key : Key) (passes : Bool) (act : Act α) :
    Store × α :=
  ((if passes then store.unexpired now key
    else (store.unexpired now key).touchKey key).write key act.1, act.2)

end Store

end Credis
