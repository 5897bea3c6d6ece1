import Mathlib.Data.List.AList
import Credis.ByteString

/-! The keyspace. An unordered map is an association list without repeated keys,
so its iteration order is one of those the source leaves open. A pointer into
the map becomes the content read through it, written back under the same key. -/

namespace Credis

open ByteString

abbrev Key := Bytes

abbrev Time := Int

structure Instant where
  steady : Time
  system : Int
  deriving DecidableEq

def timeMax : Time := int64Max

/-- A steady reading plus a duration in milliseconds, in 64-bit nanoseconds. -/
def addMillis (now : Time) (millis : Int) : Time :=
  wrap64 (now + wrap64 (wrap64 millis * 1000000))

structure StreamId where
  timestamp : Int
  sequence : Int
  deriving DecidableEq

namespace StreamId

def lt (left right : StreamId) : Bool :=
  left.timestamp < right.timestamp ||
    (left.timestamp == right.timestamp && left.sequence < right.sequence)

def parse (id : Bytes) : Option StreamId :=
  match id.idxOf? 45 with
  | none => none
  | some dash =>
    match parseInt64 (id.take dash), parseInt64 (id.drop (dash + 1)) with
    | some timestamp, some sequence => some ⟨timestamp, sequence⟩
    | _, _ => none

def toText (id : StreamId) : Bytes := intText id.timestamp ++ 45 :: intText id.sequence

end StreamId

structure StreamEntry where
  id : Bytes
  parsedId : StreamId
  fields : List (Bytes × Bytes)
  deriving DecidableEq

abbrev ScoredMember := Float × Bytes

/-- `operator<` of `std::pair<double, std::string>`: pairs whose scores are
unordered are unordered. -/
def scoredLt (left right : ScoredMember) : Bool :=
  left.1 < right.1 || (left.1 == right.1 && decide (left.2 < right.2))

/-- `entries` is the set in order; an iterator into it is the element it points
to, which its member tells apart from the others. -/
structure SortedSet where
  entries : List ScoredMember
  memberScores : AList fun _ : Bytes => ScoredMember

namespace SortedSet

def empty : SortedSet := ⟨[], ∅⟩

/-- `std::set` insertion: the place is behind the last element not greater than
the new one, and the new one is dropped when that element is not smaller. Also
returned is the element the resulting iterator points to. -/
def insertUnique (entries : List ScoredMember) (item : ScoredMember) :
    List ScoredMember × ScoredMember :=
  let before := entries.takeWhile fun other => !scoredLt item other
  let after := entries.dropWhile fun other => !scoredLt item other
  match before.getLast? with
  | some previous =>
    if scoredLt previous item then (before ++ item :: after, item) else (entries, previous)
  | none => (item :: after, item)

def isAt (position item : ScoredMember) : Bool := item.2 == position.2

def extract (entries : List ScoredMember) (position : ScoredMember) : List ScoredMember :=
  entries.eraseP (isAt position)

def add (set : SortedSet) (score : Float) (member : Bytes) : SortedSet × Int :=
  match set.memberScores.lookup member with
  | some position =>
    let (entries, moved) := insertUnique (extract set.entries position) (score, position.2)
    (⟨entries, set.memberScores.insert member moved⟩, 0)
  | none =>
    let (entries, position) := insertUnique set.entries (score, member)
    -- `emplace` keeps an element that is already there
    if position.2 ∈ set.memberScores then (⟨entries, set.memberScores⟩, 1)
    else (⟨entries, set.memberScores.insert position.2 position⟩, 1)

def remove (set : SortedSet) (member : Bytes) : SortedSet × Int :=
  match set.memberScores.lookup member with
  | none => (set, 0)
  | some position => (⟨extract set.entries position, set.memberScores.erase member⟩, 1)

end SortedSet

inductive Value
  | string (text : Bytes)
  | list (items : List Bytes)
  | stream (entries : List StreamEntry)
  | zset (set : SortedSet)

namespace Value

def string? : Value → Option Bytes
  | .string text => some text
  | _ => none

def list? : Value → Option (List Bytes)
  | .list items => some items
  | _ => none

def stream? : Value → Option (List StreamEntry)
  | .stream entries => some entries
  | _ => none

def zset? : Value → Option SortedSet
  | .zset set => some set
  | _ => none

end Value

structure Entry where
  value : Value
  expiry : Option Time

/-- Versions never exceed the counter they are drawn from. The 64-bit counter
does not wrap within any run, so it is a natural number. -/
structure Store where
  data : AList fun _ : Key => Entry
  versionCounter : Nat
  keyVersions : AList fun _ : Key => Nat
  bounded : ∀ key version, keyVersions.lookup key = some version → version ≤ versionCounter

namespace Store

variable (store : Store) (now : Time) (key : Key)

def empty : Store := ⟨∅, 0, ∅, by simp⟩

theorem insert_bounded {versions : AList fun _ : Key => Nat} {counter : Nat}
    (bounded : ∀ key version, versions.lookup key = some version → version ≤ counter)
    (touched : Key) :
    ∀ key version, (versions.insert touched (counter + 1)).lookup key = some version →
      version ≤ counter + 1 := by
  intro key version found
  by_cases same : key = touched
  · subst same
    simp only [AList.lookup_insert, Option.some.injEq] at found
    omega
  · rw [AList.lookup_insert_ne same] at found
    exact Nat.le_succ_of_le (bounded key version found)

def touchKey : Store where
  data := store.data
  versionCounter := store.versionCounter + 1
  keyVersions := store.keyVersions.insert key (store.versionCounter + 1)
  bounded := insert_bounded store.bounded key

def getKeyVersion : Nat := (store.keyVersions.lookup key).getD 0

def isExpired (entry : Entry) : Bool :=
  match entry.expiry with
  | some expiry => decide (expiry ≤ now)
  | none => false

def put (entry : Entry) : Store :=
  { store with data := store.data.insert key entry }

def eraseKey : Store :=
  { store with data := store.data.erase key }

def findValidEntry : Store × Option Entry :=
  match store.data.lookup key with
  | none => (store, none)
  | some entry =>
    if isExpired now entry then (store.eraseKey key, none) else (store, some entry)

section Typed

variable {α : Type} (view : Value → Option α) (make : α → Value) (fresh : α)

def getTyped (store : Store) (now : Time) (key : Key) : Store × Option α :=
  match store.findValidEntry now key with
  | (store, none) => (store, none)
  | (store, some entry) => (store, view entry.value)

/-- The typed content and the expiry of its entry. A value of another type is
replaced by an empty one and keeps the expiry. -/
def getOrCreateTyped (store : Store) (now : Time) (key : Key) : Store × α × Option Time :=
  match store.findValidEntry now key with
  | (store, none) => (store.put key ⟨make fresh, none⟩, fresh, none)
  | (store, some entry) =>
    match view entry.value with
    | some content => (store, content, entry.expiry)
    | none => (store.put key ⟨make fresh, entry.expiry⟩, fresh, entry.expiry)

end Typed

variable (store : Store) (now : Time) (key : Key) (value : Bytes)

def getList : Store × Option (List Bytes) :=
  store.getTyped Value.list? now key

def getOrCreateList : Store × List Bytes × Option Time :=
  store.getOrCreateTyped Value.list? Value.list [] now key

def getStream : Store × Option (List StreamEntry) :=
  store.getTyped Value.stream? now key

def getOrCreateStream : Store × List StreamEntry × Option Time :=
  store.getOrCreateTyped Value.stream? Value.stream [] now key

def getZset : Store × Option SortedSet :=
  store.getTyped Value.zset? now key

def getOrCreateZset : Store × SortedSet × Option Time :=
  store.getOrCreateTyped Value.zset? Value.zset SortedSet.empty now key

def expiryAfter (ttlMs : Option Nat) : Option Time :=
  ttlMs.map fun (ttl : Nat) => addMillis now ttl

/-! Strings. -/

def set (ttlMs : Option Nat) : Store :=
  (store.touchKey key).put key ⟨.string value, expiryAfter now ttlMs⟩

def setIfValidType (ttlMs : Option Nat) : Store × Bool :=
  match store.data.lookup key with
  | some entry =>
    if isExpired now entry then
      (((store.eraseKey key).touchKey key).put key ⟨.string value, expiryAfter now ttlMs⟩, true)
    else
      match entry.value with
      | .string _ => ((store.touchKey key).put key ⟨.string value, expiryAfter now ttlMs⟩, true)
      | _ => (store, false)
  | none => ((store.touchKey key).put key ⟨.string value, expiryAfter now ttlMs⟩, true)

def get : Store × Option Bytes :=
  store.getTyped Value.string? now key

def incrementable (text : Bytes) : Option Int :=
  (parseInt64 text).filter fun number => decide (number ≠ int64Max)

def incrIfValidType : Store × Option Int :=
  match store.data.lookup key with
  | some entry =>
    if isExpired now entry then
      (((store.eraseKey key).touchKey key).put key ⟨.string (ascii "1"), none⟩, some 1)
    else
      match entry.value with
      | .string text =>
        let store := store.touchKey key
        match incrementable text with
        | none => (store, none)
        | some number =>
          (store.put key ⟨.string (intText (number + 1)), entry.expiry⟩, some (number + 1))
      | _ => (store, none)
  | none => ((store.touchKey key).put key ⟨.string (ascii "1"), none⟩, some 1)

def incr : Store × Option Int :=
  match (store.touchKey key).findValidEntry now key with
  | (store, none) => (store.put key ⟨.string (ascii "1"), none⟩, some 1)
  | (store, some entry) =>
    match entry.value with
    | .string text =>
      match incrementable text with
      | none => (store, none)
      | some number =>
        (store.put key ⟨.string (intText (number + 1)), entry.expiry⟩, some (number + 1))
    | _ => (store, none)

def exists? : Store × Bool :=
  let found := store.findValidEntry now key
  (found.1, found.2.isSome)

def del : Store × Bool :=
  let touched := store.touchKey key
  if key ∈ touched.data then (touched.eraseKey key, true) else (touched, false)

/-! Lists. A push is told from the other by where it puts the value, a pop by
the end it takes from. -/

section Push

variable (place : List Bytes → Bytes → List Bytes)

def pushIfValidType (store : Store) (now : Time) (key : Key) (value : Bytes) : Store × Option Int :=
  match store.data.lookup key with
  | some entry =>
    if isExpired now entry then
      (((store.eraseKey key).touchKey key).put key ⟨.list (place [] value), none⟩, some 1)
    else
      match entry.value with
      | .list items =>
        ((store.touchKey key).put key ⟨.list (place items value), entry.expiry⟩,
          some (place items value).length)
      | _ => (store, none)
  | none => ((store.touchKey key).put key ⟨.list (place [] value), none⟩, some 1)

def push (store : Store) (now : Time) (key : Key) (value : Bytes) : Store × Int :=
  match (store.touchKey key).getOrCreateList now key with
  | (store, items, expiry) =>
    (store.put key ⟨.list (place items value), expiry⟩, (place items value).length)

end Push

variable (take : List Bytes → Option (Bytes × List Bytes)) (store : Store) (now : Time) (key : Key)

def pushBack (items : List Bytes) (value : Bytes) : List Bytes := items ++ [value]

def pushFront (items : List Bytes) (value : Bytes) : List Bytes := value :: items

def rpushIfValidType := pushIfValidType pushBack

def lpushIfValidType := pushIfValidType pushFront

def rpush := push pushBack

def lpush := push pushFront

def llen : Store × Int :=
  match store.getList now key with
  | (store, some items) => (store, items.length)
  | (store, none) => (store, 0)

def popOne : Store × Option Bytes :=
  match (store.touchKey key).findValidEntry now key with
  | (store, some entry) =>
    match entry.value with
    | .list items =>
      match take items with
      | some (value, rest) => (store.put key ⟨.list rest, entry.expiry⟩, some value)
      | none => (store, none)
    | _ => (store, none)
  | (store, none) => (store, none)

def takeMany (take : List Bytes → Option (Bytes × List Bytes)) :
    Nat → List Bytes → List Bytes × List Bytes
  | 0, items => ([], items)
  | count + 1, items =>
    match take items with
    | none => ([], items)
    | some (value, rest) =>
      let (values, left) := takeMany take count rest
      (value :: values, left)

def popMany (count : Int) : Store × List Bytes :=
  match (store.touchKey key).findValidEntry now key with
  | (store, some entry) =>
    match entry.value with
    | .list items =>
      if items = [] ∨ count ≤ 0 then (store, [])
      else
        let (values, left) := takeMany take (min count items.length).toNat items
        (store.put key ⟨.list left, entry.expiry⟩, values)
    | _ => (store, [])
  | (store, none) => (store, [])

def takeFront : List Bytes → Option (Bytes × List Bytes)
  | [] => none
  | value :: rest => some (value, rest)

def takeBack (items : List Bytes) : Option (Bytes × List Bytes) :=
  items.getLast?.map fun value => (value, items.dropLast)

def lpop := popOne takeFront

def lpopCount := popMany takeFront

def rpop := popOne takeBack

def rpopCount := popMany takeBack

def rangePositions (length start stop : Int) : List Nat :=
  let start := max 0 (if start < 0 then length + start else start)
  let stop := max 0 (if stop < 0 then length + stop else stop)
  if length ≤ start ∨ stop < start then []
  else
    let stop := if length ≤ stop then length - 1 else stop
    (List.range (stop - start + 1).toNat).map fun step => start.toNat + step

def lrange (start stop : Int) : Store × List Bytes :=
  match store.getList now key with
  | (store, none) => (store, [])
  | (store, some items) =>
    (store, (rangePositions items.length start stop).map fun index => items.getD index [])

def getType : Store × Bytes :=
  match store.findValidEntry now key with
  | (store, none) => (store, ascii "none")
  | (store, some entry) =>
    match entry.value with
    | .string _ => (store, ascii "string")
    | .list _ => (store, ascii "list")
    | .stream _ => (store, ascii "stream")
    | .zset _ => (store, ascii "zset")

/-! Streams. -/

def invalidId : Bytes := ascii "ERR Invalid stream ID specified"

def zeroId : Bytes := ascii "ERR The ID specified in XADD must be greater than 0-0"

def smallId : Bytes :=
  ascii "ERR The ID specified in XADD is equal or smaller than the target stream top item"

def chooseId (system : Int) (entries : List StreamEntry) (id : Bytes) :
    Except Bytes (StreamId × Bytes) :=
  let last := entries.getLast?.map StreamEntry.parsedId
  if id = ascii "*" then
    let sequence :=
      match last with
      | none => 0
      | some last => if last.timestamp = system then wrap64 (last.sequence + 1) else 0
    .ok (⟨system, sequence⟩, StreamId.toText ⟨system, sequence⟩)
  else if 2 ≤ id.length ∧ id.drop (id.length - 2) = ascii "-*" then
    match id.idxOf? 45 with
    | none => .error invalidId
    | some dash =>
      match parseInt64 (id.take dash) with
      | none => .error invalidId
      | some timestamp =>
        let initial := if timestamp = 0 then 1 else 0
        let sequence :=
          match last with
          | none => initial
          | some last =>
            if last.timestamp = timestamp then wrap64 (last.sequence + 1) else initial
        .ok (⟨timestamp, sequence⟩, StreamId.toText ⟨timestamp, sequence⟩)
  else
    match StreamId.parse id with
    | none => .error invalidId
    | some parsed => .ok (parsed, id)

/-- The stream is created before the ID is checked. -/
def xadd (now : Instant) (key : Key) (id : Bytes) (fields : List (Bytes × Bytes)) : Store × Bytes :=
  match (store.touchKey key).getOrCreateStream now.steady key with
  | (store, entries, expiry) =>
    match chooseId now.system entries id with
    | .error failure => (store, failure)
    | .ok (parsed, text) =>
      if parsed.timestamp = 0 ∧ parsed.sequence = 0 then (store, zeroId)
      else if entries.getLast?.any fun last => !StreamId.lt last.parsedId parsed then
        (store, smallId)
      else
        (store.put key ⟨.stream (entries ++ [⟨text, parsed, fields⟩]), expiry⟩, text)

def xaddIfValidType (now : Instant) (key : Key) (id : Bytes) (fields : List (Bytes × Bytes)) :
    Store × Option Bytes :=
  let accepted : Store × Option Bytes :=
    let added := store.xadd now key id fields
    (added.1, some added.2)
  match store.data.lookup key with
  | some entry =>
    if isExpired now.steady entry then accepted
    else
      match entry.value with
      | .stream _ => accepted
      | _ => (store, none)
  | none => accepted

/-- The bisection shared by `lower_bound` and `upper_bound`: `goesRight` tells
whether the searched place lies behind an entry. Each turn halves `hi - lo`. -/
def bisect (entries : List StreamEntry) (goesRight : StreamId → Bool) : Nat → Nat → Nat → Nat
  | 0, lo, _ => lo
  | fuel + 1, lo, hi =>
    if lo < hi then
      let mid := lo + (hi - lo) / 2
      if goesRight (entries.getD mid ⟨[], ⟨0, 0⟩, []⟩).parsedId then
        bisect entries goesRight fuel (mid + 1) hi
      else bisect entries goesRight fuel lo mid
    else lo

def lowerBound (entries : List StreamEntry) (target : StreamId) : Nat :=
  bisect entries (fun id => StreamId.lt id target) entries.length 0 entries.length

def upperBound (entries : List StreamEntry) (target : StreamId) : Nat :=
  bisect entries (fun id => !StreamId.lt target id) entries.length 0 entries.length

def rangeStart (start : Bytes) : StreamId :=
  if start = ascii "-" then ⟨0, 0⟩
  else if 45 ∉ start then ⟨(parseInt64 start).getD 0, 0⟩
  else (StreamId.parse start).getD ⟨int64Max, int64Max⟩

def rangeEnd (stop : Bytes) : StreamId :=
  if stop = ascii "+" then ⟨int64Max, int64Max⟩
  else if 45 ∉ stop then ⟨(parseInt64 stop).getD 0, int64Max⟩
  else (StreamId.parse stop).getD ⟨-1, -1⟩

def xrange (start stop : Bytes) : Store × List StreamEntry :=
  match store.getStream now key with
  | (store, none) => (store, [])
  | (store, some entries) =>
    let lo := lowerBound entries (rangeStart start)
    let hi := upperBound entries (rangeEnd stop)
    (store, (entries.drop lo).take (hi - lo))

def readThreshold (id : Bytes) : StreamId :=
  if 45 ∉ id then ⟨(parseInt64 id).getD 0, 0⟩
  else (StreamId.parse id).getD ⟨int64Max, int64Max⟩

def xread (id : Bytes) : Store × List StreamEntry :=
  match store.getStream now key with
  | (store, none) => (store, [])
  | (store, some entries) => (store, entries.drop (upperBound entries (readThreshold id)))

def getStreamMaxId : Store × Option Bytes :=
  match store.getStream now key with
  | (store, none) => (store, none)
  | (store, some entries) => (store, entries.getLast?.map StreamEntry.id)

/-! Sorted sets. -/

def zadd (score : Float) (member : Bytes) : Store × Int :=
  match (store.touchKey key).getOrCreateZset now key with
  | (store, set, expiry) =>
    let added := set.add score member
    (store.put key ⟨.zset added.1, expiry⟩, added.2)

def zaddIfValidType (score : Float) (member : Bytes) : Store × Option Int :=
  let created := SortedSet.empty.add score member
  match store.data.lookup key with
  | some entry =>
    if isExpired now entry then
      (((store.eraseKey key).touchKey key).put key ⟨.zset created.1, none⟩, some created.2)
    else
      match entry.value with
      | .zset set =>
        let added := set.add score member
        ((store.touchKey key).put key ⟨.zset added.1, entry.expiry⟩, some added.2)
      | _ => (store, none)
  | none => ((store.touchKey key).put key ⟨.zset created.1, none⟩, some created.2)

def zrank (member : Bytes) : Store × Option Int :=
  match store.getZset now key with
  | (store, none) => (store, none)
  | (store, some set) =>
    (store, (set.memberScores.lookup member).map fun position =>
      set.entries.findIdx (SortedSet.isAt position))

def zrange (start stop : Int) : Store × List Bytes :=
  match store.getZset now key with
  | (store, none) => (store, [])
  | (store, some set) =>
    (store, (rangePositions set.entries.length start stop).map fun index =>
      (set.entries.getD index (0, [])).2)

def zcard : Store × Int :=
  match store.getZset now key with
  | (store, none) => (store, 0)
  | (store, some set) => (store, set.memberScores.keys.length)

def zscore (member : Bytes) : Store × Option Float :=
  match store.getZset now key with
  | (store, none) => (store, none)
  | (store, some set) => (store, (set.memberScores.lookup member).map Prod.fst)

def zrem (member : Bytes) : Store × Int :=
  match (store.touchKey key).findValidEntry now key with
  | (store, some entry) =>
    match entry.value with
    | .zset set =>
      let removed := set.remove member
      (store.put key ⟨.zset removed.1, entry.expiry⟩, removed.2)
    | _ => (store, 0)
  | (store, none) => (store, 0)

def zgetall : Store × List (Bytes × Float) :=
  match store.getZset now key with
  | (store, none) => (store, [])
  | (store, some set) => (store, set.entries.map fun item => (item.2, item.1))

/-! The whole keyspace. -/

def expiredKeys : List Key :=
  store.data.keys.filter fun key => (store.data.lookup key).any (isExpired now)

def keys : Store × List Key :=
  let kept := (store.expiredKeys now).foldl eraseKey store
  (kept, kept.data.keys)

/-- Here a key expires only after its time point, not at it. -/
def keyIsAbsentOrHolds (holds : Value → Bool) (store : Store) (now : Time) (key : Key) : Bool :=
  match store.data.lookup key with
  | none => true
  | some entry =>
    if entry.expiry.any (· < now) then true else holds entry.value

def validEntries : List (Key × Entry) :=
  (store.data.entries.map fun item => (item.1, item.2)).filter fun item =>
    item.2.expiry.all (now < ·)

end Store

end Credis
