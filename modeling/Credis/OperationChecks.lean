import Credis.StoreChecks

/-! The operations of the keyspace as actions on one entry, what each of them may
change, and the keyspaces that a command can leave behind. -/

namespace Credis

open ByteString

variable {take : List Bytes → Option (Bytes × List Bytes)} {before : Store}

variable {key : Key} {operation : Operation} {store after : Store} {passes : Option Entry → Bool}
  {live : Option Entry} {entry : Entry}

namespace Store

section Live

variable {now : Time} {store : Store} {key : Key}

theorem liveEntry_none : store.liveEntry now key = none ↔
    store.data.lookup key = none ∨
      ∃ entry, store.data.lookup key = some entry ∧ isExpired now entry = true := by
  unfold liveEntry
  cases store.data.lookup key with
  | none => simp
  | some entry => cases expired : isExpired now entry <;> simp [expired]

theorem liveEntry_some : store.liveEntry now key = some entry ↔
    store.data.lookup key = some entry ∧ isExpired now entry = false := by
  unfold liveEntry
  rw [Option.filter_eq_some_iff]
  simp

end Live

section Entries

variable (store : Store) (now : Time) (key : Key)

theorem findValidEntry_eq :
    store.findValidEntry now key = (store.unexpired now key, store.liveEntry now key) := by
  unfold unexpired findValidEntry liveEntry
  cases store.data.lookup key with
  | none => rfl
  | some entry =>
    dsimp only
    rw [Option.filter_some]
    cases isExpired now entry <;> rfl

inductive Looked : Prop
  | absent : store.data.lookup key = none → store.liveEntry now key = none →
      store.unexpired now key = store → Looked
  | old (entry : Entry) : store.data.lookup key = some entry → isExpired now entry = true →
      store.liveEntry now key = none → store.unexpired now key = store.eraseKey key → Looked
  | live (entry : Entry) : store.data.lookup key = some entry → isExpired now entry = false →
      store.liveEntry now key = some entry → store.unexpired now key = store → Looked

theorem looked : Looked store now key := by
  cases found : store.data.lookup key with
  | none =>
    exact .absent found (by simp [liveEntry, found]) (by simp [unexpired, findValidEntry, found])
  | some entry =>
    cases expired : isExpired now entry with
    | true =>
      exact .old entry found expired (by simp [liveEntry, found, expired])
        (by simp [unexpired, findValidEntry, found, expired])
    | false =>
      exact .live entry found expired (by simp [liveEntry, found, expired])
        (by simp [unexpired, findValidEntry, found, expired])

theorem unexpired_reads : Reads now store (store.unexpired now key) := by
  cases store.looked now key with
  | absent _ _ kept | live _ _ _ _ kept =>
    rw [kept]
    exact .refl
  | old entry found expired _ dropped =>
    rw [dropped]
    exact Reads.refl.drop found expired

theorem unexpired_lookup_ne {other : Key} (different : other ≠ key) :
    (store.unexpired now key).data.lookup other = store.data.lookup other := by
  cases store.looked now key with
  | absent _ _ kept | live _ _ _ _ kept => rw [kept]
  | old _ _ _ _ dropped => rw [dropped, eraseKey_lookup_ne store different]

theorem unexpired_touchKey :
    (store.touchKey key).unexpired now key = (store.unexpired now key).touchKey key := by
  unfold unexpired findValidEntry
  rw [touchKey_data]
  split
  · rfl
  · split <;> rfl

variable {α : Type}

theorem expiryOf_live (value : Value) :
    isExpired now ⟨value, expiryOf (store.liveEntry now key)⟩ = false := by
  cases store.looked now key with
  | absent _ live | old _ _ _ live => rw [live]; rfl
  | live entry _ ready live =>
    rw [live]
    exact ready

theorem put_put (first second : Entry) :
    (store.put key first).put key second = store.put key second := by
  unfold put
  congr 1
  exact AList.insert_insert _

theorem put_unexpired (entry : Entry) :
    ((store.unexpired now key).touchKey key).put key entry =
      (store.touchKey key).put key entry := by
  cases store.looked now key with
  | absent _ _ kept | live _ _ _ _ kept => rw [kept]
  | old _ _ _ _ dropped =>
    have erased : (store.data.erase key).insert key entry = store.data.insert key entry := by
      refine AList.ext ?_
      rw [AList.entries_insert, AList.entries_insert]
      exact congrArg _ (List.kerase_of_notMem_keys
        (List.notMem_keys_kerase key store.data.nodupKeys))
    rw [dropped]
    unfold put eraseKey touchKey
    congr 1

end Entries

section Lookups

variable (store : Store) (now : Time) (key : Key)

theorem getTyped_eq (view : Value → Option α) :
    store.getTyped view now key =
      (store.unexpired now key, content view (store.liveEntry now key)) := by
  rw [getTyped, findValidEntry_eq]
  cases store.liveEntry now key <;> rfl

theorem getTyped_value (view : Value → Option α) :
    (store.getTyped view now key).2 = (store.liveValue now key).bind view :=
  congrArg Prod.snd (getTyped_eq store now key view)

theorem findValidEntry_touchKey : (store.touchKey key).findValidEntry now key =
    ((store.unexpired now key).touchKey key, store.liveEntry now key) := by
  rw [findValidEntry_eq, unexpired_touchKey]
  rfl

theorem getOrCreateTyped_touchKey (view : Value → Option α) (make : α → Value) (fresh : α) :
    (store.touchKey key).getOrCreateTyped view make fresh now key =
      (((store.unexpired now key).touchKey key).write key
        (if (content view (store.liveEntry now key)).isSome then none
          else some ⟨make fresh, expiryOf (store.liveEntry now key)⟩),
        (content view (store.liveEntry now key)).getD fresh,
        expiryOf (store.liveEntry now key)) := by
  rw [getOrCreateTyped, findValidEntry_touchKey]
  cases store.liveEntry now key with
  | none => rfl
  | some entry => cases viewed : view entry.value <;> simp [content, expiryOf, viewed, write]

end Lookups

/-- The function does this to the live entry under the key, behind a call of `touch_key`
unless it passes the key by. -/
def Acts (now : Time) (key : Key) (passes : Option Entry → Bool) (act : Option Entry → Act α)
    (run : Store → Store × α) : Prop :=
  ∀ store, run store =
    store.actOn now key (passes (store.liveEntry now key)) (act (store.liveEntry now key))

theorem Acts.returning {now : Time} {act : Option Entry → Act α} {run : Store → Store × α}
    (acts : Acts now key passes act run) (wrap : α → Returned) :
    Acts now key passes (fun live => Operation.named wrap (act live))
      fun store => Operation.returning wrap (run store) := by
  intro store
  dsimp only
  rw [acts store]
  rfl

theorem Acts.data {now : Time} {act : Option Entry → Act α} {run : Store → Store × α}
    (acts : Acts now key passes act run) {left right : Store} (same : left.data = right.data) :
    (run left).2 = (run right).2 ∧ (run left).1.data = (run right).1.data := by
  have live : left.liveEntry now key = right.liveEntry now key := by rw [liveEntry, same, liveEntry]
  have kept : (left.unexpired now key).data = (right.unexpired now key).data := by
    unfold unexpired findValidEntry
    rw [same]
    split
    · exact same
    · split
      · simp [eraseKey, same]
      · exact same
  rw [acts left, acts right, live]
  unfold actOn write
  split <;> split <;> simp [put, kept]

section Guarded

variable {α β γ : Type} {now : Time} {key : Key} {view : Value → Option α} {failure : γ}
  {success : β → γ} {act : Option Entry → Act β} {run : Store → Store × γ} {store : Store}
  (acts : Acts now key (isOther view) (guardedAct view failure success act) run)
include acts

theorem Acts.other (other : holdsOther view store now key = true) :
    run store = (store, failure) := by
  rw [holdsOther] at other
  rw [acts store, actOn, guardedAct, if_pos other, if_pos other]
  cases store.looked now key with
  | absent _ live | old _ _ _ live =>
    rw [live] at other
    cases other
  | live _ _ _ _ kept => rw [kept, write]

theorem Acts.free (free : holdsOther view store now key = false) :
    run store = (((store.unexpired now key).touchKey key).write key
      (act (store.liveEntry now key)).1, success (act (store.liveEntry now key)).2) := by
  rw [holdsOther] at free
  rw [acts store, actOn, guardedAct, free]
  rfl

theorem Acts.refused (failed : ∀ result, (run store).2 = success result → False) :
    holdsOther view store now key = true := by
  by_contra free
  exact failed _ (congrArg Prod.snd (acts.free (by simpa using free)))

theorem Acts.failed (different : ∀ result, success result ≠ failure)
    (failed : run store = (after, failure)) : after = store := by
  have other := acts.refused fun result same => different result (same.symm.trans (by rw [failed]))
  rw [acts.other other] at failed
  cases failed
  rfl

end Guarded

section Writes

variable (now : Time) (key : Key)

variable (place : List Bytes → Bytes → List Bytes) (value : Bytes)

theorem set_acts (ttlMs : Option Nat) :
    Acts now key (fun _ => false) (setAct value (expiryAfter now ttlMs))
      fun store => (store.set now key value ttlMs, ()) :=
  fun store => congrArg (·, ()) (put_unexpired store now key _).symm

theorem incr_acts : Acts now key (fun _ => false) incrAct fun store => store.incr now key := by
  intro store
  dsimp only
  rw [incr, findValidEntry_touchKey]
  cases store.liveEntry now key with
  | none => rfl
  | some entry =>
    cases value : entry.value with
    | string text =>
      cases number : incrementable text <;>
        simp [actOn, value, Value.string?, write, incrAct, number]
    | list _ | stream _ | zset _ => simp [actOn, value, Value.string?, write, incrAct]

theorem push_acts :
    Acts now key (fun _ => false) (pushAct place value)
      fun store => push place store now key value := by
  intro store
  dsimp only
  rw [push, getOrCreateList, getOrCreateTyped_touchKey]
  dsimp only
  split
  · rfl
  · simp only [write, put_put]
    rfl

theorem popOne_acts (take : List Bytes → Option (Bytes × List Bytes)) :
    Acts now key (fun _ => false) (popAct take) fun store => popOne take store now key := by
  intro store
  dsimp only
  rw [popOne, findValidEntry_touchKey]
  cases store.liveEntry now key with
  | none => rfl
  | some entry =>
    cases value : entry.value with
    | list items =>
      cases taken : take items <;>
        simp [actOn, value, Value.list?, write, popAct, content, expiryOf, taken]
    | string _ | stream _ | zset _ =>
      simp [actOn, value, Value.list?, write, popAct, content]

theorem popMany_acts (take : List Bytes → Option (Bytes × List Bytes)) (count : Int) :
    Acts now key (fun _ => false) (popManyAct take count)
      fun store => popMany take store now key count := by
  intro store
  dsimp only
  rw [popMany, findValidEntry_touchKey]
  cases store.liveEntry now key with
  | none => rfl
  | some entry =>
    cases value : entry.value with
    | list items =>
      by_cases vacant : items = [] ∨ count ≤ 0 <;>
        simp [actOn, value, Value.list?, write, popManyAct, content, expiryOf, vacant]
    | string _ | stream _ | zset _ =>
      simp [actOn, value, Value.list?, write, popManyAct, content]

theorem zadd_acts (score : Float) (member : Bytes) :
    Acts now key (fun _ => false) (zaddAct score member)
      fun store => store.zadd now key score member := by
  intro store
  dsimp only
  rw [zadd, getOrCreateZset, getOrCreateTyped_touchKey]
  dsimp only
  split
  · rfl
  · simp only [write, put_put]
    rfl

theorem zrem_acts (member : Bytes) :
    Acts now key (fun _ => false) (zremAct member) fun store => store.zrem now key member := by
  intro store
  dsimp only
  rw [zrem, findValidEntry_touchKey]
  cases store.liveEntry now key with
  | none => rfl
  | some entry =>
    cases value : entry.value <;>
      simp [actOn, value, Value.zset?, write, zremAct, content, expiryOf]

theorem guardedAct_incr : guardedAct Value.string? none id incrAct = incrAct := by
  funext live
  unfold guardedAct
  split
  · rename_i other
    cases live with
    | none => cases other
    | some entry =>
      unfold incrAct
      cases value : entry.value with
      | string text => simp [isOther, value, Value.string?] at other
      | list _ | stream _ | zset _ => simp [value, Value.string?]
  · rfl

theorem incrIfValidType_acts : Acts now key (isOther Value.string?) incrAct
    fun store => store.incrIfValidType now key := by
  intro store
  cases store.looked now key with
  | absent | old => simp [incrIfValidType, actOn, isOther, write, incrAct, *]
  | live entry found ready live kept =>
    simp only [incrIfValidType, actOn, found, ready, live, kept]
    cases value : entry.value with
    | string text =>
      cases number : incrementable text <;>
        simp [isOther, value, Value.string?, write, incrAct, number]
    | list _ | stream _ | zset _ => simp [isOther, value, Value.string?, write, incrAct]

theorem setIfValidType_acts (ttlMs : Option Nat) :
    Acts now key (isOther Value.string?)
      (guardedAct Value.string? false (fun _ => true) (setAct value (expiryAfter now ttlMs)))
      fun store => store.setIfValidType now key value ttlMs := by
  intro store
  cases store.looked now key with
  | absent | old => simp [setIfValidType, actOn, isOther, write, guardedAct, setAct, *]
  | live entry found ready live kept =>
    simp only [setIfValidType, actOn, found, ready, live, kept]
    cases value : entry.value <;>
      simp [isOther, value, Value.string?, write, guardedAct, setAct]

theorem pushIfValidType_acts (single : (place [] value).length = 1) :
    Acts now key (isOther Value.list?) (guardedAct Value.list? none some (pushAct place value))
      fun store => pushIfValidType place store now key value := by
  intro store
  cases store.looked now key with
  | absent | old =>
    simp [pushIfValidType, actOn, isOther, write, guardedAct, pushAct, content, expiryOf, *]
  | live entry found ready live kept =>
    simp only [pushIfValidType, actOn, found, ready, live, kept]
    cases value : entry.value <;>
      simp [isOther, value, Value.list?, write, guardedAct, pushAct, content, expiryOf]

theorem zaddIfValidType_acts (score : Float) (member : Bytes) :
    Acts now key (isOther Value.zset?) (guardedAct Value.zset? none some (zaddAct score member))
      fun store => store.zaddIfValidType now key score member := by
  intro store
  cases store.looked now key with
  | absent | old =>
    simp [zaddIfValidType, actOn, isOther, write, guardedAct, zaddAct, content, expiryOf, *]
  | live entry found ready live kept =>
    simp only [zaddIfValidType, actOn, found, ready, live, kept]
    cases value : entry.value <;>
      simp [isOther, value, Value.zset?, write, guardedAct, zaddAct, content, expiryOf]

end Writes

/-- The fast path gives up on a value of another type, and otherwise ends where the plain
operation ends: with its result, the same entries and the same versions. -/
def ChecksThenActs {β γ : Type} (view : Value → Option α) (failure : γ) (success : β → γ)
    (now : Time) (key : Key) (fast : Store → Store × γ) (plain : Store → Store × β) : Prop :=
  ∀ store, if holdsOther view store now key then fast store = (store, failure)
    else fast store = ((plain store).1, success (plain store).2)

theorem Acts.checksThenActs {β γ : Type} {now : Time} {view : Value → Option α} {failure : γ}
    {success : β → γ} {act : Option Entry → Act β} {fast : Store → Store × γ}
    {plain : Store → Store × β}
    (guarded : Acts now key (isOther view) (guardedAct view failure success act) fast)
    (acts : Acts now key (fun _ => false) act plain) :
    ChecksThenActs view failure success now key fast plain := by
  intro store
  split
  · rename_i other
    exact guarded.other other
  · rename_i free
    rw [guarded.free (by simpa using free), acts store]
    rfl

theorem fast_paths_check_then_act (now : Time) (key : Key) :
    (∀ value ttlMs, ChecksThenActs Value.string? false (fun _ => true) now key
      (fun store => store.setIfValidType now key value ttlMs)
      fun store => (store.set now key value ttlMs, ())) ∧
    ChecksThenActs Value.string? none id now key (fun store => store.incrIfValidType now key)
      (fun store => store.incr now key) ∧
    (∀ value, ChecksThenActs Value.list? none some now key
      (fun store => store.rpushIfValidType now key value)
      fun store => store.rpush now key value) ∧
    (∀ value, ChecksThenActs Value.list? none some now key
      (fun store => store.lpushIfValidType now key value)
      fun store => store.lpush now key value) ∧
    ∀ score member, ChecksThenActs Value.zset? none some now key
      (fun store => store.zaddIfValidType now key score member)
      fun store => store.zadd now key score member := by
  have incr : Acts now key (isOther Value.string?) (guardedAct Value.string? none id incrAct)
      fun store => store.incrIfValidType now key := by
    rw [guardedAct_incr]
    exact incrIfValidType_acts now key
  refine ⟨fun value ttlMs => ?_, incr.checksThenActs (incr_acts now key), fun value => ?_,
    fun value => ?_, fun score member => ?_⟩
  · exact (setIfValidType_acts now key value ttlMs).checksThenActs (set_acts now key value ttlMs)
  · exact (pushIfValidType_acts now key pushBack value rfl).checksThenActs
      (push_acts now key pushBack value)
  · exact (pushIfValidType_acts now key pushFront value rfl).checksThenActs
      (push_acts now key pushFront value)
  · exact (zaddIfValidType_acts now key score member).checksThenActs
      (zadd_acts now key score member)

section Streams

variable (now : Instant) (key : Key) (id : Bytes) (fields : List (Bytes × Bytes))

theorem xadd_acts : Acts now.steady key (fun _ => false) (xaddAct now.system id fields)
    fun store => store.xadd now key id fields := by
  intro store
  dsimp only
  rw [xadd, getOrCreateStream, getOrCreateTyped_touchKey]
  unfold xaddAct settleId
  dsimp only
  generalize content Value.stream? (store.liveEntry now.steady key) = entries
  cases chooseId now.system (entries.getD []) id with
  | error failure => rfl
  | ok choice =>
    dsimp only
    split
    · rfl
    split
    · rfl
    · cases entries with
      | some entries => rfl
      | none => exact congrArg (·, _) (put_put _ _ _ _)

theorem xaddIfValidType_acts : Acts now.steady key (isOther Value.stream?)
    (guardedAct Value.stream? none some (xaddAct now.system id fields))
    fun store => store.xaddIfValidType now key id fields := by
  intro store
  have added := xadd_acts now key id fields store
  dsimp only at added
  cases store.looked now.steady key with
  | absent | old => simp [xaddIfValidType, actOn, isOther, guardedAct, *]
  | live entry found ready live kept =>
    simp only [xaddIfValidType, added, actOn, found, ready, live]
    cases value : entry.value <;> simp [isOther, value, Value.stream?, guardedAct, write, kept]

end Streams

namespace Operation

theorem key_of_onEntry (operation : Operation) (works : operation.onEntry = true) :
    ∃ key, operation.key? = some key := by
  cases operation <;> first | exact ⟨_, rfl⟩ | cases works

theorem touchlessOn_eq (store : Store) (now : Time) (keyed : operation.key? = some key) :
    operation.touchlessOn store now = operation.touchless (store.liveEntry now key) := by
  rw [touchlessOn, keyed, Option.bind_some]

theorem call_acts (now : Instant) {operation : Operation} {key : Key}
    (keyed : operation.key? = some key) (works : operation.onEntry = true) :
    Acts now.steady key (fun live => operation.touchless live) (fun live => operation.acts now live)
      fun store => operation.call store now := by
  cases operation <;> cases keyed <;> try cases works
  case set value ttlMs => exact (set_acts now.steady key value ttlMs).returning fun _ => .nothing
  case setIfValidType => exact (setIfValidType_acts now.steady key _ _).returning .flag
  case incrIfValidType => exact (incrIfValidType_acts now.steady key).returning .number?
  case rpushIfValidType =>
    exact (pushIfValidType_acts now.steady key pushBack _ rfl).returning .number?
  case lpushIfValidType =>
    exact (pushIfValidType_acts now.steady key pushFront _ rfl).returning .number?
  case zaddIfValidType => exact (zaddIfValidType_acts now.steady key _ _).returning .number?
  case xaddIfValidType => exact (xaddIfValidType_acts now key _ _).returning .text?
  case rpush => exact (push_acts now.steady key pushBack _).returning .number
  case lpush => exact (push_acts now.steady key pushFront _).returning .number
  case incr => exact (incr_acts now.steady key).returning .number?
  case lpop => exact (popOne_acts now.steady key takeFront).returning .text?
  case rpop => exact (popOne_acts now.steady key takeBack).returning .text?
  case lpopCount => exact (popMany_acts now.steady key takeFront _).returning .texts
  case rpopCount => exact (popMany_acts now.steady key takeBack _).returning .texts
  case xadd => exact (xadd_acts now key _ _).returning .text
  case zadd => exact (zadd_acts now.steady key _ _).returning .number
  case zrem => exact (zrem_acts now.steady key _).returning .number
  all_goals
    intro store
    simp only [call, Store.get, Store.exists?, Store.getType, Store.llen, Store.lrange,
      Store.xrange, Store.xread, Store.getStreamMaxId, Store.zrank, Store.zrange, Store.zcard,
      Store.zscore, Store.zgetall, getList, getStream, getZset, getTyped_eq,
      findValidEntry_eq, acts]
  case exists? | get => rfl
  case getType =>
    cases store.liveEntry now.steady key with
    | none => rfl
    | some entry => cases value : entry.value <;> simp [value] <;> rfl
  all_goals
    generalize content _ _ = found
    cases found <;> rfl

end Operation

inductive Effect (now : Time) (operation : Operation) (before : Store) : Store → Prop
  | reads {after : Store} : operation.touchlessOn before now = true → Reads now before after →
      Effect now operation before after
  | touches {after : Store} {key : Key} : operation.touchlessOn before now = false →
      operation.key? = some key → Touches key before after → Effect now operation before after

theorem write_touches (touches : Touches key before after) (written : Option Entry) :
    Touches key before (after.write key written) := by
  cases written with
  | none => exact touches
  | some entry => exact touches.put entry

theorem unexpired_touches (store : Store) (now : Time) (key : Key) :
    Touches key store ((store.unexpired now key).touchKey key) := by
  cases store.looked now key with
  | absent _ _ kept | live _ _ _ _ kept =>
    rw [kept]
    exact touchKey_touches store key
  | old _ _ _ _ dropped =>
    rw [dropped]
    exact (touchKey_touches store key).eraseKey

theorem Operation.acts_touchless {now : Instant} (passes : operation.touchless live = true) :
    (operation.acts now live).1 = none := by
  have refused : ∀ {α β γ : Type} {view : Value → Option α} (failure : γ) (success : β → γ)
      (act : Option Entry → Act β) (wrap : γ → Returned), isOther view live = true →
      (named wrap (guardedAct view failure success act live)).1 = none := by
    intro α β γ view failure success act wrap other
    rw [guardedAct, if_pos other]
    rfl
  cases operation <;> first | rfl | cases passes | exact refused _ _ _ _ passes | skip
  rw [acts, named, ← guardedAct_incr]
  exact refused _ _ _ _ passes

theorem call_effect (store : Store) (now : Instant) (operation : Operation) :
    Effect now.steady operation store (operation.call store now).1 := by
  cases works : operation.onEntry with
  | true =>
    obtain ⟨key, keyed⟩ := operation.key_of_onEntry works
    have same := operation.touchlessOn_eq store now.steady keyed
    have done := Operation.call_acts now keyed works store
    dsimp only at done
    cases passes : operation.touchless (store.liveEntry now.steady key) with
    | true =>
      rw [done, actOn, Operation.acts_touchless passes, passes]
      exact .reads (same.trans passes) (unexpired_reads store now.steady key)
    | false =>
      rw [done, passes]
      exact .touches (same.trans passes) keyed
        (write_touches (unexpired_touches store _ key) _)
  | false =>
    cases operation with
    | del key =>
      refine .touches rfl rfl ?_
      unfold Operation.call Operation.returning Store.del
      dsimp only
      split
      · exact (touchKey_touches store key).eraseKey
      · exact touchKey_touches store key
    | keys => exact .reads rfl (Reads.keys store)
    | keyIsAbsentOrHolds _ _ | getKeyVersion _ | forEachValidEntry => exact .reads rfl .refl
    | _ => cases works

theorem Operation.reads (operation : Operation) {now : Time}
    (passes : operation.touchlessOn store now = true) :
    Reads now store (operation.call store ⟨now, 0⟩).1 := by
  have effect := call_effect store ⟨now, 0⟩ operation
  cases effect with
  | reads _ reads => exact reads
  | touches touched =>
    rw [passes] at touched
    cases touched

theorem Operation.reads_of_touchless (operation : Operation) {store : Store} {now : Instant}
    (passes : operation.touchless none = true) :
    Reads now.steady store (operation.call store now).1 := by
  have passing : operation.touchlessOn store now.steady = true := by
    cases operation <;> first | rfl | cases passes
  cases call_effect store now operation with
  | reads _ reads => exact reads
  | touches touched =>
    rw [passing] at touched
    cases touched

theorem settleId_ok {system : Int} {entries : List StreamEntry} {id text : Bytes}
    {parsed : StreamId} : settleId system entries id = .ok (parsed, text) ↔
    chooseId system entries id = .ok (parsed, text) ∧
      ¬ (parsed.timestamp = 0 ∧ parsed.sequence = 0) ∧
      (entries.getLast?.any fun last => !StreamId.lt last.parsedId parsed) = false := by
  unfold settleId
  cases chosen : chooseId system entries id with
  | error failure => simp
  | ok choice =>
    obtain ⟨other, spelled⟩ := choice
    dsimp only
    constructor
    · intro settled
      split at settled
      · cases settled
      rename_i nonzero
      split at settled
      · cases settled
      · rename_i greater
        cases settled
        exact ⟨rfl, nonzero, by simpa using greater⟩
    · rintro ⟨same, nonzero, greater⟩
      cases same
      rw [if_neg nonzero, greater, if_neg (by simp)]

def Shortens (take : List Bytes → Option (Bytes × List Bytes)) : Prop :=
  ∀ items value rest, take items = some (value, rest) → rest.length ≤ items.length

theorem takeFront_shortens : Shortens takeFront := by
  intro items value rest taken
  cases items with
  | nil => cases taken
  | cons first items =>
    cases taken
    exact Nat.le_succ _

theorem takeBack_shortens : Shortens takeBack := by
  intro items value rest taken
  unfold takeBack at taken
  obtain ⟨last, -, same⟩ := Option.map_eq_some_iff.mp taken
  cases same
  rw [List.length_dropLast]
  exact Nat.sub_le _ _

theorem takeMany_length (shortens : Shortens take) (count : Nat) (items : List Bytes) :
    (takeMany take count items).2.length ≤ items.length := by
  induction count generalizing items with
  | zero => exact Nat.le_refl _
  | succ count ih =>
    unfold takeMany
    split
    · exact Nat.le_refl _
    · rename_i value rest taken
      exact (ih rest).trans (shortens items value rest taken)

/-- What an operation can write where it has found this live entry. -/
inductive Written (now : Instant) (live : Option Entry) (operation : Operation) : Entry → Prop
  | set (key : Key) (text : Bytes) (ttlMs : Option Nat) :
      operation = .set key text ttlMs ∨ operation = .setIfValidType key text ttlMs →
      Written now live operation ⟨.string text, expiryAfter now.steady ttlMs⟩
  | incr (key : Key) (text : Bytes) : operation = .incr key ∨ operation = .incrIfValidType key →
      Written now live operation ⟨.string text, expiryOf live⟩
  | push (items : List Bytes) : operation.pushes = true → items ≠ [] →
      Written now live operation ⟨.list items, expiryOf live⟩
  | pop (items rest : List Bytes) : operation.pops = true →
      content Value.list? live = some items → rest.length ≤ items.length →
      Written now live operation ⟨.list rest, expiryOf live⟩
  | add (key : Key) (score : Float) (member : Bytes) :
      operation = .zadd key score member ∨ operation = .zaddIfValidType key score member →
      Written now live operation
        ⟨.zset (((content Value.zset? live).getD .empty).add score member).1, expiryOf live⟩
  | remove (key : Key) (set : SortedSet) (member : Bytes) : operation = .zrem key member →
      content Value.zset? live = some set →
      Written now live operation ⟨.zset (set.remove member).1, expiryOf live⟩
  | opened (key : Key) (id : Bytes) (fields : List (Bytes × Bytes)) :
      operation = .xadd key id fields ∨ operation = .xaddIfValidType key id fields →
      Written now live operation ⟨.stream [], expiryOf live⟩
  | append (key : Key) (id : Bytes) (fields : List (Bytes × Bytes)) (parsed : StreamId)
      (text : Bytes) :
      operation = .xadd key id fields ∨ operation = .xaddIfValidType key id fields →
      settleId now.system ((content Value.stream? live).getD []) id = .ok (parsed, text) →
      Written now live operation
        ⟨.stream ((content Value.stream? live).getD [] ++ [⟨text, parsed, fields⟩]), expiryOf live⟩

theorem guardedAct_written {β γ : Type} {view : Value → Option α} {failure : γ} {success : β → γ}
    {act : Option Entry → Act β}
    (written : (guardedAct view failure success act live).1 = some entry) :
    (act live).1 = some entry := by
  unfold guardedAct at written
  split at written
  · cases written
  · exact written

section Written

variable {now : Instant} {live : Option Entry} {operation : Operation} {entry : Entry}

theorem Written.incrAct (called : operation = .incr key ∨ operation = .incrIfValidType key)
    (written : (incrAct live).1 = some entry) : Written now live operation entry := by
  unfold Store.incrAct at written
  split at written
  · cases written
    exact .incr key _ called
  split at written
  · cases written
  · cases written
    exact .incr key _ called

theorem Written.popAct (shortens : Shortens take) (pops : operation.pops = true)
    (written : (popAct take live).1 = some entry) : Written now live operation entry := by
  unfold Store.popAct at written
  split at written
  · cases written
  rename_i value rest taken
  cases written
  obtain ⟨items, found, taken⟩ := Option.bind_eq_some_iff.mp taken
  exact .pop items rest pops found (shortens items value rest taken)

theorem Written.popManyAct {count : Int} (shortens : Shortens take) (pops : operation.pops = true)
    (written : (popManyAct take count live).1 = some entry) : Written now live operation entry := by
  unfold Store.popManyAct at written
  split at written
  · cases written
  rename_i items found
  split at written
  · cases written
  · cases written
    exact .pop items _ pops found (takeMany_length shortens _ items)

theorem Written.xaddAct {id : Bytes} {fields : List (Bytes × Bytes)}
    (called : operation = .xadd key id fields ∨ operation = .xaddIfValidType key id fields)
    (written : (xaddAct now.system id fields live).1 = some entry) :
    Written now live operation entry := by
  unfold Store.xaddAct at written
  dsimp only at written
  split at written
  · split at written
    · cases written
    · cases written
      exact .opened key id fields called
  · rename_i parsed text settled
    cases written
    exact .append key id fields parsed text called settled

theorem Operation.written (written : (operation.acts now live).1 = some entry) :
    Written now live operation entry := by
  cases operation <;> try cases written
  case set key text ttlMs => exact .set key text ttlMs (.inl rfl)
  case setIfValidType key text ttlMs =>
    simp only [acts, named] at written
    cases guardedAct_written written
    exact .set key text ttlMs (.inr rfl)
  case incrIfValidType key => exact .incrAct (.inr (Eq.refl (incrIfValidType key))) written
  case incr key => exact .incrAct (.inl (Eq.refl (incr key))) written
  case rpushIfValidType | lpushIfValidType =>
    simp only [acts, named] at written
    cases guardedAct_written written
    exact .push _ rfl (by simp [pushBack, pushFront])
  case rpush | lpush => exact .push _ rfl (by simp [pushBack, pushFront])
  case zaddIfValidType key score member =>
    simp only [acts, named] at written
    cases guardedAct_written written
    exact .add key score member (.inr rfl)
  case zadd key score member => exact .add key score member (.inl rfl)
  case xaddIfValidType key id fields =>
    simp only [acts, named] at written
    exact .xaddAct (.inr (Eq.refl (xaddIfValidType key id fields))) (guardedAct_written written)
  case xadd key id fields => exact .xaddAct (.inl (Eq.refl (xadd key id fields))) written
  case lpop => exact .popAct takeFront_shortens rfl written
  case rpop => exact .popAct takeBack_shortens rfl written
  case lpopCount => exact .popManyAct takeFront_shortens rfl written
  case rpopCount => exact .popManyAct takeBack_shortens rfl written
  case zrem key member =>
    change (zremAct member live).1 = some entry at written
    unfold zremAct at written
    split at written
    · cases written
    · rename_i set found
      cases written
      exact .remove key set member rfl found

end Written

section Effects

variable {now moment : Time} {operation : Operation} {before after : Store}

theorem Effect.evolves (effect : Effect now operation before after) (later : now ≤ moment) :
    Evolves moment before after := by
  cases effect with
  | reads _ reads => exact .ofReads (reads.later later)
  | touches _ _ touches => exact .ofTouches touches

theorem Effect.version_eq_of_ne (effect : Effect now operation before after)
    (other : operation.key? ≠ some key) : after.getKeyVersion key = before.getKeyVersion key := by
  cases effect with
  | reads _ reads => exact reads.getKeyVersion key
  | touches _ named touches =>
    refine touches.getKeyVersion_ne ?_
    rintro rfl
    exact other named

theorem Effect.version_eq_iff (effect : Effect now operation before after)
    (own : operation.key? = some key) :
    after.getKeyVersion key = before.getKeyVersion key ↔
      operation.touchlessOn before now = true := by
  cases effect with
  | reads passes reads => simp [passes, reads.getKeyVersion]
  | touches touched named touches =>
    rw [Option.some.inj (named.symm.trans own)] at touches
    have bound := getKeyVersion_le before key
    rw [touches.getKeyVersion, touched]
    refine ⟨fun same => ?_, nofun⟩
    omega

end Effects

section Reads

variable (store : Store) (now : Time) (key : Key)

theorem xread_reads (id : Bytes) : Reads now store (store.xread now key id).1 :=
  (Operation.xread key id).reads rfl

end Reads

def KeepsForever (act : Option Entry → Act α) : Prop :=
  ∀ live entry, expiryOf live = none → (act live).1 = some entry → entry.expiry = none

theorem NoExpiry.unexpired (steady : store.NoExpiry) (now : Time) (key : Key) :
    store.unexpired now key = store := congrArg Prod.fst (steady.findValidEntry now key)

theorem NoExpiry.liveEntry (steady : store.NoExpiry) (now : Time) (key : Key) :
    store.liveEntry now key = store.data.lookup key := by
  have found := steady.findValidEntry now key
  rw [findValidEntry_eq] at found
  exact congrArg Prod.snd found

theorem NoExpiry.write (steady : store.NoExpiry) (key : Key) {written : Option Entry}
    (forever : ∀ entry, written = some entry → entry.expiry = none) :
    (store.write key written).NoExpiry := by
  cases written with
  | none => exact steady
  | some entry =>
    obtain ⟨value, expiry⟩ := entry
    obtain rfl : expiry = none := forever _ rfl
    exact steady.put key value

theorem Acts.steady {τ : Type} {store : Store} {key : Key} (steady : store.NoExpiry)
    {time : τ → Time} {passes : Option Entry → Bool} {act : Option Entry → Act α}
    {run : τ → Store → Store × α} (acts : ∀ now, Acts (time now) key passes act (run now))
    (keeps : KeepsForever act) : Steady fun now => run now store := by
  have same : ∀ now, run now store = store.actOn 0 key (passes (store.data.lookup key))
      (act (store.data.lookup key)) := by
    intro now
    rw [acts now store, actOn, actOn, steady.liveEntry, steady.unexpired, steady.unexpired]
  refine ⟨fun now later => (same now).trans (same later).symm, fun now => ?_⟩
  have forever : expiryOf (store.data.lookup key) = none := by
    cases found : store.data.lookup key with
    | none => rfl
    | some entry => exact steady key entry found
  simp only [same, actOn, steady.unexpired]
  refine NoExpiry.write ?_ key fun entry => keeps _ entry forever
  split
  · exact steady
  · exact steady.touchKey key

namespace Operation

def timeless : Operation → Bool
  | .set _ _ ttlMs | .setIfValidType _ _ ttlMs => ttlMs.isNone
  | .xadd _ id _ | .xaddIfValidType _ id _ => id ≠ ascii "*"
  | .del _ | .keys | .forEachValidEntry => false
  | _ => true

theorem acts_timeless (timeless : operation.timeless = true) (now later : Instant)
    (live : Option Entry) : operation.acts now live = operation.acts later live := by
  cases operation with
  | set key value ttlMs | setIfValidType key value ttlMs =>
    obtain rfl : ttlMs = none := by simpa [Operation.timeless] using timeless
    rfl
  | xadd key id fields | xaddIfValidType key id fields =>
    have explicit : id ≠ ascii "*" := by simpa [Operation.timeless] using timeless
    have same : ∀ system, xaddAct system id fields = xaddAct 0 id fields := by
      intro system
      funext live
      simp only [xaddAct, settleId, chooseId, if_neg explicit]
    simp only [acts, same now.system, same later.system]
  | _ => rfl

theorem acts_keeps (timeless : operation.timeless = true) (now : Instant) :
    KeepsForever fun live => operation.acts now live := by
  intro live entry forever written
  cases operation.written written with
  | set key text ttlMs called =>
    obtain rfl : ttlMs = none := by
      rcases called with rfl | rfl <;> simpa [Operation.timeless] using timeless
    rfl
  | incr | push | pop | add | remove | opened | append => exact forever

theorem call_steady (timeless : operation.timeless = true) (steady : store.NoExpiry) :
    Steady fun now => operation.call store now := by
  cases works : operation.onEntry with
  | true =>
    obtain ⟨key, keyed⟩ := operation.key_of_onEntry works
    refine @Acts.steady _ _ store key steady Instant.steady (fun live => operation.touchless live)
      (fun live => operation.acts ⟨0, 0⟩ live) (fun now store => operation.call store now)
      (fun now => ?_) (acts_keeps timeless _)
    have same := funext fun live => acts_timeless timeless ⟨0, 0⟩ now live
    rw [same]
    exact call_acts now keyed works
  | false =>
    cases operation with
    | keyIsAbsentOrHolds holds key =>
      exact ⟨fun now later => by simp only [call, steady.keyIsAbsentOrHolds], fun _ => steady⟩
    | getKeyVersion key => exact ⟨fun _ _ => rfl, fun _ => steady⟩
    | del | keys | forEachValidEntry => cases timeless
    | _ => cases works

end Operation

/-- The keyspace behind some calls at one reading of the clocks. What is not a read
is one of the operations in use. -/
inductive Works (uses : Operation → Prop) (now : Instant) (before : Store) : Store → Prop
  | refl : Works uses now before before
  | reads {middle after : Store} : Works uses now before middle →
      Reads now.steady middle after → Works uses now before after
  | calls {middle : Store} (operation : Operation) : uses operation →
      Works uses now before middle → Works uses now before (operation.call middle now).1

namespace Works

variable {uses : Operation → Prop} {now : Instant}

theorem mono {others : Operation → Prop} (works : Works uses now before after)
    (more : ∀ operation, uses operation → others operation) : Works others now before after := by
  induction works with
  | refl => exact .refl
  | reads _ reads ih => exact .reads ih reads
  | calls operation used _ ih => exact .calls operation (more operation used) ih

theorem evolves {moment : Time} (works : Works uses now before after)
    (order : now.steady ≤ moment) : Evolves moment before after := by
  induction works with
  | refl => exact .refl before
  | reads _ reads ih => exact ih.trans (.ofReads (reads.later order))
  | calls operation _ _ ih => exact ih.trans ((call_effect _ now operation).evolves order)

end Works

end Store

end Credis
