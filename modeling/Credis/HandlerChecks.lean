import Credis.CommandCore
import Credis.OperationChecks
import Credis.Relational

/-! What the handlers do to the keyspace: each works by calls of the public operations, so
two runs of one command agree as far as these operations do. -/

namespace Credis

open ByteString

variable {args : List Bytes} {state : HandlerState} {outcome : Outcome} {send : Bool}

open Store (Reads Operation Returned)
open Relational (Matches Alike)
open Store.Operation BlockingOutcome

variable {fd : Fd} {push : Store → Time → Key → Bytes → Store × Int} {forked : Bool}
  {command : Command} {cmd : Bytes} {faulty : Fault → Prop}

inductive PairsEnd
  | complete
  | unreadable
  | dangling
  deriving DecidableEq

def readPairs : List Bytes → List ScoredMember × PairsEnd
  | [] => ([], .complete)
  | [score] => ([], if (Double.parse score).isSome then .dangling else .unreadable)
  | score :: member :: rest =>
    match Double.parse score with
    | none => ([], .unreadable)
    | some number => ((number, member) :: (readPairs rest).1, (readPairs rest).2)

theorem mem_readPairs {pairs : List Bytes} {item : ScoredMember}
    (member : item ∈ (readPairs pairs).1) :
    ∃ text, (text, item.2) ∈ pairUp pairs ∧ Double.parse text = some item.1 := by
  fun_induction readPairs pairs with
  | case1 | case2 | case3 => cases member
  | case4 text named rest number parsed ih =>
    rcases List.mem_cons.mp member with rfl | later
    · exact ⟨text, List.mem_cons_self, parsed⟩
    · obtain ⟨other, inside, read⟩ := ih later
      exact ⟨other, List.mem_cons_of_mem _ inside, read⟩

/-- The operations that a command calls, with the arguments that it has for them. -/
inductive Command.Uses (args : List Bytes) : Command → Operation → Prop
  | reads {command : Command} {operation : Operation} : isWriteCommand command.name = false →
      operation.touchless none = true → Uses args command operation
  | set {ttlMs : Option Nat} : setOptions (args.drop 3) none = .ok ttlMs →
      Uses args .set (.setIfValidType (args.getD 1 []) (args.getD 2 []) ttlMs)
  | incr : Uses args .incr (.incrIfValidType (args.getD 1 []))
  | check {item : Bytes × Bytes} : item ∈ pairUp (args.drop 1) →
      Uses args .mset (.keyIsAbsentOrHolds (fun value => value.string?.isSome) item.1)
  | mset {item : Bytes × Bytes} : item ∈ pairUp (args.drop 1) →
      Uses args .mset (.set item.1 item.2 none)
  | rpushIfValidType (value : Bytes) : Uses args .rpush (.rpushIfValidType (args.getD 1 []) value)
  | rpush (value : Bytes) : Uses args .rpush (.rpush (args.getD 1 []) value)
  | rpushWakes : Uses args .rpush (.lpopCount (args.getD 1 []) 1)
  | lpushIfValidType (value : Bytes) : Uses args .lpush (.lpushIfValidType (args.getD 1 []) value)
  | lpush (value : Bytes) : Uses args .lpush (.lpush (args.getD 1 []) value)
  | lpushWakes : Uses args .lpush (.lpopCount (args.getD 1 []) 1)
  | lpop : Uses args .lpop (.lpop (args.getD 1 []))
  | lpopCount (count : Int) : Uses args .lpop (.lpopCount (args.getD 1 []) count)
  | rpop : Uses args .rpop (.rpop (args.getD 1 []))
  | rpopCount (count : Int) : Uses args .rpop (.rpopCount (args.getD 1 []) count)
  | blpop : Uses args .blpop (.lpopCount (args.getD 1 []) 1)
  | zaddIfValidType {item : ScoredMember} : item ∈ (readPairs (args.drop 2)).1 →
      Uses args .zadd (.zaddIfValidType (args.getD 1 []) item.1 item.2)
  | zadd {item : ScoredMember} : item ∈ (readPairs (args.drop 2)).1 →
      Uses args .zadd (.zadd (args.getD 1 []) item.1 item.2)
  | zrem (member : Bytes) : Uses args .zrem (.zrem (args.getD 1 []) member)
  | geoCheck : Uses args .geoadd
      (.keyIsAbsentOrHolds (fun value => value.zset?.isSome) (args.getD 1 []))
  | geoadd (lat lon : Float) (member : Bytes) :
      Uses args .geoadd (.zadd (args.getD 1 []) (Geo.encode lat lon).toFloat member)
  | xadd : (args.drop 3).length % 2 = 0 →
      Uses args .xadd (.xaddIfValidType (args.getD 1 []) (args.getD 2 []) (pairUp (args.drop 3)))
  | xaddWakes (id : Bytes) : Uses args .xadd (.xread (args.getD 1 []) id)

def danglingScore : List Bytes → Bool
  | [] => false
  | [score] => (Double.parse score).isSome
  | score :: _ :: rest => (Double.parse score).isSome && danglingScore rest

def Command.Faulty (args : List Bytes) (command : Command) : Prop :=
  args.length < command.minArgs ∨ (command = .zadd ∧ danglingScore (args.drop 2) = true)

section Handlers

variable {related : Store → Store → Prop} {faulty : Fault → Prop} {left right : Store}
  {now later : Instant}

def Store.Operation.Keeps (related : Store → Store → Prop) (now later : Instant)
    (operation : Operation) : Prop :=
  ∀ left right, related left right →
    Matches related (operation.call left now) (operation.call right later)

section

variable {α : Type} {wrap : α → Returned} {one other : Store × α}
  (same : Matches related (returning wrap one) (returning wrap other))
  (injective : ∀ {first second}, wrap first = wrap second → first = second)

include same injective

theorem unwrapped : Matches related one other := ⟨injective same.1, same.2⟩

theorem matched : ∃ before behind result, one = (before, result) ∧ other = (behind, result) ∧
    related before behind :=
  (unwrapped same injective).split

theorem asked (reply : α → Bytes) :
    Alike faulty (Matches related) (.ok (one.1, reply one.2)) (.ok (other.1, reply other.2)) :=
  .ok ⟨congrArg reply (injective same.1), same.2⟩

end

theorem setAll_related {items : List (Bytes × Bytes)}
    (sets : ∀ item ∈ items, Keeps related now later (.set item.1 item.2 none))
    (same : related left right) :
    related (setAll left now.steady items) (setAll right later.steady items) := by
  induction items generalizing left right with
  | nil => exact same
  | cons item items ih =>
    exact ih (fun other member => sets other (by simp [member])) (sets item (by simp) _ _ same).2

theorem checkAll_related {holds : Value → Bool} {items : List (Bytes × Bytes)}
    (checks : ∀ item ∈ items, Keeps related now later (.keyIsAbsentOrHolds holds item.1))
    (same : related left right) :
    (items.all fun item => Store.keyIsAbsentOrHolds holds left now.steady item.1) =
      items.all fun item => Store.keyIsAbsentOrHolds holds right later.steady item.1 := by
  rw [Bool.eq_iff_iff, List.all_eq_true, List.all_eq_true]
  refine forall₂_congr fun item member => ?_
  rw [Returned.flag.inj (checks item member _ _ same).1]

variable {key : Key}

theorem pushAll_related (further : ∀ value left right, related left right → Matches related
      (push left now.steady key value) (push right later.steady key value)) (values : List Bytes)
    {one other : Store × Int} (same : Matches related one other) :
    Matches related
      (values.foldl (fun (state : Store × Int) value => push state.1 now.steady key value) one)
      (values.foldl (fun (state : Store × Int) value => push state.1 later.steady key value)
        other) := by
  induction values generalizing one other with
  | nil => exact same
  | cons value values ih => exact ih (further value _ _ same.2)

theorem zaddPairs_related (pairs : List Bytes) (added : Int)
    (dangling : danglingScore pairs = true → faulty .argumentIndex)
    (adds : ∀ item ∈ (readPairs pairs).1,
      Keeps related now later (.zadd key item.1 item.2)) (same : related left right) :
    Alike faulty (Matches related) (zaddPairs now.steady key pairs left added)
      (zaddPairs later.steady key pairs right added) := by
  fun_induction zaddPairs now.steady key pairs left added generalizing right with
  | case1 => exact .ok ⟨rfl, same⟩
  | case2 _ _ _ unread | case4 _ _ _ _ _ unread =>
    simp only [zaddPairs, unread]
    exact .ok ⟨rfl, same⟩
  | case3 _ _ _ _ parsed =>
    simp only [zaddPairs, parsed]
    exact .fault (dangling (by simp [danglingScore, parsed]))
  | case5 score member rest before added number parsed after count stored ih =>
    obtain ⟨one, other, result, first, second, same⟩ :=
      matched (adds (number, member) (by simp [readPairs, parsed]) _ _ same) Returned.number.inj
    rw [stored] at first
    cases first
    simp only [zaddPairs, parsed, second]
    exact ih (fun behind => dangling (by simp [danglingScore, parsed, behind]))
      (fun item inside => adds item (by simp [readPairs, parsed, inside])) same

theorem geoposMembers_related
    (reads : ∀ member, Keeps related now later (.zscore key member))
    (members : List Bytes) (same : related left right) :
    Matches related (geoposMembers now.steady key members left)
      (geoposMembers later.steady key members right) := by
  induction members generalizing left right with
  | nil => exact ⟨rfl, same⟩
  | cons member members ih =>
    obtain ⟨one, other, score, first, second, same⟩ :=
      matched (reads member _ _ same) Returned.score?.inj
    obtain ⟨replied, same⟩ := ih same
    simp only [geoposMembers, first, second]
    exact ⟨congrArg (coordinatesReply score ++ ·) replied, same⟩

theorem resolveId_related (reads : Keeps related now later (.getStreamMaxId key))
    (id : Bytes) (same : related left right) :
    Matches related (resolveId left now.steady key id) (resolveId right later.steady key id) := by
  unfold resolveId
  split
  · obtain ⟨one, other, last, first, second, same⟩ := matched (reads _ _ same) Returned.text?.inj
    rw [first, second]
    exact ⟨rfl, same⟩
  · exact ⟨rfl, same⟩

theorem readStreams_related (resolves : ∀ key, Keeps related now later (.getStreamMaxId key))
    (reads : ∀ key id, Keeps related now later (.xread key id))
    (streams : List (Key × Bytes)) (same : related left right) :
    Matches related (readStreams now.steady streams left)
      (readStreams later.steady streams right) := by
  induction streams generalizing left right with
  | nil => exact ⟨rfl, same⟩
  | cons stream streams ih =>
    obtain ⟨key, id⟩ := stream
    obtain ⟨found, same⟩ := resolveId_related (resolves key) id same
    obtain ⟨one, other, entries, first, second, same⟩ :=
      matched (reads key (resolveId left now.steady key id).2 _ _ same) Returned.stream.inj
    obtain ⟨results, same⟩ := ih same
    simp only [readStreams]
    rw [← found, first, second]
    exact ⟨congrArg ((key, entries) :: ·) results, same⟩

theorem handleRange_related {range : Store → Time → Key → Int → Int → Store × List Bytes}
    (short : args.length < 4 → faulty .argumentIndex) (same : related left right)
    (reads : ∀ start stop, Matches related (range left now.steady (args.getD 1 []) start stop)
      (range right later.steady (args.getD 1 []) start stop)) :
    Alike faulty (Matches related) (handleRange range left now.steady args)
      (handleRange range right later.steady args) := by
  rcases args with _ | ⟨_, _ | ⟨key, _ | ⟨start, _ | ⟨stop, _⟩⟩⟩⟩ <;>
    try exact .fault (short (by simp))
  unfold handleRange
  dsimp only
  cases parseInt64 start <;> cases parseInt64 stop <;> try exact .ok ⟨rfl, same⟩
  exact .ok ⟨congrArg encodeArray (reads _ _).1, (reads _ _).2⟩

theorem handlePop_related {pop : Store → Time → Key → Store × Option Bytes}
    {popCount : Store → Time → Key → Int → Store × List Bytes}
    (short : args.length < 2 → faulty .argumentIndex) (same : related left right)
    (one : Matches related (pop left now.steady (args.getD 1 []))
      (pop right later.steady (args.getD 1 [])))
    (many : ∀ count, Matches related (popCount left now.steady (args.getD 1 []) count)
      (popCount right later.steady (args.getD 1 []) count)) :
    Alike faulty (Matches related) (handlePop pop popCount left now.steady args)
      (handlePop pop popCount right later.steady args) := by
  rcases args with _ | ⟨_, _ | ⟨key, _ | ⟨count, _⟩⟩⟩ <;> try exact .fault (short (by simp))
  · exact .ok ⟨congrArg optionalBulkString one.1, one.2⟩
  unfold handlePop
  dsimp only
  cases parseInt64 count with
  | none => exact .ok ⟨rfl, same⟩
  | some count =>
    dsimp only
    split
    · exact .ok ⟨rfl, same⟩
    · exact .ok ⟨congrArg encodeArray (many count).1, (many count).2⟩

def BlockingOutcome.Related (related : Store → Store → Prop) (one other : BlockingOutcome) : Prop :=
  related one.store other.store ∧ one.reply = other.reply ∧ one.sends = other.sends

def PushState.Related (related : Store → Store → Prop) (one other : PushState) : Prop :=
  related one.store other.store ∧ one.manager = other.manager ∧ one.count = other.count ∧
    one.sends = other.sends

theorem tryWake_related (pops : Keeps related now later (.lpopCount key 1))
    {one other : PushState} (same : one.Related related other) :
    (tryWake now.steady key one).2 = (tryWake later.steady key other).2 ∧
      (tryWake now.steady key one).1.Related related (tryWake later.steady key other).1 := by
  obtain ⟨left, manager, count, sends⟩ := one
  obtain ⟨right, _, _, _⟩ := other
  obtain ⟨same, rfl, rfl, rfl⟩ := same
  unfold tryWake
  cases manager with
  | none => exact ⟨rfl, same, rfl, rfl, rfl⟩
  | some blocking =>
    dsimp only
    rcases blocking.wakeClient key with ⟨after, _ | client⟩
    · exact ⟨rfl, same, rfl, rfl, rfl⟩
    obtain ⟨one, other, popped, first, second, same⟩ := matched (pops _ _ same) Returned.texts.inj
    dsimp only at first second same ⊢
    rw [first, second]
    cases popped <;> exact ⟨rfl, same, rfl, rfl, rfl⟩

theorem pushSteps_related (pops : Keeps related now later (.lpopCount key 1))
    (further : ∀ value left right, related left right → Matches related
      (push left now.steady key value) (push right later.steady key value)) (values : List Bytes)
    {one other : PushState} (same : one.Related related other) :
    (values.foldl (pushStep push now.steady key) one).Related related
      (values.foldl (pushStep push later.steady key) other) := by
  induction values generalizing one other with
  | nil => exact same
  | cons value values ih =>
    refine ih ?_
    have waking := tryWake_related pops same
    unfold pushStep
    generalize tryWake now.steady key one = one at waking ⊢
    generalize tryWake later.steady key other = other at waking ⊢
    obtain ⟨one, woken⟩ := one
    obtain ⟨other, _⟩ := other
    obtain ⟨rfl, same⟩ := waking
    cases woken with
    | true => exact same
    | false =>
      obtain ⟨count, stored⟩ := further value _ _ same.1
      exact ⟨stored, same.2.1, count, same.2.2.2⟩

section Push

variable {pushIfValidType : Store → Time → Key → Bytes → Store × Option Int}
  {push : Store → Time → Key → Bytes → Store × Int} {name key value : Bytes}
  (opens : Matches related (pushIfValidType left now.steady key value)
    (pushIfValidType right later.steady key value))
  (further : ∀ value left right, related left right → Matches related
    (push left now.steady key value) (push right later.steady key value))
include opens further

theorem handlePush_related (values : List Bytes) :
    Alike faulty (Matches related)
      (handlePush pushIfValidType push left now.steady (name :: key :: value :: values))
      (handlePush pushIfValidType push right later.steady (name :: key :: value :: values)) := by
  obtain ⟨one, other, count, first, second, same⟩ := opens.split
  simp only [handlePush, first, second]
  cases count with
  | none => exact .ok ⟨rfl, same⟩
  | some count =>
    have pushed := pushAll_related further values (show Matches related (one, count) (other, count)
      from ⟨rfl, same⟩)
    exact .ok ⟨congrArg encodeInteger pushed.1, pushed.2⟩

theorem handlePushWithBlocking_related (pops : Keeps related now later (.lpopCount key 1))
    (manager : Option BlockingManager) (values : List Bytes) :
    Alike faulty (Related related)
      (handlePushWithBlocking pushIfValidType push left manager now.steady
        (name :: key :: value :: values))
      (handlePushWithBlocking pushIfValidType push right manager later.steady
        (name :: key :: value :: values)) := by
  obtain ⟨one, other, count, first, second, same⟩ := opens.split
  simp only [handlePushWithBlocking, first, second]
  cases count with
  | none => exact .ok ⟨same, rfl, rfl⟩
  | some count =>
    have woken := (tryWake_related pops (show PushState.Related related ⟨one, manager, count, []⟩
      ⟨other, manager, count, []⟩ from ⟨same, rfl, rfl, rfl⟩)).2
    have pushed := pushSteps_related pops further values woken
    exact .ok ⟨pushed.1, congrArg encodeInteger pushed.2.2.1, pushed.2.2.2⟩

end Push

theorem handleXread_related (resolves : ∀ key, Keeps related now later (.getStreamMaxId key))
    (reads : ∀ key id, Keeps related now later (.xread key id))
    (same : related left right) (manager : Option BlockingManager) (fd : Fd) :
    Alike faulty (Related related)
      (.ok (handleXreadWithBlocking left manager now.steady fd args))
      (.ok (handleXreadWithBlocking right manager later.steady fd args)) := by
  have read : ∀ block rest, Related related
      (readWithBlocking left manager now.steady fd block rest)
      (readWithBlocking right manager later.steady fd block rest) := by
    intro block rest
    unfold readWithBlocking
    dsimp only
    split
    · exact ⟨same, rfl, rfl⟩
    split
    · exact ⟨same, rfl, rfl⟩
    split
    · exact ⟨same, rfl, rfl⟩
    obtain ⟨one, other, results, first, second, same⟩ :=
      (readStreams_related resolves reads _ same).split
    rw [first, second]
    cases block with
    | none => exact ⟨same, rfl, rfl⟩
    | some timeoutMs =>
      dsimp only
      split
      · exact ⟨same, rfl, rfl⟩
      split
      · rename_i key id _ _
        exact ⟨(resolveId_related (resolves key) id same).2, rfl, rfl⟩
      · exact ⟨same, rfl, rfl⟩
  refine .ok ?_
  unfold handleXreadWithBlocking
  split
  · split
    · split
      · exact ⟨same, rfl, rfl⟩
      · split
        · exact ⟨same, rfl, rfl⟩
        · exact read _ _
    · exact read _ _
  · exact read _ _

theorem wakeStreamClients_related (reads : ∀ id, Keeps related now later (.xread key id))
    (newId : Bytes) (fuel : Nat) (manager : BlockingManager) (same : related left right) :
    Matches related (wakeStreamClients now.steady key newId fuel left manager)
      (wakeStreamClients later.steady key newId fuel right manager) := by
  induction fuel generalizing left right manager with
  | zero => exact ⟨rfl, same⟩
  | succ fuel ih =>
    unfold wakeStreamClients
    rcases manager.wakeClientForStream key newId with ⟨after, _ | client⟩
    · exact ⟨rfl, same⟩
    obtain ⟨one, other, entries, first, second, same⟩ :=
      matched (reads client.lastId.toText _ _ same) Returned.stream.inj
    obtain ⟨woken, same⟩ := ih after same
    dsimp only
    rw [first, second]
    exact ⟨congrArg (fun done => (done.1, (client.fd, _) :: done.2)) woken, same⟩

end Handlers

section Table

variable {related : Store → Store → Prop} {left right : Store} {now later : Instant} {fd : Fd}

def Outcome.Related (related : Store → Store → Prop) (one other : Outcome) : Prop :=
  related one.state.store other.state.store ∧ one.reply = other.reply

def Command.Fails (args : List Bytes) (send : Bool) (command : Command) (fault : Fault) : Prop :=
  (command.Faulty args ∧ fault = .argumentIndex) ∨
    (command ∈ [.blpop, .xadd, .xread] ∧ send = false ∧ fault = .emptyCallback)

theorem onStore_related {one other : Except Fault (Store × Bytes)}
    (alike : Alike faulty (Matches related) one other) {state : HandlerState} :
    Alike faulty (Outcome.Related related) (state.onStore one)
      ({ state with store := right }.onStore other) :=
  alike.map fun _ _ same => ⟨same.2, same.1⟩

theorem onBlocking_related {one other : Except Fault BlockingOutcome}
    (alike : Alike faulty (Related related) one other)
    (empty : send = false → faulty .emptyCallback) {state : HandlerState} :
    Alike faulty (Outcome.Related related) (state.onBlocking send one)
      ({ state with store := right }.onBlocking send other) := by
  cases alike with
  | fault failed => exact .fault failed
  | @ok one other same =>
    unfold HandlerState.onBlocking
    dsimp only
    rw [← same.2.2]
    split
    · rename_i blocked
      exact .fault (empty blocked.2)
    · exact .ok ⟨same.1, same.2.1⟩

/-- Two runs of a data command on related keyspaces end alike, if its operations do. -/
theorem Command.handler_related {command : Command} (data : command.readsClock = true)
    (other : command ≠ .bgrewriteaof)
    (kept : ∀ operation, command.Uses args operation → operation.Keeps related now later)
    (state : HandlerState) (same : related state.store right) (forked : Bool) (fd : Fd) :
    Alike (command.Fails args send) (Outcome.Related related)
      (command.handler state now forked fd send args)
      (command.handler { state with store := right } later forked fd send args) := by
  have short : args.length < command.minArgs → command.Fails args send .argumentIndex :=
    fun few => .inl ⟨.inl few, rfl⟩
  have empty : command ∈ [.blpop, .xadd, .xread] → send = false →
      command.Fails args send .emptyCallback := fun blocks absent => .inr ⟨blocks, absent, rfl⟩
  have reads : isWriteCommand command.name = false → ∀ operation : Operation,
      operation.touchless none = true → Matches related (operation.call state.store now)
        (operation.call right later) :=
    fun reader operation passes => kept operation (.reads reader passes) _ _ same
  have own : ∀ operation : Operation, command.Uses args operation →
      Matches related (operation.call state.store now) (operation.call right later) :=
    fun operation used => kept operation used _ _ same
  cases command with
  | get | llen | type | zcard =>
    refine onStore_related ?_
    rcases args with _ | ⟨_, _ | ⟨key, _⟩⟩ <;> try exact .fault (short (by simp [minArgs]))
    first
    | exact asked (reads (by decide) (.get key) rfl) Returned.text?.inj optionalBulkString
    | exact asked (reads (by decide) (.llen key) rfl) Returned.number.inj encodeInteger
    | exact asked (reads (by decide) (.getType key) rfl) Returned.text.inj encodeSimpleString
    | exact asked (reads (by decide) (.zcard key) rfl) Returned.number.inj encodeInteger
  | keys =>
    exact onStore_related (asked (reads (by decide) .keys rfl) Returned.texts.inj encodeArray)
  | zscore | zrem =>
    refine onStore_related ?_
    rcases args with _ | ⟨_, _ | ⟨key, _ | ⟨member, _⟩⟩⟩ <;>
      try exact .fault (short (by simp [minArgs]))
    first
    | exact asked (reads (by decide) (.zscore key member) rfl) Returned.score?.inj
        fun score => optionalBulkString (score.map (Double.formatGeneral 17))
    | exact asked (own (.zrem key member) (.zrem member)) Returned.number.inj encodeInteger
  | zrank =>
    refine onStore_related ?_
    rcases args with _ | ⟨_, _ | ⟨key, _ | ⟨member, _⟩⟩⟩ <;>
      try exact .fault (short (by simp [minArgs]))
    obtain ⟨one, other, rank, first, second, same⟩ :=
      matched (reads (by decide) (.zrank key member) rfl) Returned.number?.inj
    simp only [handleZrank, first, second]
    cases rank <;> exact .ok ⟨rfl, same⟩
  | xrange =>
    refine onStore_related ?_
    rcases args with _ | ⟨_, _ | ⟨key, _ | ⟨start, _ | ⟨stop, _⟩⟩⟩⟩ <;>
      try exact .fault (short (by simp [minArgs]))
    exact asked (reads (by decide) (.xrange key start stop) rfl) Returned.stream.inj encodeEntries
  | lrange =>
    exact onStore_related (handleRange_related short same fun start stop =>
      unwrapped (reads (by decide) (.lrange _ start stop) rfl) Returned.texts.inj)
  | zrange =>
    exact onStore_related (handleRange_related short same fun start stop =>
      unwrapped (reads (by decide) (.zrange _ start stop) rfl) Returned.texts.inj)
  | geopos =>
    refine onStore_related ?_
    rcases args with _ | ⟨_, _ | ⟨key, members⟩⟩ <;> try exact .fault (short (by simp [minArgs]))
    have found := geoposMembers_related
      (fun member => kept (.zscore key member) (.reads (by decide) rfl))
      members same
    exact .ok ⟨congrArg (arrayHeader members.length ++ ·) found.1, found.2⟩
  | geodist =>
    refine onStore_related ?_
    rcases args with _ | ⟨_, _ | ⟨key, _ | ⟨here, _ | ⟨there, _⟩⟩⟩⟩ <;>
      try exact .fault (short (by simp [minArgs]))
    obtain ⟨one, other, start, first, second, same⟩ :=
      matched (reads (by decide) (.zscore key here) rfl) Returned.score?.inj
    obtain ⟨later, behind, stop, third, fourth, same⟩ :=
      matched (kept (.zscore key there) (.reads (by decide) rfl) _ _ same) Returned.score?.inj
    simp only [handleGeodist, first, second, third, fourth]
    cases start <;> cases stop <;> exact .ok ⟨rfl, same⟩
  | geosearch =>
    refine onStore_related ?_
    rcases args with _ | ⟨_, _ | ⟨key, _ | ⟨origin, _ | ⟨longitude, _ | ⟨latitude, _ | ⟨shape,
      _ | ⟨radius, _ | ⟨unit, _⟩⟩⟩⟩⟩⟩⟩⟩ <;> try exact .fault (short (by simp [minArgs]))
    obtain ⟨one, other, members, first, second, found⟩ :=
      matched (reads (by decide) (.zgetall key) rfl) Returned.scores.inj
    simp only [handleGeosearch, first, second]
    split
    · exact .ok ⟨rfl, same⟩
    cases Double.parse longitude <;> cases Double.parse latitude <;> try exact .ok ⟨rfl, same⟩
    dsimp only
    split
    · exact .ok ⟨rfl, same⟩
    cases Double.parse radius with
    | none => exact .ok ⟨rfl, same⟩
    | some radius =>
      cases unitFactor (toUpper unit) with
      | none => exact .ok ⟨rfl, same⟩
      | some factor => exact .ok ⟨rfl, found⟩
  | set =>
    refine onStore_related ?_
    rcases args with _ | ⟨_, _ | ⟨key, _ | ⟨value, options⟩⟩⟩ <;>
      try exact .fault (short (by simp [minArgs]))
    unfold handleSet
    dsimp only
    cases parsed : setOptions options none with
    | error reply => exact .ok ⟨rfl, same⟩
    | ok ttlMs =>
      obtain ⟨one, other, done, first, second, same⟩ :=
        matched (own (.setIfValidType key value ttlMs) (.set parsed)) Returned.flag.inj
      simp only [first, second]
      cases done <;> exact .ok ⟨rfl, same⟩
  | incr =>
    refine onStore_related ?_
    rcases args with _ | ⟨_, _ | ⟨key, _⟩⟩ <;> try exact .fault (short (by simp [minArgs]))
    obtain ⟨one, other, number, first, second, same⟩ :=
      matched (own (.incrIfValidType key) .incr) Returned.number?.inj
    simp only [handleIncr, first, second]
    cases number <;> exact .ok ⟨rfl, same⟩
  | mset =>
    refine onStore_related ?_
    rcases args with _ | ⟨_, items⟩ <;> try exact .fault (short (by simp [minArgs]))
    unfold handleMset
    dsimp only
    rw [@checkAll_related related state.store right now later _ (pairUp items)
      (fun item member => kept _ (.check member)) same]
    split
    · exact .ok ⟨rfl, same⟩
    · split
      · exact .ok ⟨rfl, setAll_related (fun item member => kept _ (.mset member)) same⟩
      · exact .ok ⟨rfl, same⟩
  | lpop =>
    exact onStore_related (handlePop_related short same
      (unwrapped (own _ .lpop) Returned.text?.inj)
      fun count => unwrapped (own _ (.lpopCount count)) Returned.texts.inj)
  | rpop =>
    exact onStore_related (handlePop_related short same
      (unwrapped (own _ .rpop) Returned.text?.inj)
      fun count => unwrapped (own _ (.rpopCount count)) Returned.texts.inj)
  | zadd =>
    refine onStore_related ?_
    rcases args with _ | ⟨_, _ | ⟨key, _ | ⟨score, _ | ⟨member, rest⟩⟩⟩⟩ <;>
      try exact .fault (short (by simp [minArgs]))
    unfold handleZadd
    dsimp only
    cases parsed : Double.parse score with
    | none => exact .ok ⟨rfl, same⟩
    | some number =>
      obtain ⟨one, other, added, first, second, same⟩ := matched
        (own (.zaddIfValidType key number member)
          (@Uses.zaddIfValidType _ (number, member) (by simp [readPairs, parsed])))
        Returned.number?.inj
      simp only [first, second]
      cases added with
      | none => exact .ok ⟨rfl, same⟩
      | some added =>
        refine zaddPairs_related rest added (fun behind => ?_) (fun item inside => ?_) same
        · exact .inl ⟨.inr ⟨rfl, by simp [danglingScore, parsed, behind]⟩, rfl⟩
        · exact kept _ (.zadd (by simp [readPairs, parsed, inside]))
  | geoadd =>
    refine onStore_related ?_
    rcases args with _ | ⟨_, _ | ⟨key, _ | ⟨longitude, _ | ⟨latitude, _ | ⟨member, _⟩⟩⟩⟩⟩ <;>
      try exact .fault (short (by simp [minArgs]))
    unfold handleGeoadd
    dsimp only
    rw [Returned.flag.inj (own (.keyIsAbsentOrHolds _ key) .geoCheck).1]
    split
    · cases Double.parse longitude <;> cases Double.parse latitude <;> try exact .ok ⟨rfl, same⟩
      rename_i lon lat
      dsimp only
      split
      · exact .ok ⟨rfl, same⟩
      · exact asked (own _ (.geoadd lat lon member)) Returned.number.inj encodeInteger
    · exact .ok ⟨rfl, same⟩
  | rpush =>
    rcases args with _ | ⟨_, _ | ⟨key, _ | ⟨value, values⟩⟩⟩ <;>
      try (cases send <;> exact .fault (short (by simp [minArgs])))
    have opens := unwrapped (own _ (.rpushIfValidType value)) Returned.number?.inj
    have further := fun value left right same =>
      unwrapped (kept (.rpush key value) (.rpush value) left right same) Returned.number.inj
    cases send with
    | false => exact onStore_related (handlePush_related opens further values)
    | true =>
      exact onBlocking_related (handlePushWithBlocking_related opens further
        (kept _ .rpushWakes) _ values) (fun absent => by cases absent)
  | lpush =>
    rcases args with _ | ⟨_, _ | ⟨key, _ | ⟨value, values⟩⟩⟩ <;>
      try (cases send <;> exact .fault (short (by simp [minArgs])))
    have opens := unwrapped (own _ (.lpushIfValidType value)) Returned.number?.inj
    have further := fun value left right same =>
      unwrapped (kept (.lpush key value) (.lpush value) left right same) Returned.number.inj
    cases send with
    | false => exact onStore_related (handlePush_related opens further values)
    | true =>
      exact onBlocking_related (handlePushWithBlocking_related opens further
        (kept _ .lpushWakes) _ values) (fun absent => by cases absent)
  | blpop =>
    refine onBlocking_related ?_ (empty (by decide))
    rcases args with _ | ⟨_, _ | ⟨key, _ | ⟨timeout, _⟩⟩⟩ <;>
      try exact .fault (short (by simp [minArgs]))
    obtain ⟨one, other, popped, first, second, found⟩ :=
      matched (own (.lpopCount key 1) .blpop) Returned.texts.inj
    simp only [handleBlpop, first, second]
    cases Double.parse timeout with
    | none => exact .ok ⟨same, rfl, rfl⟩
    | some seconds =>
      dsimp only
      split
      · exact .ok ⟨same, rfl, rfl⟩
      · cases popped with
        | cons element rest => exact .ok ⟨found, rfl, rfl⟩
        | nil => cases state.blockingManager <;> exact .ok ⟨found, rfl, rfl⟩
  | xadd =>
    refine onBlocking_related ?_ (empty (by decide))
    rcases args with _ | ⟨_, _ | ⟨key, _ | ⟨id, fields⟩⟩⟩ <;>
      try exact .fault (short (by simp [minArgs]))
    unfold handleXaddWithBlocking
    dsimp only
    split
    · exact .ok ⟨same, rfl, rfl⟩
    rename_i even
    obtain ⟨one, other, added, first, second, same⟩ :=
      matched (own (.xaddIfValidType key id (pairUp fields)) (.xadd (by simpa using even)))
        Returned.text?.inj
    rw [first, second]
    cases added with
    | none => exact .ok ⟨same, rfl, rfl⟩
    | some newId =>
      dsimp only
      split
      · exact .ok ⟨same, rfl, rfl⟩
      cases state.blockingManager with
      | none => exact .ok ⟨same, rfl, rfl⟩
      | some blocking =>
        have woken := wakeStreamClients_related (fun id => kept (.xread key id) (.xaddWakes id))
          newId (blocking.queue key).length blocking same
        exact .ok ⟨woken.2, rfl, congrArg Prod.snd woken.1⟩
  | xread =>
    exact onBlocking_related (handleXread_related (fun key => kept _ (.reads (by decide) rfl))
      (fun key id => kept _ (.reads (by decide) rfl)) same _ fd)
      (empty (by decide))
  | bgrewriteaof => exact absurd rfl other
  | ping | echo | info | config | acl | auth | replconf | wait | psync | subscribe | unsubscribe
  | publish => cases data

end Table

section BlockingHandlers

variable {store : Store} {manager : Option BlockingManager}

theorem handlePushWithBlocking_args {outcome : BlockingOutcome}
    {pushIfValidType : Store → Time → Key → Bytes → Store × Option Int} {time : Time}
    (handled : handlePushWithBlocking pushIfValidType push store manager time args =
      .ok outcome) : ∃ name key value values, args = name :: key :: value :: values := by
  unfold handlePushWithBlocking at handled
  split at handled
  · exact ⟨_, _, _, _, rfl⟩
  · cases handled

theorem readStreams_reads (now : Time) (streams : List (Key × Bytes)) (store : Store) :
    Reads now store (readStreams now streams store).1 := by
  have keeps : ∀ operation : Operation, operation.touchless none = true →
      operation.Keeps (fun left right => left = right ∧ Reads now store left)
        ⟨now, 0⟩ ⟨now, 0⟩ := by
    rintro operation passes left _ ⟨rfl, reads⟩
    exact ⟨rfl, rfl, reads.trans (@reads_of_touchless operation left ⟨now, 0⟩ passes)⟩
  exact (readStreams_related (fun key => keeps _ rfl) (fun key id => keeps _ rfl) streams
    ⟨rfl, .refl⟩).2.2

theorem wakeStreamClients_reads (now : Time) (key : Key) (newId : Bytes) (fuel : Nat)
    (store : Store) (manager : BlockingManager) :
    Reads now store (wakeStreamClients now key newId fuel store manager).1 := by
  induction fuel generalizing store manager with
  | zero => exact .refl
  | succ fuel ih =>
    unfold wakeStreamClients
    split
    · exact .refl
    · exact (Store.xread_reads store now key _).trans (ih _ _)

def blockingErrors : List Bytes :=
  [notIntegerReply, syntaxReply, errorReply "ERR timeout is negative",
    errorReply "ERR blocking not available", errorReply "ERR BLOCK only supports single stream",
    errorReply "ERR wrong number of arguments for 'xread' command"]

/-- What `BLPOP` and `XREAD` come to: a reply, or the client in the queue of a key. -/
inductive BlockingOutcome.Ends (manager : Option BlockingManager) (now : Time) (fd : Fd)
    (waits : Store → Key → StreamId → Int → Prop) : BlockingOutcome → Prop
  | refused {after : Store} {reply : Bytes} : reply ∈ blockingErrors →
      Ends manager now fd waits ⟨after, manager, false, reply, []⟩
  | popped {after : Store} (texts : List Bytes) :
      Ends manager now fd waits ⟨after, manager, false, encodeArray texts, []⟩
  | read {after : Store} (streams : List (Key × List StreamEntry)) :
      Ends manager now fd waits ⟨after, manager, false, encodeStreamEntries streams, []⟩
  | blocks {after : Store} {blocking : BlockingManager} {key : Key} {lastId : StreamId}
      {timeoutMs : Int} : manager = some blocking → waits after key lastId timeoutMs →
      Ends manager now fd waits ⟨after,
        some (blocking.blockClientForStream now fd key lastId timeoutMs), true, [], []⟩

section Ends

variable {now : Time} {fd : Fd}

theorem handleBlpop_ends {outcome : BlockingOutcome}
    (done : handleBlpop store manager now fd args = .ok outcome) :
    outcome.Ends manager now fd fun after key lastId timeoutMs =>
      ∃ name timeout rest seconds, args = name :: key :: timeout :: rest ∧
        Double.parse timeout = some seconds ∧ store.lpopCount now key 1 = (after, []) ∧
        lastId = ⟨0, 0⟩ ∧ timeoutMs = Double.toInt64 (seconds * 1000) := by
  unfold handleBlpop at done
  split at done
  · split at done
    · cases done
      exact .refused (by simp [blockingErrors])
    rename_i parsed
    split at done
    · cases done
      exact .refused (by simp [blockingErrors])
    split at done
    · cases done
      exact .popped _
    rename_i popped
    split at done
    · cases done
      exact .blocks rfl ⟨_, _, _, _, rfl, parsed, popped, rfl, rfl⟩
    · cases done
      exact .refused (by simp [blockingErrors])
  · cases done

theorem dropWhile_pair {args names : List Bytes} {keeps : Bytes → Bool} {key id : Bytes}
    {rest : List (Bytes × Bytes)} (behind : (args.dropWhile keeps).drop 1 = names)
    (even : names.length % 2 = 0)
    (streams : (names.take (names.length / 2)).zip (names.drop (names.length / 2)) =
      (key, id) :: rest) (single : ((key, id) :: rest).length = 1) :
    ∃ front, args = front ++ [key, id] := by
  have two : names.length = 2 := by
    have count := congrArg List.length streams
    rw [single, List.length_zip, List.length_take, List.length_drop] at count
    omega
  obtain ⟨first, second, rfl⟩ := List.length_eq_two.mp two
  obtain ⟨⟨rfl, rfl⟩, -⟩ : (first = key ∧ second = id) ∧ [] = rest := by simpa using streams
  refine ⟨args.takeWhile keeps ++ (args.dropWhile keeps).take 1, ?_⟩
  rw [← behind, List.append_assoc, List.take_append_drop, List.takeWhile_append_dropWhile]

theorem readWithBlocking_ends (store : Store) (manager : Option BlockingManager) (now : Time)
    (fd : Fd) (block : Option Int) (args : List Bytes) :
    (readWithBlocking store manager now fd block args).Ends manager now fd
      fun _ key lastId timeoutMs => ∃ front id seen, args = front ++ [key, id] ∧
        Reads now store seen ∧ lastId = (StreamId.parse (resolveId seen now key id).2).getD ⟨0, 0⟩ ∧
        block = some timeoutMs := by
  unfold readWithBlocking
  dsimp only
  split
  · exact .refused (by simp [blockingErrors])
  split
  · exact .refused (by simp [blockingErrors])
  rename_i even
  split
  · exact .refused (by simp [blockingErrors])
  rename_i single
  split
  · exact .read _
  split
  · exact .read _
  split
  · rename_i streams
    rw [streams] at single
    obtain ⟨front, given⟩ := dropWhile_pair rfl (by omega) streams (by simpa using single)
    exact .blocks rfl ⟨front, _, _, given, readStreams_reads now _ store, rfl, rfl⟩
  · exact .refused (by simp [blockingErrors])

theorem BlockingOutcome.Ends.weaken {waits others : Store → Key → StreamId → Int → Prop}
    {outcome : BlockingOutcome} (ends : outcome.Ends manager now fd waits)
    (implies : ∀ after key lastId timeoutMs, waits after key lastId timeoutMs →
      others after key lastId timeoutMs) : outcome.Ends manager now fd others := by
  cases ends with
  | refused failure => exact .refused failure
  | popped texts => exact .popped texts
  | read streams => exact .read streams
  | blocks present waits => exact .blocks present (implies _ _ _ _ waits)

theorem handleXread_ends (store : Store) (manager : Option BlockingManager) (now : Time) (fd : Fd)
    (args : List Bytes) :
    (handleXreadWithBlocking store manager now fd args).Ends manager now fd
      fun _ key lastId timeoutMs => ∃ front id seen, args = front ++ [key, id] ∧
        Reads now store seen ∧ lastId = (StreamId.parse (resolveId seen now key id).2).getD ⟨0, 0⟩ ∧
        ∃ name option timeout rest, args = name :: option :: timeout :: rest ∧
          toUpper option = ascii "BLOCK" ∧ parseInt64 timeout = some timeoutMs := by
  unfold handleXreadWithBlocking
  split
  · rename_i name option rest
    split
    · rename_i blocks
      split
      · exact .refused (by simp [blockingErrors])
      rename_i timeout args
      split
      · exact .refused (by simp [blockingErrors])
      rename_i parsed
      refine (readWithBlocking_ends store manager now fd _ args).weaken ?_
      rintro _ key lastId _ ⟨front, id, seen, rfl, reads, known, ⟨⟩⟩
      exact ⟨name :: option :: timeout :: front, id, seen, rfl, reads, known, name, option,
        timeout, _, rfl, blocks, parsed⟩
    · refine (readWithBlocking_ends store manager now fd none _).weaken ?_
      rintro _ _ _ _ ⟨_, _, _, _, _, _, ⟨⟩⟩
  · refine (readWithBlocking_ends store manager now fd none _).weaken ?_
    rintro _ _ _ _ ⟨_, _, _, _, _, _, ⟨⟩⟩

end Ends

end BlockingHandlers

theorem encodeError_ne_respOk (text : Bytes) : encodeError text ≠ respOk := by
  intro same
  have heads : some 45 = respOk.head? := congrArg List.head? same
  exact absurd heads (by decide)

theorem lookup_name (found : Command.lookup cmd = some command) : cmd = command.name := by
  have named := List.find?_some found
  exact (beq_iff_eq.mp named).symm

theorem Command.lookup_name_self (command : Command) :
    Command.lookup command.name = some command := by
  cases command <;> decide

theorem Command.name_inj {command other : Command} (same : command.name = other.name) :
    command = other := by
  have found := command.lookup_name_self
  rw [same, other.lookup_name_self] at found
  exact (Option.some.inj found).symm

theorem Command.toUpper_name (command : Command) : toUpper command.name = command.name := by
  cases command <;> decide

theorem onStore_ok {handled : Except Fault (Store × Bytes)}
    (done : state.onStore handled = .ok outcome) :
    ∃ result, handled = .ok result ∧
      outcome = { state with store := result.1 }.replied result.2 := by
  cases handled with
  | error fault => cases done
  | ok result =>
    cases done
    exact ⟨result, rfl, rfl⟩

theorem onBlocking_ok {handled : Except Fault BlockingOutcome}
    (done : state.onBlocking send handled = .ok outcome) :
    ∃ result, handled = .ok result ∧ (result.sends = [] ∨ send = true) ∧
      outcome = ⟨{ state with store := result.store, blockingManager := result.manager },
        if result.blocked then .block else .normal, result.reply, result.sends, false⟩ := by
  cases handled with
  | error fault => cases done
  | ok result =>
    simp only [HandlerState.onBlocking] at done
    split at done
    · cases done
    rename_i allowed
    cases done
    refine ⟨result, rfl, ?_, rfl⟩
    by_cases silent : result.sends = []
    · exact .inl silent
    · cases send with
      | true => exact .inr rfl
      | false => exact absurd ⟨silent, rfl⟩ allowed

inductive Command.Handled (state : HandlerState) (forked : Bool) (fd : Fd) (send : Bool)
    (args : List Bytes) : Command → Outcome → Prop
  | store {command : Command} (store : Store) (reply : Bytes) : command.readsClock = true →
      Handled state forked fd send args command ({ state with store := store }.replied reply)
  | blocking {command : Command} (result : BlockingOutcome) :
      command ∈ [.rpush, .lpush, .blpop, .xadd, .xread] →
      Handled state forked fd send args command
        ⟨{ state with store := result.store, blockingManager := result.manager },
          if result.blocked then .block else .normal, result.reply, result.sends, false⟩
  | replied {command : Command} (reply : Bytes) :
      Handled state forked fd send args command (state.replied reply)
  | config (reply : Bytes) : toUpper (args.getD 1 []) = ascii "SET" →
      Handled state forked fd send args .config ({ state with
        aofManager := (handleConfigSet state.aofManager state.config.dir (args.getD 2 [])
          (args.getD 3 [])).1 }.replied reply)
  | bgrewriteaof (reply : Bytes) :
      Handled state forked fd send args .bgrewriteaof ({ state with
        aofManager := (handleBgrewriteaof state.aofManager state.store state.config.dir
          forked).1 }.replied reply)
  | acl (manager : AclManager) (reply : Bytes) :
      Handled state forked fd send args .acl ({ state with aclManager := manager }.replied reply)
  | auth : Handled state forked fd send args .auth
      ⟨state, .normal, (handleAuth state.aclManager args).2, [],
        (handleAuth state.aclManager args).1⟩
  | wait : Handled state forked fd send args .wait
      ⟨state, (handleWait args).1, (handleWait args).2, [], false⟩
  | psync : Handled state forked fd send args .psync
      ⟨state, .replicaHandshake, handlePsync state, [], false⟩
  | subscribe {manager : PubSubManager} (channel reply : Bytes) :
      state.pubsubManager = some manager →
      Handled state forked fd send args .subscribe
        ({ state with pubsubManager := some (manager.subscribe fd channel).1 }.replied reply)
  | unsubscribe {manager : PubSubManager} (channel reply : Bytes) :
      state.pubsubManager = some manager →
      Handled state forked fd send args .unsubscribe
        ({ state with pubsubManager := some (manager.unsubscribe fd channel).1 }.replied reply)
  | publish : Handled state forked fd send args .publish
      ⟨state, .normal, (handlePublish state.pubsubManager send args).2,
        (handlePublish state.pubsubManager send args).1, false⟩

theorem Command.handled {now : Instant}
    (done : command.handler state now forked fd send args = .ok outcome) :
    command.Handled state forked fd send args outcome := by
  have alone : state.pubsubManager = none → { state with pubsubManager := none } = state := by
    intro absent
    rw [← absent]
  cases command with
  | set | mset | get | incr | llen | lpop | rpop | lrange | type | keys | zadd | zrank | zrange
  | zcard | zscore | zrem | geoadd | geopos | geodist | geosearch | xrange =>
    obtain ⟨result, -, rfl⟩ := onStore_ok done
    exact .store _ _ rfl
  | blpop | xadd | xread =>
    simp only [handler] at done
    obtain ⟨result, -, -, rfl⟩ := onBlocking_ok done
    exact .blocking _ (by decide)
  | rpush | lpush =>
    cases send with
    | true =>
      obtain ⟨result, -, -, rfl⟩ := onBlocking_ok done
      exact .blocking _ (by decide)
    | false =>
      obtain ⟨result, -, rfl⟩ := onStore_ok done
      exact .store _ _ rfl
  | config =>
    simp only [handler, handleConfig] at done
    split at done
    · split at done
      · cases done
        exact .replied _
      · split at done
        · rename_i setting
          split at done
          · cases done
            exact .replied _
          · cases done
            exact .config _ setting
        · cases done
          exact .replied _
    · cases done
      exact .replied _
  | echo =>
    simp only [handler, handleEcho] at done
    split at done <;> cases done
    exact .replied _
  | subscribe =>
    simp only [handler, handleSubscribe] at done
    split at done
    · split at done
      · rename_i absent
        cases done
        dsimp only
        rw [alone absent]
        exact .replied _
      · rename_i present
        cases done
        exact .subscribe _ _ present
    · cases done
      exact .replied _
  | unsubscribe =>
    simp only [handler, handleUnsubscribe] at done
    split at done
    · split at done
      · rename_i absent
        cases done
        dsimp only
        rw [alone absent]
        exact .replied _
      · rename_i present
        cases done
        exact .unsubscribe _ _ present
    · cases done
      exact .replied _
  | bgrewriteaof =>
    cases done
    exact .bgrewriteaof _
  | acl =>
    cases done
    exact .acl _ _
  | auth =>
    cases done
    exact .auth
  | wait =>
    cases done
    exact .wait
  | psync =>
    cases done
    exact .psync
  | publish =>
    cases done
    exact .publish
  | ping | info | replconf =>
    cases done
    exact .replied _

theorem executeCommand_ok (done : executeCommand state fd send args cmd = .ok outcome) :
    (∃ reply, outcome = state.replied reply) ∨
      ∃ command ticks, Command.lookup cmd = some command ∧
        command.handler { state with ticks := ticks } (state.clock state.ticks)
          (state.forks state.ticks) fd send args = .ok outcome := by
  unfold executeCommand at done
  split at done
  · cases done
    exact .inl ⟨_, rfl⟩
  rename_i command found
  split at done
  · cases done
    exact .inl ⟨_, rfl⟩
  · split at done
    · exact .inr ⟨command, state.ticks + 1, found, done⟩
    · exact .inr ⟨command, state.ticks, found, done⟩

theorem handler_calls {uses : Operation → Prop} {now : Instant} {forked : Bool} {fd : Fd}
    {command : Command}
    (used : ∀ operation, command.Uses args operation →
      operation.touchless none = true ∨ uses operation)
    (handled : command.handler state now forked fd send args = .ok outcome) :
    Store.Works uses now state.store outcome.state.store := by
  by_cases rewrites : command = .bgrewriteaof
  · subst rewrites
    cases handled
    exact .refl
  · cases data : command.readsClock with
    | true =>
      have kept : ∀ operation, command.Uses args operation → operation.Keeps
          (fun left right => left = right ∧ Store.Works uses now state.store left) now now := by
        rintro operation called left _ ⟨rfl, works⟩
        refine ⟨rfl, rfl, ?_⟩
        rcases used operation called with passes | own
        · exact works.reads (operation.reads_of_touchless passes)
        · exact works.calls operation own
      have alike := @Command.handler_related args send _ state.store now now command data rewrites
        kept state ⟨rfl, .refl⟩ forked fd
      rw [handled] at alike
      exact alike.of_ok.1.2
    | false =>
      cases Command.handled handled with
      | store _ _ reads => exact absurd (data.symm.trans reads) (by decide)
      | blocking _ member =>
        cases command <;> first | exact absurd member (by decide) | exact absurd data (by decide)
      | _ => exact .refl

structure SameWiring (before after : HandlerState) : Prop where
  config : after.config = before.config
  logging : after.aofManager.isSome = before.aofManager.isSome
  replicas : after.replicaCount = before.replicaCount
  offset : after.offset = before.offset
  clock : after.clock = before.clock
  forks : after.forks = before.forks

namespace SameWiring

theorem refl (state : HandlerState) : SameWiring state state := ⟨rfl, rfl, rfl, rfl, rfl, rfl⟩

theorem trans {first second third : HandlerState} (left : SameWiring first second)
    (right : SameWiring second third) : SameWiring first third :=
  ⟨right.config.trans left.config, right.logging.trans left.logging,
    right.replicas.trans left.replicas, right.offset.trans left.offset,
    right.clock.trans left.clock, right.forks.trans left.forks⟩

end SameWiring

theorem handleConfigSet_isSome (manager : Option AofManager) (dir parameter value : Bytes) :
    (handleConfigSet manager dir parameter value).1.isSome = manager.isSome := by
  unfold handleConfigSet
  cases manager with
  | none =>
    dsimp only
    split
    · rfl
    · split <;> rfl
  | some manager =>
    dsimp only
    split
    · split <;> rfl
    · split
      · split <;> rfl
      · rfl

theorem handleBgrewriteaof_isSome (manager : Option AofManager) (store : Store) (dir : Bytes)
    (forked : Bool) : (handleBgrewriteaof manager store dir forked).1.isSome = manager.isSome := by
  unfold handleBgrewriteaof
  split
  · rfl
  split
  · rfl
  · split
    · rfl
    · split <;> rfl

theorem handler_wiring {now : Instant} (command : Command)
    (handled : command.handler state now forked fd send args = .ok outcome) :
    SameWiring state outcome.state ∧ outcome.state.ticks = state.ticks := by
  cases Command.handled handled with
  | config _ _ => exact ⟨⟨rfl, handleConfigSet_isSome _ _ _ _, rfl, rfl, rfl, rfl⟩, rfl⟩
  | bgrewriteaof _ => exact ⟨⟨rfl, handleBgrewriteaof_isSome _ _ _ _, rfl, rfl, rfl, rfl⟩, rfl⟩
  | _ => exact ⟨⟨rfl, rfl, rfl, rfl, rfl, rfl⟩, rfl⟩

end Credis
