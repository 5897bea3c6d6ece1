import Credis.ReplayChecks
import Credis.SortedSetChecks
import Credis.StreamChecks

/-! The snapshot that the rewrite child takes: each live entry becomes commands, and a
handler over an empty keyspace that is fed with them has the entry again. -/

namespace Credis

open ByteString

variable {key : Key} {args : List Bytes}

open AofManager (entryCommands encodeRespCommand rewriteChildMain)
open Request

variable {entry : Entry} {now : Instant} {store last : Store} {entries : List StreamEntry}
  {ctx : CommandContext} {value : Value} {items : List Bytes} {commands : List (List Bytes)}
  {expiry : Int}

namespace Store

structure Gains (key : Key) (entry : Entry) (before after : Store) : Prop where
  here : after.data.lookup key = some entry
  others : ∀ other, other ≠ key → after.data.lookup other = before.data.lookup other

theorem Gains.ofTouches {before after : Store} (touches : Touches key before after)
    (entry : Entry) :
    Gains key entry before (after.put key entry) :=
  ⟨put_lookup _ _ _, (touches.put entry).others⟩

theorem Gains.after {later : Entry} {first second third : Store}
    (right : Gains key later second third) (left : Gains key entry first second) :
    Gains key later first third :=
  ⟨right.here, fun other different =>
    (right.others other different).trans (left.others other different)⟩

end Store

open Store (Gains)

def Performs (now : Instant) (args : List Bytes) (store after : Store) : Prop :=
  (Command.lookup (toUpper (args.headD []))).isSome = true ∧
    ∀ state : HandlerState, state.store = store → state.NobodyBlocked →
      (∀ tick, state.clock tick = now) →
      ∃ ticks reply, executeCommand state (-1) false args (toUpper (args.headD [])) =
        .ok ⟨{ state with store := after, ticks := ticks }, .normal, reply, [], false⟩

theorem performs_of_handler {now : Instant} {store after : Store} {command : Command}
    (named : toUpper (args.headD []) = command.name) (arity : command.minArgs ≤ args.length)
    (handled : ∀ (state : HandlerState) (forked : Bool), state.store = store →
      state.NobodyBlocked → ∃ reply, command.handler state now forked (-1) false args =
        .ok ⟨{ state with store := after }, .normal, reply, [], false⟩) :
    Performs now args store after := by
  have found : Command.lookup (toUpper (args.headD [])) = some command := by
    rw [named, command.lookup_name_self]
  refine ⟨by rw [found]; rfl, fun state stored free clock => ?_⟩
  obtain ⟨reply, done⟩ := handled (if command.readsClock then state.tick else state)
    (state.forks state.ticks) (by split <;> exact stored) (by split <;> exact free)
  refine ⟨(if command.readsClock then state.tick else state).ticks, reply, ?_⟩
  rw [executeCommand, found]
  dsimp only
  rw [if_neg (by omega), clock, done]
  cases command.readsClock <;> rfl

theorem performs_of_onStore {now : Instant} {store after : Store} {command : Command}
    {run : Store → Except Fault (Store × Bytes)} (named : toUpper (args.headD []) = command.name)
    (arity : command.minArgs ≤ args.length) (handler : ∀ (state : HandlerState) (forked : Bool),
      command.handler state now forked (-1) false args = state.onStore (run state.store))
    (done : ∃ reply, run store = .ok (after, reply)) : Performs now args store after := by
  obtain ⟨reply, done⟩ := done
  refine performs_of_handler named arity fun state forked stored _ => ⟨reply, ?_⟩
  rw [handler, stored, done]
  rfl

inductive PerformsAll (now : Instant) : List (List Bytes) → Store → Store → Prop
  | nil {store : Store} : PerformsAll now [] store store
  | cons {args : List Bytes} {rest : List (List Bytes)} {store middle last : Store} :
      Performs now args store middle → PerformsAll now rest middle last →
      PerformsAll now (args :: rest) store last

namespace PerformsAll

theorem single {after : Store} (performs : Performs now args store after) :
    PerformsAll now [args] store after :=
  .cons performs .nil

theorem append {first second : List (List Bytes)} {middle : Store}
    (left : PerformsAll now first store middle) (right : PerformsAll now second middle last) :
    PerformsAll now (first ++ second) store last := by
  induction left with
  | nil => exact right
  | cons performs _ ih => exact .cons performs (ih right)

end PerformsAll

namespace CommandContext

theorem step_performs {after : Store} (raw : Bytes) (performs : Performs now args ctx.store after)
    (admits : ctx.Admits (-1)) (free : ctx.NobodyBlocked) (clock : ∀ tick, ctx.clock tick = now) :
    ∃ next effect, ctx.step (-1) false args raw = .ok (next, .normal, effect) ∧
      next.store = after ∧ Keeps ctx next ∧ ∀ tick, next.clock tick = now := by
  obtain ⟨known, runs⟩ := performs
  obtain ⟨ticks, reply, handled⟩ := runs ctx.toHandlerState rfl free clock
  obtain ⟨next, effect, stepped, stored, time, kept, -⟩ := step_stored raw admits known handled
  exact ⟨next, effect, stepped, stored, kept, by rw [time]; exact clock⟩

theorem inputRun_performs (performs : PerformsAll now commands ctx.store last)
    (admits : ctx.Admits (-1)) (free : ctx.NobodyBlocked) (clock : ∀ tick, ctx.clock tick = now) :
    ∃ final observations,
      Run.run (inputStep (-1) false) ctx (commands.map (ofArgs (-1))) =
        .ok (final, observations) ∧
      (∀ observation ∈ observations, observation.state = .normal) ∧ final.store = last := by
  induction commands generalizing ctx with
  | nil =>
    cases performs
    exact ⟨ctx, [], rfl, by simp, rfl⟩
  | cons args commands ih =>
    obtain _ | ⟨first, later⟩ := performs
    obtain ⟨next, effect, taken, stored, keeps, time⟩ :=
      step_performs (ofArgs (-1) args).raw first admits free clock
    rw [← stored] at later
    obtain ⟨final, observations, rest, normal, reached⟩ :=
      ih later (keeps.admits (-1) admits) (keeps.nobodyBlocked free) time
    refine ⟨final, ⟨.normal, effect⟩ :: observations, ?_, ?_, reached⟩
    · have turn : ctx.step (-1) false (ofArgs (-1) args).args
          (ofArgs (-1) args).raw = .ok (next, .normal, effect) := taken
      simp only [List.map_cons, Run.run, inputStep, turn, rest]
    · intro observation member
      rcases List.mem_cons.mp member with rfl | member
      · rfl
      · exact normal observation member

theorem process_performs (performs : PerformsAll now commands ctx.store last)
    (sized : ∀ args ∈ commands, Encodable args) (admits : ctx.Admits (-1))
    (free : ctx.NobodyBlocked)
    (clock : ∀ tick, ctx.clock tick = now) :
    ∃ after reply, ctx.process (commands.flatMap encodeArray) = .ok (after, reply) ∧
      after.store = last := by
  obtain ⟨final, observations, ran, normal, reached⟩ :=
    inputRun_performs performs admits free clock
  have whole : ∀ request ∈ commands.map (ofArgs (-1)), request.Whole :=
    List.forall_mem_map.mpr fun args present => ofArgs_whole (-1) (sized args present)
  have text : (commands.map (ofArgs (-1))).flatMap raw =
      commands.flatMap encodeArray := by
    simp only [List.flatMap_map, ofArgs]
  have looped := processLoop_whole whole ran normal (requests_length_le _ whole)
  rw [text] at looped
  refine ⟨final, (observations.map Observation.effect).flatMap Effect.reply, ?_, reached⟩
  rw [process, processWithFd, fetchOutput, if_neg Bool.false_ne_true]
  dsimp only
  rw [looped]
  rfl

end CommandContext

section Commands

variable {store : Store} {now : Instant} {key : Key}

theorem set_performs (absent : store.data.lookup key = none) (text : Bytes) {options : List Bytes}
    {ttlMs : Option Nat} (read : setOptions options none = .ok ttlMs) :
    ∃ after, Performs now (ascii "SET" :: key :: text :: options) store after ∧
      Gains key ⟨.string text, Store.expiryAfter now.steady ttlMs⟩ store after := by
  refine ⟨_, ?_, .ofTouches (Store.touchKey_touches store key) _⟩
  refine @performs_of_onStore _ _ _ _ .set
    (fun store => handleSet store now.steady (ascii "SET" :: key :: text :: options))
    (by rw [List.headD_cons]; decide) (by simp [Command.minArgs]) (fun _ _ => rfl) ⟨respOk, ?_⟩
  simp only [handleSet, read, Store.setIfValidType, absent]

theorem setOptions_millis (millis : Nat) (bound : millis < 2 ^ 64) :
    setOptions [ascii "PX", intText millis] none = .ok (some millis) := by
  have read : parseUInt64 (intText millis) = some millis := by
    show (parseNat (natText millis)).filter _ = some millis
    rw [parseNat_natText, Option.filter_some, if_pos (by simpa using bound)]
  have upper : toUpper (ascii "PX") = ascii "PX" := by decide
  have other : ascii "PX" ≠ ascii "EX" := by decide
  simp [setOptions, read, upper, other]

theorem getOrCreateTyped_found {α : Type} (view : Value → Option α) (make : α → Value) (fresh : α)
    {content : α} (found : store.data.lookup key = some ⟨value, none⟩)
    (viewed : view value = some content) (time : Time) :
    (store.touchKey key).getOrCreateTyped view make fresh time key =
      (store.touchKey key, content, none) := by
  unfold Store.getOrCreateTyped Store.findValidEntry
  rw [Store.touchKey_data, found]
  simp only [Store.isExpired, Bool.false_eq_true, if_false, viewed]

theorem rpush_found (found : store.data.lookup key = some ⟨.list items, none⟩) (value : Bytes)
    (time : Time) :
    Gains key ⟨.list (items ++ [value]), none⟩ store (store.rpush time key value).1 := by
  have list : (store.touchKey key).getOrCreateList time key =
      (store.touchKey key, items, none) := getOrCreateTyped_found Value.list? _ _ found rfl time
  unfold Store.rpush Store.push
  rw [list]
  exact .ofTouches (Store.touchKey_touches store key) _

theorem rpushAll_found (found : store.data.lookup key = some ⟨.list items, none⟩)
    (values : List Bytes) (time : Time) (count : Int) :
    Gains key ⟨.list (items ++ values), none⟩ store (values.foldl
      (fun (state : Store × Int) value => state.1.rpush time key value) (store, count)).1 := by
  induction values generalizing store items count with
  | nil => exact ⟨by rw [List.append_nil]; exact found, fun _ _ => rfl⟩
  | cons value values ih =>
    have pushed := rpush_found found value time
    have rest := ih pushed.here (store.rpush time key value).2
    rw [List.append_assoc, List.singleton_append] at rest
    exact rest.after pushed

theorem rpush_performs (absent : store.data.lookup key = none) {items : List Bytes}
    (filled : items ≠ []) :
    ∃ after, Performs now (ascii "RPUSH" :: key :: items) store after ∧
      Gains key ⟨.list items, none⟩ store after := by
  obtain ⟨value, values, rfl⟩ := List.exists_cons_of_ne_nil filled
  have first : store.rpushIfValidType now.steady key value =
      ((store.touchKey key).put key ⟨.list [value], none⟩, .some 1) := by
    unfold Store.rpushIfValidType Store.pushIfValidType
    rw [absent]
    rfl
  have created : Gains key ⟨.list [value], none⟩ store
      ((store.touchKey key).put key ⟨.list [value], none⟩) :=
    .ofTouches (Store.touchKey_touches store key) _
  refine ⟨_, ?_, (rpushAll_found created.here values now.steady 1).after created⟩
  refine @performs_of_onStore _ _ _ _ .rpush
    (fun store => handleRpush store now.steady (ascii "RPUSH" :: key :: value :: values))
    (by rw [List.headD_cons]; decide) (by simp [Command.minArgs]) (fun _ _ => rfl) ?_
  unfold handleRpush handlePush
  simp only [first]
  exact ⟨_, rfl⟩

theorem pairUp_flatMap (fields : List (Bytes × Bytes)) :
    pairUp (fields.flatMap fun field => [field.1, field.2]) = fields := by
  induction fields with
  | nil => rfl
  | cons field fields ih => rw [List.flatMap_cons, List.cons_append, List.cons_append, pairUp,
      List.nil_append, ih]

/-- The stream at the key has these entries; before its first command the key is absent. -/
def StreamHeld (store : Store) (key : Key) (entries : List StreamEntry) : Prop :=
  (store.data.lookup key = none ∧ entries = []) ∨
    store.data.lookup key = some ⟨.stream entries, none⟩

theorem StreamHeld.opened (held : StreamHeld store key entries) (time : Time) :
    ∃ opened, (store.touchKey key).getOrCreateStream time key = (opened, entries, none) ∧
      Gains key ⟨.stream entries, none⟩ store opened := by
  rcases held with ⟨absent, rfl⟩ | found
  · refine ⟨_, ?_, .ofTouches (Store.touchKey_touches store key) _⟩
    unfold Store.getOrCreateStream Store.getOrCreateTyped Store.findValidEntry
    rw [Store.touchKey_data, absent]
  · exact ⟨store.touchKey key, getOrCreateTyped_found Value.stream? _ _ found rfl time, found,
      fun _ _ => rfl⟩

def acceptable (item : StreamEntry) : Bool := item.parsedId != ⟨0, 0⟩

theorem xadd_held {item : StreamEntry} (held : StreamHeld store key entries)
    (read : StreamId.parse item.id = some item.parsedId)
    (above : ∀ other ∈ entries, StreamId.lt other.parsedId item.parsedId = true) :
    Gains key ⟨.stream (entries ++ [item].filter acceptable), none⟩ store
      (store.xadd now key item.id item.fields).1 := by
  obtain ⟨opened, created, gains⟩ := held.opened now.steady
  unfold Store.xadd
  rw [created]
  dsimp only
  rw [Store.chooseId_plain read]
  dsimp only
  by_cases zero : item.parsedId = ⟨0, 0⟩
  · rw [if_pos (by rw [zero]; exact ⟨rfl, rfl⟩)]
    simpa [acceptable, zero] using gains
  have later : (entries.getLast?.any fun last =>
      !StreamId.lt last.parsedId item.parsedId) = false := by
    cases final : entries.getLast? with
    | none => rfl
    | some last => simp [above last (List.mem_of_getLast? final)]
  have taken : [item].filter acceptable = [item] := by simp [acceptable, zero]
  rw [taken, if_neg fun both => zero (congrArg₂ StreamId.mk both.1 both.2), later,
    if_neg (by decide)]
  exact ⟨Store.put_lookup _ _ _, fun other different =>
    (Store.put_lookup_ne _ _ different).trans (gains.others other different)⟩

theorem StreamHeld.free (held : StreamHeld store key entries) (time : Time) :
    Store.holdsOther Value.stream? store time key = false := by
  rcases held with ⟨absent, -⟩ | found
  · rw [Store.holdsOther, Store.liveEntry, absent]
    rfl
  · rw [Store.holdsOther, Store.liveEntry, found]
    rfl

theorem handleXaddWithBlocking_held {entries : List StreamEntry} {item : StreamEntry}
    (held : StreamHeld store key entries) (manager : Option BlockingManager)
    (free : ∀ blocking, manager = some blocking → blocking.queue key = []) :
    ∃ reply, handleXaddWithBlocking store manager now
      (ascii "XADD" :: key :: item.id :: item.fields.flatMap fun field => [field.1, field.2]) =
        .ok ⟨(store.xadd now key item.id item.fields).1, manager, false, reply, []⟩ := by
  have even : (item.fields.flatMap fun field => [field.1, field.2]).length % 2 = 0 := by
    simp [List.length_flatMap]
  simp only [handleXaddWithBlocking, even, ne_eq, not_true_eq_false, if_false, pairUp_flatMap,
    Store.xaddIfValidType_free (held.free now.steady)]
  split
  · exact ⟨_, rfl⟩
  cases manager with
  | none => exact ⟨_, rfl⟩
  | some blocking =>
    simp only [free blocking rfl, List.length_nil, wakeStreamClients]
    exact ⟨_, rfl⟩

def xaddCommand (key : Key) (item : StreamEntry) : List Bytes :=
  ascii "XADD" :: key :: item.id :: item.fields.flatMap fun field => [field.1, field.2]

theorem xadd_performs {entries : List StreamEntry} {item : StreamEntry}
    (held : StreamHeld store key entries) (filled : item.fields ≠ [])
    (read : StreamId.parse item.id = some item.parsedId)
    (above : ∀ other ∈ entries, StreamId.lt other.parsedId item.parsedId = true) :
    ∃ after, Performs now (xaddCommand key item) store after ∧
      Gains key ⟨.stream (entries ++ [item].filter acceptable), none⟩ store after := by
  obtain ⟨field, fields, filled⟩ := List.exists_cons_of_ne_nil filled
  refine ⟨(store.xadd now key item.id item.fields).1, ?_, xadd_held held read above⟩
  refine @performs_of_handler _ _ _ _ .xadd (by rw [xaddCommand, List.headD_cons]; decide)
    (by simp [Command.minArgs, xaddCommand, filled]) fun state forked stored free => ?_
  obtain ⟨reply, done⟩ := @handleXaddWithBlocking_held store now key entries item held
    state.blockingManager (free key)
  refine ⟨reply, ?_⟩
  simp only [Command.handler, HandlerState.onBlocking, stored, xaddCommand, done, ne_eq,
    not_true_eq_false, false_and, if_false, Bool.false_eq_true]

theorem xaddAll_performs (rest : List StreamEntry) {seen : List StreamEntry}
    (ordered : StreamOrdered (seen ++ rest)) (filled : ∀ item ∈ rest, item.fields ≠ [])
    (held : StreamHeld store key (seen.filter acceptable)) :
    ∃ after, PerformsAll now (rest.map (xaddCommand key)) store after ∧
      (rest ≠ [] → Gains key ⟨.stream ((seen ++ rest).filter acceptable), none⟩ store after) := by
  induction rest generalizing store seen with
  | nil => exact ⟨store, .nil, fun given => absurd rfl given⟩
  | cons item rest ih =>
    have above : ∀ other ∈ seen.filter acceptable,
        StreamId.lt other.parsedId item.parsedId = true := fun other inside =>
      (List.pairwise_append.mp ordered.ascending).2.2 other (List.mem_of_mem_filter inside) item
        (by simp)
    obtain ⟨middle, performs, gains⟩ := @xadd_performs store now key _ item held
      (filled item (by simp)) (ordered.parses item (by simp)) above
    rw [← List.filter_append] at gains
    rw [← List.singleton_append, ← List.append_assoc] at ordered ⊢
    obtain ⟨after, later, final⟩ := ih ordered
      (fun other inside => filled other (by simp [inside])) (.inr gains.here)
    refine ⟨after, .cons performs later, fun _ => ?_⟩
    cases rest with
    | nil =>
      cases later
      rwa [List.append_nil]
    | cons next rest => exact (final (by simp)).after gains

def ScoredMember.Printable (item : ScoredMember) : Prop :=
  Double.parse (Double.formatGeneral 17 item.1) = some item.1

theorem zadd_found {set : SortedSet} (found : store.data.lookup key = some ⟨.zset set, none⟩)
    (item : ScoredMember) (time : Time) :
    Gains key ⟨.zset (set.add item.1 item.2).1, none⟩ store
      (store.zadd time key item.1 item.2).1 := by
  have held : (store.touchKey key).getOrCreateZset time key =
      (store.touchKey key, set, none) := getOrCreateTyped_found Value.zset? _ _ found rfl time
  unfold Store.zadd
  rw [held]
  exact .ofTouches (Store.touchKey_touches store key) _

theorem zaddPairs_found (items : List ScoredMember) {set : SortedSet}
    (found : store.data.lookup key = some ⟨.zset set, none⟩)
    (printable : ∀ item ∈ items, item.Printable) (time : Time) (added : Int) :
    ∃ after reply, zaddPairs time key
        (items.flatMap fun item => [Double.formatGeneral 17 item.1, item.2]) store added =
          .ok (after, reply) ∧
      Gains key ⟨.zset (items.foldl (fun set item => (set.add item.1 item.2).1) set), none⟩ store
        after := by
  induction items generalizing store set added with
  | nil => exact ⟨store, _, rfl, found, fun _ _ => rfl⟩
  | cons item items ih =>
    have gains := zadd_found found item time
    obtain ⟨after, reply, later, final⟩ := ih gains.here
      (fun other inside => printable other (by simp [inside]))
      (added + (store.zadd time key item.1 item.2).2)
    refine ⟨after, reply, ?_, final.after gains⟩
    rw [List.flatMap_cons, List.cons_append, List.cons_append, List.nil_append, zaddPairs,
      printable item (by simp)]
    exact later

theorem handleZadd_absent (absent : store.data.lookup key = none) (name : Bytes)
    {items : List ScoredMember} (filled : items ≠ [])
    (printable : ∀ item ∈ items, item.Printable) (time : Time) :
    ∃ after reply, handleZadd store time (name :: key ::
        items.flatMap fun item => [Double.formatGeneral 17 item.1, item.2]) =
          .ok (after, reply) ∧
      Gains key ⟨.zset (items.foldl (fun set item => (set.add item.1 item.2).1) SortedSet.empty),
        none⟩ store after := by
  obtain ⟨item, items, rfl⟩ := List.exists_cons_of_ne_nil filled
  rw [List.foldl_cons, List.flatMap_cons, List.cons_append, List.cons_append, List.nil_append]
  generalize made : SortedSet.empty.add item.1 item.2 = created
  have first : store.zaddIfValidType time key item.1 item.2 =
      ((store.touchKey key).put key ⟨.zset created.1, none⟩, .some created.2) := by
    unfold Store.zaddIfValidType
    rw [absent, made]
  have gains := Gains.ofTouches (Store.touchKey_touches store key) ⟨.zset created.1, none⟩
  obtain ⟨after, reply, later, final⟩ := zaddPairs_found items gains.here
    (fun other inside => printable other (by simp [inside])) time created.2
  refine ⟨after, reply, ?_, final.after gains⟩
  rw [handleZadd, printable item (by simp)]
  dsimp only
  rw [first]
  exact later

theorem zadd_performs (absent : store.data.lookup key = none) {items : List ScoredMember}
    (filled : items ≠ []) (printable : ∀ item ∈ items, item.Printable) :
    ∃ after, Performs now (ascii "ZADD" :: key ::
        items.flatMap fun item => [Double.formatGeneral 17 item.1, item.2]) store after ∧
      Gains key ⟨.zset (items.foldl (fun set item => (set.add item.1 item.2).1) SortedSet.empty),
        none⟩ store after := by
  obtain ⟨after, reply, done, gains⟩ :=
    handleZadd_absent absent (ascii "ZADD") filled printable now.steady
  obtain ⟨item, rest, rfl⟩ := List.exists_cons_of_ne_nil filled
  refine ⟨after, ?_, gains⟩
  exact @performs_of_onStore _ _ _ _ .zadd (fun store => handleZadd store now.steady _)
    (by rw [List.headD_cons]; decide) (by simp [Command.minArgs]) (fun _ _ => rfl) ⟨reply, done⟩

end Commands

namespace SortedSet

theorem addAll_spec (rest : List ScoredMember) {set : SortedSet} {seen : List ScoredMember}
    (valid : set.Valid)
    (indexed : ∀ member position, set.memberScores.lookup member = some position ↔
      position ∈ seen ∧ position.2 = member) (numbers : ∀ item ∈ rest, item.IsNumber)
    (distinct : ((seen ++ rest).map Prod.snd).Nodup) :
    (rest.foldl (fun set item => (set.add item.1 item.2).1) set).Valid ∧
      ∀ member position,
        (rest.foldl (fun set item => (set.add item.1 item.2).1) set).memberScores.lookup member =
          some position ↔ position ∈ seen ++ rest ∧ position.2 = member := by
  induction rest generalizing set seen with
  | nil => exact ⟨valid, by simpa using indexed⟩
  | cons item rest ih =>
    obtain ⟨next, here, others, -⟩ := @add_spec set item.1 item.2 valid (numbers item (by simp))
    have fresh : ∀ other ∈ seen, other.2 ≠ item.2 := by
      rw [List.map_append, List.nodup_append] at distinct
      exact fun other inside => distinct.2.2 other.2 (List.mem_map_of_mem inside) item.2 (by simp)
    rw [← List.singleton_append, ← List.append_assoc] at distinct ⊢
    refine ih next (fun member position => ?_)
      (fun other inside => numbers other (by simp [inside])) distinct
    by_cases same : member = item.2
    · subst same
      rw [here, List.mem_append, List.mem_singleton]
      constructor
      · intro found
        cases found
        exact ⟨.inr rfl, rfl⟩
      · rintro ⟨old | rfl, owner⟩
        · exact absurd owner (fresh position old)
        · rfl
    · rw [others member same, indexed, List.mem_append, List.mem_singleton]
      constructor
      · exact fun ⟨old, owner⟩ => ⟨.inl old, owner⟩
      · rintro ⟨old | rfl, owner⟩
        · exact ⟨old, owner⟩
        · exact absurd owner.symm same

theorem Valid.entries_eq {left right : SortedSet} (first : left.Valid) (second : right.Valid)
    (same : ∀ member, left.memberScores.lookup member = right.memberScores.lookup member) :
    left.entries = right.entries := by
  have members : ∀ item, item ∈ left.entries ↔ item ∈ right.entries := by
    intro item
    have one := first.indexed item.2 item
    rw [same, second.indexed] at one
    simpa using one.symm
  refine List.Perm.eq_of_pairwise ?_ first.ascending second.ascending
    ((List.perm_ext_iff_of_nodup first.nodup second.nodup).mpr members)
  intro one other inside present below above
  exact absurd (scoredLt_trans (first.numbers one inside) (second.numbers other present)
    (first.numbers one inside) below above) (scoredLt_irrefl (first.numbers one inside))

theorem Valid.rebuilt {set : SortedSet} (valid : set.Valid) :
    (set.entries.foldl (fun set item => (set.add item.1 item.2).1) empty).entries = set.entries ∧
      ∀ member,
        (set.entries.foldl (fun set item => (set.add item.1 item.2).1) empty).memberScores.lookup
          member = set.memberScores.lookup member := by
  obtain ⟨built, indexed⟩ := @addAll_spec set.entries empty [] empty_valid (by simp [empty])
    valid.numbers valid.members_nodup
  have same : ∀ member,
      (set.entries.foldl (fun set item => (set.add item.1 item.2).1) empty).memberScores.lookup
        member = set.memberScores.lookup member := by
    intro member
    refine Option.ext fun position => ?_
    rw [indexed, List.nil_append, valid.indexed]
  exact ⟨built.entries_eq valid same, same⟩

end SortedSet

def Value.Regular : Value → Prop
  | .string _ => True
  | .list items => items ≠ []
  | .stream entries =>
    entries ≠ [] ∧ StreamOrdered entries ∧ ∀ item ∈ entries, item.fields ≠ []
  | .zset set => set.entries ≠ [] ∧ set.Valid ∧ ∀ item ∈ set.entries, item.Printable

/-- The value without what XADD refuses to take back. -/
def Value.taken : Value → Value
  | .stream entries => .stream (entries.filter acceptable)
  | value => value

/-- The same value; sorted sets agree when they have the same members, scores and order. -/
def Value.Same (left right : Value) : Prop :=
  left = right ∨ ∃ one other, left = .zset one ∧ right = .zset other ∧
    one.entries = other.entries ∧
    ∀ member, one.memberScores.lookup member = other.memberScores.lookup member

namespace Entry

structure Regular (entry : Entry) : Prop where
  value : entry.value.Regular
  expiring : ∀ expiry : Int, entry.expiry = some expiry →
    (∃ text, entry.value = .string text) ∧ expiry ≤ timeMax

/-- The replayed commands leave this entry behind: the time to live is cut to milliseconds. -/
structure Rebuilds (now : Time) (entry restored : Entry) : Prop where
  value : entry.value.taken.Same restored.value
  expiry : restored.expiry =
    entry.expiry.map fun expiry => now + (expiry - now) / 1000000 * 1000000

structure Restores (entry restored : Entry) : Prop where
  value : entry.value.Same restored.value
  expiry : Option.Rel (fun expiry early => early ≤ expiry ∧ expiry < early + 1000000)
    entry.expiry restored.expiry

structure Kept (now : Time) (entry : Entry) : Prop where
  lasting : ∀ expiry : Int, entry.expiry = some expiry → now + 1000000 ≤ expiry
  accepted : ∀ entries, entry.value = .stream entries → ∀ item ∈ entries, item.parsedId ≠ ⟨0, 0⟩

end Entry

theorem addMillis_remaining {now : Int} (early : 0 ≤ now) (future : now < expiry)
    (bound : expiry ≤ timeMax) :
    ∃ millis : Nat, (expiry - now) / 1000000 = millis ∧ millis < 2 ^ 64 ∧
      addMillis now millis = now + millis * 1000000 := by
  have exact64 : ∀ value : Int, 0 ≤ value → value ≤ timeMax → wrap64 value = value := by
    intro value lower upper
    unfold wrap64
    unfold timeMax int64Max at upper
    rw [Int.bmod_eq_of_le] <;> omega
  obtain ⟨millis, whole⟩ : ∃ millis : Nat, (expiry - now) / 1000000 = millis :=
    Int.eq_ofNat_of_zero_le (by omega)
  refine ⟨millis, whole, ?_, ?_⟩
  · unfold timeMax int64Max at bound
    omega
  · unfold addMillis
    rw [exact64 millis (by omega) (by omega), exact64 (millis * 1000000) (by omega) (by omega),
      exact64 _ (by omega) (by omega)]

theorem Entry.live_iff {now : Int} :
    Store.isExpired now entry = false ↔
      ∀ expiry : Int, entry.expiry = some expiry → now < expiry := by
  unfold Store.isExpired
  cases entry.expiry <;> simp

theorem Entry.Regular.persists {expiry : Option Time} (regular : Entry.Regular ⟨value, expiry⟩)
    (other : ∀ text, value ≠ .string text) : expiry = none := by
  cases expiry with
  | none => rfl
  | some expiry =>
    obtain ⟨⟨text, same⟩, -⟩ := regular.expiring expiry rfl
    exact absurd same (other text)

theorem setExpiring_performs (absent : store.data.lookup key = none)
    (early : (0 : Int) ≤ now.steady) (future : now.steady < expiry) (bound : expiry ≤ timeMax)
    (text : Bytes) :
    ∃ after, Performs now [ascii "SET", key, text, ascii "PX",
        intText ((expiry - now.steady) / 1000000)] store after ∧
      Gains key ⟨.string text, some (now.steady + (expiry - now.steady) / 1000000 * 1000000)⟩
        store after := by
  obtain ⟨millis, whole, small, added⟩ := addMillis_remaining early future bound
  have made : Store.expiryAfter now.steady (some millis) =
      some (now.steady + millis * 1000000) := congrArg some added
  rw [whole, ← made]
  exact set_performs absent text (setOptions_millis millis small)

theorem entryCommands_performs (absent : store.data.lookup key = none)
    (early : (0 : Int) ≤ now.steady) (live : Store.isExpired now.steady entry = false)
    (regular : entry.Regular) :
    ∃ after restored, PerformsAll now (entryCommands now.steady key entry) store after ∧
      Gains key restored store after ∧ entry.Rebuilds now.steady restored := by
  obtain ⟨value, expiry⟩ := entry
  cases value with
  | string text =>
    cases expiry with
    | none =>
      obtain ⟨after, performs, gains⟩ := @set_performs store now key absent text [] none rfl
      exact ⟨after, _, .single performs, gains, .inl rfl, rfl⟩
    | some expiry =>
      have future := Entry.live_iff.mp live expiry rfl
      obtain ⟨after, performs, gains⟩ := setExpiring_performs absent early future
        (regular.expiring expiry rfl).2 text
      refine ⟨after, _, ?_, gains, .inl rfl, rfl⟩
      have written : entryCommands now.steady key ⟨.string text, some expiry⟩ =
          [[ascii "SET", key, text, ascii "PX",
            intText ((expiry - now.steady) / 1000000)]] := if_pos future
      rw [written]
      exact .single performs
  | list items =>
    obtain rfl := regular.persists (by simp)
    obtain ⟨after, performs, gains⟩ := @rpush_performs store now key absent items regular.value
    have written : entryCommands now.steady key ⟨.list items, none⟩ =
        [ascii "RPUSH" :: key :: items] := if_neg regular.value
    exact ⟨after, _, by rw [written]; exact .single performs, gains, .inl rfl, rfl⟩
  | stream entries =>
    obtain rfl := regular.persists (by simp)
    obtain ⟨given, ordered, filled⟩ := regular.value
    obtain ⟨after, performs, gains⟩ := @xaddAll_performs store now key entries [] ordered filled
      (.inl ⟨absent, rfl⟩)
    exact ⟨after, _, performs, gains given, .inl rfl, rfl⟩
  | zset set =>
    obtain rfl := regular.persists (by simp)
    obtain ⟨given, valid, printable⟩ := regular.value
    obtain ⟨after, performs, gains⟩ := @zadd_performs store now key absent _ given printable
    have written : entryCommands now.steady key ⟨.zset set, none⟩ =
        [ascii "ZADD" :: key ::
          set.entries.flatMap fun item => [Double.formatGeneral 17 item.1, item.2]] :=
      if_neg given
    obtain ⟨same, scores⟩ := valid.rebuilt
    exact ⟨after, _, by rw [written]; exact .single performs, gains,
      .inr ⟨set, _, rfl, rfl, same.symm, fun member => (scores member).symm⟩, rfl⟩

theorem Value.same_iff {restored : Value} (taken : value.taken.Same restored) :
    value.Same restored ↔
      ∀ entries, value = .stream entries → ∀ item ∈ entries, item.parsedId ≠ ⟨0, 0⟩ := by
  cases value with
  | stream entries =>
    obtain rfl : .stream (entries.filter acceptable) = restored := by
      rcases taken with same | ⟨_, _, other, -⟩
      · exact same
      · cases other
    have whole : Value.Same (.stream entries) (.stream (entries.filter acceptable)) ↔
        entries.filter acceptable = entries := by
      constructor
      · rintro (same | ⟨_, _, other, -⟩)
        · exact (Value.stream.inj same).symm
        · cases other
      · exact fun same => .inl (congrArg Value.stream same.symm)
    rw [whole, List.filter_eq_self]
    simp [acceptable]
  | string text => exact ⟨fun _ _ other => (by cases other), fun _ => taken⟩
  | list items => exact ⟨fun _ _ other => (by cases other), fun _ => taken⟩
  | zset set => exact ⟨fun _ _ other => (by cases other), fun _ => taken⟩

theorem cut_spec (now expiry : Int) :
    now + (expiry - now) / 1000000 * 1000000 ≤ expiry ∧
      expiry < now + (expiry - now) / 1000000 * 1000000 + 1000000 ∧
      (now < now + (expiry - now) / 1000000 * 1000000 ↔ now + 1000000 ≤ expiry) := by
  omega

theorem Entry.Rebuilds.restores_iff {now : Time} {restored : Entry}
    (rebuilds : entry.Rebuilds now restored) :
    Store.isExpired now restored = false ∧ entry.Restores restored ↔ entry.Kept now := by
  have near : Option.Rel (fun expiry early => early ≤ expiry ∧ expiry < early + 1000000)
      entry.expiry restored.expiry := by
    rw [rebuilds.expiry]
    cases entry.expiry with
    | none => exact .none
    | some expiry => exact .some ⟨(cut_spec now expiry).1, (cut_spec now expiry).2.1⟩
  have ready : Store.isExpired now restored = false ↔
      ∀ expiry : Int, entry.expiry = some expiry → now + 1000000 ≤ expiry := by
    rw [Entry.live_iff, rebuilds.expiry]
    cases entry.expiry with
    | none => simp
    | some expiry =>
      simp only [Option.map_some, Option.some.injEq, forall_eq']
      exact (cut_spec now expiry).2.2
  have same := Value.same_iff rebuilds.value
  exact ⟨fun ⟨live, restores⟩ => ⟨ready.mp live, same.mp restores.value⟩,
    fun kept => ⟨ready.mpr kept.lasting, same.mpr kept.accepted, near⟩⟩

namespace Store

theorem mem_validEntries {now : Time} :
    (key, entry) ∈ store.validEntries now ↔ store.liveEntry now key = some entry := by
  have ready : entry.expiry.all (now < ·) = !isExpired now entry := by
    unfold isExpired
    cases entry.expiry with
    | none => rfl
    | some expiry => exact (decide_eq_decide.mpr not_le.symm).trans decide_not
  unfold validEntries liveEntry
  rw [List.mem_filter, ready, Option.filter_eq_some_iff, ← Option.mem_def, AList.mem_lookup_iff]
  simp

theorem validEntries_keys_nodup (store : Store) (now : Time) :
    ((store.validEntries now).map Prod.fst).Nodup := by
  refine List.Nodup.sublist (List.Sublist.map _ List.filter_sublist) ?_
  rw [List.map_map]
  exact store.data.nodupKeys

end Store

theorem snapshot_performs {now : Instant} (early : (0 : Int) ≤ now.steady)
    (items : List (Key × Entry)) {store : Store} (distinct : (items.map Prod.fst).Nodup)
    (absent : ∀ item ∈ items, store.data.lookup item.1 = none)
    (live : ∀ item ∈ items, Store.isExpired now.steady item.2 = false)
    (regular : ∀ item ∈ items, item.2.Regular) :
    ∃ after,
      PerformsAll now (items.flatMap fun item => entryCommands now.steady item.1 item.2) store
        after ∧
      (∀ item ∈ items, ∃ restored, after.data.lookup item.1 = some restored ∧
        item.2.Rebuilds now.steady restored) ∧
      ∀ key, key ∉ items.map Prod.fst → after.data.lookup key = store.data.lookup key := by
  induction items generalizing store with
  | nil => exact ⟨store, .nil, by simp, fun _ _ => rfl⟩
  | cons item items ih =>
    rw [List.map_cons, List.nodup_cons] at distinct
    obtain ⟨fresh, distinct⟩ := distinct
    obtain ⟨middle, restored, first, gains, rebuilds⟩ := entryCommands_performs
      (absent item (by simp)) early (live item (by simp)) (regular item (by simp))
    have elsewhere : ∀ other ∈ items, other.1 ≠ item.1 := by
      rintro other inside same
      exact fresh (same ▸ List.mem_map_of_mem inside)
    obtain ⟨after, later, found, others⟩ := @ih middle distinct
      (fun other inside => (gains.others other.1 (elsewhere other inside)).trans
        (absent other (by simp [inside])))
      (fun other inside => live other (by simp [inside]))
      (fun other inside => regular other (by simp [inside]))
    refine ⟨after, first.append later, ?_, fun key outside => ?_⟩
    · intro other inside
      rcases List.mem_cons.mp inside with rfl | inside
      · exact ⟨restored, (others other.1 fresh).trans gains.here, rebuilds⟩
      · exact found other inside
    · rw [List.map_cons, List.mem_cons, not_or] at outside
      exact (others key outside.2).trans (gains.others key outside.1)

theorem liveEntry_restores_iff {now : Time} (found : ∀ entry, store.liveEntry now key = some entry →
      ∃ restored, last.data.lookup key = some restored ∧ entry.Rebuilds now restored)
    (others : store.liveEntry now key = none → last.data.lookup key = none) :
    Option.Rel Entry.Restores (store.liveEntry now key) (last.liveEntry now key) ↔
      ∀ entry, store.liveEntry now key = some entry → entry.Kept now := by
  cases held : store.liveEntry now key with
  | none =>
    have gone : last.liveEntry now key = none := by
      unfold Store.liveEntry
      rw [others held]
      rfl
    rw [gone]
    exact ⟨fun _ entry other => (by cases other), fun _ => .none⟩
  | some entry =>
    obtain ⟨restored, there, rebuilds⟩ := found entry held
    have seen : last.liveEntry now key =
        if Store.isExpired now restored = false then some restored else none := by
      unfold Store.liveEntry
      rw [there]
      cases expired : Store.isExpired now restored <;> simp [expired]
    simp only [Option.some.injEq, forall_eq', ← rebuilds.restores_iff, seen]
    split
    · rename_i ready
      exact ⟨fun related => by cases related; exact ⟨ready, by assumption⟩,
        fun both => .some both.2⟩
    · rename_i gone
      exact ⟨fun related => (by cases related), fun both => absurd both.1 gone⟩

theorem flatMap_length_le {encode : Bytes → Bytes}
    (grows : ∀ arg, arg.length < (encode arg).length) :
    args.length ≤ (args.flatMap encode).length ∧
      ∀ arg ∈ args, arg.length ≤ (args.flatMap encode).length := by
  induction args with
  | nil => simp
  | cons first args ih =>
    have longer := grows first
    rw [List.flatMap_cons, List.length_append, List.length_cons]
    refine ⟨by omega, fun arg inside => ?_⟩
    rcases List.mem_cons.mp inside with rfl | inside
    · omega
    · have := ih.2 arg inside
      omega

theorem sized_of_written (complete : (encodeRespCommand args).length < 2 ^ 31) :
    Encodable args := by
  have content := @flatMap_length_le args
    (fun arg => ascii "$" ++ natText arg.length ++ crlf ++ arg ++ crlf) (fun arg => by
      simp only [List.length_append, ascii, crlf]
      simp
      omega)
  unfold encodeRespCommand at complete
  rw [List.length_append] at complete
  exact ⟨by omega, fun arg inside => by have := content.2 arg inside; omega⟩

namespace CommandContext

/-- The text of a snapshot, in any order of its entries, gives a handler over an empty
keyspace the live entries again exactly when each has a millisecond left to live and no
stream entry is 0-0. -/
theorem snapshot_restores_iff {ctx : CommandContext} {now : Instant} {store visited : Store}
    (empty : ctx.store = Store.empty) (admits : ctx.Admits (-1)) (free : ctx.NobodyBlocked)
    (clock : ∀ tick, ctx.clock tick = now) (early : (0 : Int) ≤ now.steady)
    (order : visited.data.entries.Perm store.data.entries)
    (regular : ∀ key entry, store.liveEntry now.steady key = some entry → entry.Regular)
    (complete : ∀ item ∈ visited.validEntries now.steady,
      ∀ args ∈ entryCommands now.steady item.1 item.2, (encodeRespCommand args).length < 2 ^ 31) :
    (∃ after reply, ctx.process (rewriteChildMain visited now.steady) = .ok (after, reply) ∧
      ∀ key, Option.Rel Entry.Restores (store.liveEntry now.steady key)
        (after.store.liveEntry now.steady key)) ↔
    ∀ key entry, store.liveEntry now.steady key = some entry → entry.Kept now.steady := by
  have visits : ∀ key, visited.liveEntry now.steady key = store.liveEntry now.steady key := by
    intro key
    unfold Store.liveEntry
    rw [AList.perm_lookup order]
  have listed : ∀ item ∈ visited.validEntries now.steady,
      store.liveEntry now.steady item.1 = some item.2 := by
    intro item inside
    rw [← visits]
    exact Store.mem_validEntries.mp inside
  obtain ⟨last, performs, found, others⟩ := @snapshot_performs now early
    (visited.validEntries now.steady) ctx.store (visited.validEntries_keys_nodup now.steady)
    (fun item _ => by rw [empty]; rfl)
    (fun item inside => by
      have live := (Option.filter_eq_some_iff.mp (listed item inside)).2
      simpa using live)
    (fun item inside => regular item.1 item.2 (listed item inside))
  obtain ⟨final, response, processed, reached⟩ := process_performs performs
    (fun args inside => by
      obtain ⟨item, visited, inside⟩ := List.mem_flatMap.mp inside
      exact sized_of_written (complete item visited args inside)) admits free clock
  have text : rewriteChildMain visited now.steady =
      ((visited.validEntries now.steady).flatMap fun item =>
        entryCommands now.steady item.1 item.2).flatMap encodeArray := by
    rw [rewriteChildMain, List.flatMap_assoc, funext encodeRespCommand_eq]
  rw [← text] at processed
  have each : ∀ key, Option.Rel Entry.Restores (store.liveEntry now.steady key)
        (final.store.liveEntry now.steady key) ↔
      ∀ entry, store.liveEntry now.steady key = some entry → entry.Kept now.steady := by
    intro key
    rw [reached, ← visits]
    refine liveEntry_restores_iff (fun entry held => ?_) (fun gone => ?_)
    · exact found (key, entry) (Store.mem_validEntries.mpr held)
    · rw [others key ?_, empty]
      · rfl
      · rintro inside
        obtain ⟨⟨_, entry⟩, visited, rfl⟩ := List.mem_map.mp inside
        rw [Store.mem_validEntries.mp visited] at gone
        cases gone
  constructor
  · rintro ⟨after, reply, ran, restored⟩
    rw [processed] at ran
    cases ran
    exact fun key => (each key).mp (restored key)
  · exact fun kept => ⟨final, response, processed, fun key => (each key).mpr (kept key)⟩

def replayer (now : Instant) : CommandContext :=
  fresh Store.empty ⟨none, [], [], []⟩ (fun _ => now) fun _ => false

def mixedStore : Store :=
  (((Store.empty.put (ascii "text") ⟨.string (ascii "v"), some 2500000⟩).put (ascii "list")
    ⟨.list [ascii "a", ascii "b"], none⟩).put (ascii "stream")
    ⟨.stream [⟨ascii "1-1", ⟨1, 1⟩, [(ascii "f", ascii "v")]⟩], none⟩).put (ascii "zset")
    ⟨.zset (SortedSet.empty.add 1 (ascii "m")).1, none⟩

theorem liveEntry_put {now : Time} {other : Key} {found : Entry}
    (held : (store.put key entry).liveEntry now other = some found) :
    found = entry ∨ store.liveEntry now other = some found := by
  unfold Store.liveEntry at held ⊢
  by_cases same : other = key
  · subst same
    rw [Store.put_lookup, Option.filter_eq_some_iff] at held
    exact .inl (Option.some.inj held.1).symm
  · rw [Store.put_lookup_ne _ _ same] at held
    exact .inr held

theorem mixedStore_entry (held : mixedStore.liveEntry 0 key = some entry) :
    entry = ⟨.zset (SortedSet.empty.add 1 (ascii "m")).1, none⟩ ∨
      entry = ⟨.stream [⟨ascii "1-1", ⟨1, 1⟩, [(ascii "f", ascii "v")]⟩], none⟩ ∨
      entry = ⟨.list [ascii "a", ascii "b"], none⟩ ∨
      entry = ⟨.string (ascii "v"), some 2500000⟩ := by
  rcases liveEntry_put held with same | held
  · exact .inl same
  rcases liveEntry_put held with same | held
  · exact .inr (.inl same)
  rcases liveEntry_put held with same | held
  · exact .inr (.inr (.inl same))
  rcases liveEntry_put held with same | held
  · exact .inr (.inr (.inr same))
  · cases held

theorem mixedStore_restored :
    ∃ after reply,
      (replayer ⟨0, 0⟩).process (rewriteChildMain mixedStore 0) = .ok (after, reply) ∧
      ∀ key, Option.Rel Entry.Restores (mixedStore.liveEntry 0 key)
        (after.store.liveEntry 0 key) := by
  refine (@snapshot_restores_iff (replayer ⟨0, 0⟩) ⟨0, 0⟩ mixedStore mixedStore rfl
    (fresh_admits _ _ _) (fun _ _ absent => by cases absent) (fun _ => rfl) (Int.le_refl 0)
    (.refl _)
    ?_ (by decide +kernel)).mpr ?_
  · intro key entry held
    have set := @SortedSet.add_spec SortedSet.empty 1 (ascii "m") SortedSet.empty_valid
      (by decide +kernel)
    have one : (SortedSet.empty.add 1 (ascii "m")).1.entries = [(1, ascii "m")] := rfl
    have printable : ScoredMember.Printable (1, ascii "m") := rfl
    rcases mixedStore_entry held with rfl | rfl | rfl | rfl
    · exact ⟨⟨by rw [one]; simp, set.1, by rw [one]; simpa using printable⟩, by simp⟩
    · refine ⟨⟨by simp, ⟨by simp, ?_⟩, by simp⟩, by simp⟩
      simp only [List.mem_singleton, forall_eq]
      decide
    · exact ⟨by simp [Value.Regular], by simp⟩
    · exact ⟨trivial, by simp [timeMax, int64Max]⟩
  · intro key entry held
    rcases mixedStore_entry held with rfl | rfl | rfl | rfl
    · exact ⟨by simp, by simp⟩
    · exact ⟨by simp, by simp⟩
    · exact ⟨by simp, by simp⟩
    · exact ⟨by simp, by simp⟩

def fleetingStore : Store :=
  Store.empty.put (ascii "k") ⟨.string (ascii "v"), some 500000⟩

theorem fleetingStore_lost :
    fleetingStore.liveEntry 0 (ascii "k") = some ⟨.string (ascii "v"), some 500000⟩ ∧
      rewriteChildMain fleetingStore 0 =
        encodeArray [ascii "SET", ascii "k", ascii "v", ascii "PX", ascii "0"] ∧
      Run.Succeeds ((replayer ⟨0, 0⟩).process (rewriteChildMain fleetingStore 0)) fun run =>
        (run.1.store.liveEntry 0 (ascii "k")).isNone := by
  refine ⟨rfl, ?_, ?_⟩
  · decide +kernel
  · decide +kernel

end CommandContext

end Credis
