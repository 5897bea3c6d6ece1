import Credis.BlockingChecks
import Credis.DispatchChecks

/-! Pushes that wake blocked clients. The waiting clients, the list and the values
handed over are taken together as a line, on which a push works as it does on the
keyspace and the manager. -/

namespace Credis

open ByteString Store List

variable {value : Bytes} {waiting : List BlockedClient}

namespace Store

def foundList (store : Store) (now : Time) (key : Key) : Option (List Bytes) :=
  match store.liveValue now key with
  | none => some []
  | some (.list items) => some items
  | some _ => none

section Lists

variable {store : Store} {now : Time} {key : Key} {items : List Bytes}

theorem foundList_put (store : Store) (now : Time) (key : Key) (items : List Bytes)
    {expiry : Option Time} (live : isExpired now ⟨.list items, expiry⟩ = false) :
    (store.put key ⟨.list items, expiry⟩).foundList now key = some items := by
  rw [foundList, liveValue, liveEntry, put_lookup, Option.filter_some, live]
  rfl

theorem foundList_some (found : store.foundList now key = some items) :
    holdsOther Value.list? store now key = false ∧
      (content Value.list? (store.liveEntry now key)).getD [] = items := by
  unfold foundList liveValue at found
  unfold holdsOther
  cases live : store.liveEntry now key with
  | none =>
    rw [live] at found
    cases found
    exact ⟨rfl, rfl⟩
  | some entry =>
    obtain ⟨value, expiry⟩ := entry
    rw [live] at found
    cases value with
    | list _ =>
      cases found
      exact ⟨rfl, rfl⟩
    | string _ | stream _ | zset _ => cases found

theorem foundList_none (other : store.foundList now key = none) :
    holdsOther Value.list? store now key = true := by
  unfold foundList liveValue at other
  unfold holdsOther
  cases live : store.liveEntry now key with
  | none =>
    rw [live] at other
    cases other
  | some entry =>
    obtain ⟨value, expiry⟩ := entry
    rw [live] at other
    cases value with
    | list _ => cases other
    | string _ | stream _ | zset _ => rfl

theorem pushIfValidType_list {place : List Bytes → Bytes → List Bytes}
    (single : (place [] value).length = 1) (found : store.foundList now key = some items) :
    ∃ after count, pushIfValidType place store now key value = (after, some count) ∧
      after.foundList now key = some (place items value) := by
  obtain ⟨free, rfl⟩ := foundList_some found
  exact ⟨_, _, (pushIfValidType_acts now key place value single).free free,
    foundList_put _ _ _ _ (expiryOf_live store now key _)⟩

theorem push_list (place : List Bytes → Bytes → List Bytes) (value : Bytes)
    (found : store.foundList now key = some items) :
    (push place store now key value).1.foundList now key = some (place items value) := by
  obtain ⟨-, rfl⟩ := foundList_some found
  have pushed := push_acts now key place value store
  dsimp only at pushed
  rw [pushed]
  exact foundList_put _ _ _ _ (expiryOf_live store now key _)

theorem lpopCount_cons (found : store.foundList now key = some (value :: items)) :
    ∃ after, store.lpopCount now key 1 = (after, [value]) ∧
      after.foundList now key = some items := by
  obtain ⟨-, content⟩ := foundList_some found
  have popped := popMany_acts now key takeFront 1 store
  have one : (min 1 ((value :: items).length : Int)).toNat = 1 := by
    rw [length_cons]
    omega
  cases held : Store.content Value.list? (store.liveEntry now key) with
  | none =>
    rw [held] at content
    cases content
  | some list =>
    rw [held, Option.getD_some] at content
    subst content
    simp only [popManyAct, held, reduceCtorEq, false_or, Int.reduceLE, if_false, one, takeMany,
      takeFront] at popped
    exact ⟨_, popped, foundList_put _ _ _ _ (expiryOf_live store now key _)⟩

theorem lpopCount_nil (found : store.foundList now key = some []) :
    ∃ after, store.lpopCount now key 1 = (after, []) ∧ after.foundList now key = some [] := by
  obtain ⟨-, content⟩ := foundList_some found
  have popped := popMany_acts now key takeFront 1 store
  have act : popManyAct takeFront 1 (store.liveEntry now key) = (none, []) := by
    unfold popManyAct
    cases held : Store.content Value.list? (store.liveEntry now key) with
    | none => rfl
    | some list =>
      rw [held] at content
      exact if_pos (.inl content)
  rw [act] at popped
  have kept : (store.actOn now key false (none, ([] : List Bytes))).1.liveValue now key =
      store.liveValue now key :=
    (unexpired_reads store now key).liveValue key
  refine ⟨(store.actOn now key false (none, ([] : List Bytes))).1, popped, ?_⟩
  rw [← found, foundList, kept]
  rfl

end Lists

end Store

structure Line where
  items : List Bytes
  waiting : List BlockedClient
  served : List (BlockedClient × Bytes)

namespace Line

def wake (line : Line) : Line :=
  match line.waiting, line.items with
  | [], _ => line
  | client :: waiting, value :: items => ⟨items, waiting, line.served ++ [(client, value)]⟩
  | _ :: waiting, [] => ⟨[], waiting, line.served⟩

variable (place : List Bytes → Bytes → List Bytes)

def next (line : Line) (value : Bytes) : Line :=
  if line.waiting = [] then { line with items := place line.items value } else line.wake

def push (items : List Bytes) (waiting : List BlockedClient) (value : Bytes)
    (values : List Bytes) : Line :=
  values.foldl (next place) (wake ⟨place items value, waiting, []⟩)

structure Shows (now : Time) (key : Key) (state : PushState) (line : Line) : Prop where
  items : state.store.foundList now key = some line.items
  waiting : ∃ manager, state.manager = some manager ∧ manager.queue key = line.waiting
  served : state.sends =
    line.served.map fun item => (item.1.fd, encodeArray [key, item.2])

variable {place} {now : Time} {key : Key} {state : PushState} {line : Line}

theorem queue_wakeClient {manager : BlockingManager} {client : BlockedClient}
    (queue : manager.queue key = client :: waiting) :
    ∃ after, manager.wakeClient key = (after, some client) ∧ after.queue key = waiting := by
  unfold BlockingManager.wakeClient
  rw [queue]
  refine ⟨_, rfl, ?_⟩
  rw [BlockingManager.queue_setQueue, if_pos rfl]

theorem tryWake_shows (shows : Shows now key state line) :
    Shows now key (tryWake now key state).1 line.wake ∧
      ((tryWake now key state).2 = true ↔ line.waiting ≠ []) := by
  obtain ⟨found, ⟨manager, attached, queue⟩, sends⟩ := shows
  obtain ⟨items, waiting, served⟩ := line
  unfold tryWake
  rw [attached]
  cases waiting with
  | nil =>
    have absent : manager.wakeClient key = (manager, none) := by
      unfold BlockingManager.wakeClient
      rw [queue]
    simp only [absent]
    exact ⟨⟨found, ⟨manager, attached, queue⟩, sends⟩, by simp⟩
  | cons client waiting =>
    obtain ⟨after, woken, rest⟩ := queue_wakeClient queue
    simp only [woken]
    cases items with
    | nil =>
      obtain ⟨store, popped, left⟩ := lpopCount_nil found
      simp only [popped]
      exact ⟨⟨left, ⟨after, rfl, rest⟩, sends⟩, by simp⟩
    | cons value items =>
      obtain ⟨store, popped, left⟩ := lpopCount_cons found
      simp only [popped]
      refine ⟨⟨left, ⟨after, rfl, rest⟩, ?_⟩, by simp⟩
      simp [wake, sends]

theorem pushStep_shows (value : Bytes) (shows : Shows now key state line) :
    Shows now key (pushStep (Store.push place) now key state value) (line.next place value) := by
  obtain ⟨woken, tells⟩ := tryWake_shows shows
  unfold pushStep next
  generalize tryWake now key state = turn at woken tells ⊢
  obtain ⟨after, flag⟩ := turn
  by_cases empty : line.waiting = []
  · obtain rfl : flag = false := by
      rw [Bool.eq_false_iff, Ne, tells]
      exact fun given => given empty
    rw [wake, empty] at woken
    rw [if_pos empty]
    exact ⟨push_list place value woken.items, woken.waiting, woken.served⟩
  · obtain rfl : flag = true := tells.mpr empty
    rw [if_neg empty]
    exact woken

theorem foldl_shows (values : List Bytes) (shows : Shows now key state line) :
    Shows now key (values.foldl (pushStep (Store.push place) now key) state)
      (values.foldl (next place) line) := by
  induction values generalizing state line with
  | nil => exact shows
  | cons value values ih => exact ih (pushStep_shows value shows)

variable {items : List Bytes} {waiting : List BlockedClient} {value : Bytes} {values : List Bytes}

theorem foldl_next_nil (served : List (BlockedClient × Bytes)) :
    values.foldl (next place) ⟨items, [], served⟩ = ⟨values.foldl place items, [], served⟩ := by
  induction values generalizing items with
  | nil => rfl
  | cons value values ih => exact ih

theorem foldl_place (front : ∀ items value, (place items value).Perm (value :: items)) :
    (values.foldl place items).Perm (items ++ values) := by
  induction values generalizing items with
  | nil =>
    rw [append_nil]
    exact .refl _
  | cons value values ih =>
    have here : (place items value ++ values).Perm (value :: items ++ values) :=
      (front items value).append_right values
    exact ih.trans (here.trans perm_middle.symm)

def size (line : Line) : Nat := line.items.length + line.served.length

theorem wake_size (line : Line) : line.wake.size = line.size := by
  unfold wake size
  split
  · rfl
  · rename_i client waiting value items _ found
    dsimp only
    rw [found, length_cons, length_append, length_singleton]
    omega
  · rename_i found
    rw [found]

theorem next_size (front : ∀ items value, (place items value).Perm (value :: items))
    (line : Line) (value : Bytes) : (line.next place value).size ≤ line.size + 1 := by
  unfold next
  split
  · have longer := (front line.items value).length_eq
    rw [length_cons] at longer
    simp only [size]
    omega
  · rw [wake_size]
    omega

theorem foldl_size (front : ∀ items value, (place items value).Perm (value :: items))
    (line : Line) (values : List Bytes) :
    (values.foldl (next place) line).size ≤ line.size + values.length := by
  induction values generalizing line with
  | nil => exact Nat.le_refl _
  | cons value values ih =>
    have first := next_size front line value
    have later := ih (line.next place value)
    rw [foldl_cons, length_cons]
    omega

theorem push_size {first second : BlockedClient} {other : Bytes}
    (front : ∀ items value, (place items value).Perm (value :: items)) :
    (push place items (first :: second :: waiting) value (other :: values)).size <
      items.length + (value :: other :: values).length := by
  have longer := (front items value).length_eq
  obtain ⟨head, tail, parts⟩ := exists_cons_of_length_eq_add_one longer
  rw [parts, length_cons, length_cons] at longer
  have woken : (wake ⟨place items value, first :: second :: waiting, []⟩) =
      ⟨tail, second :: waiting, [(first, head)]⟩ := by
    rw [parts]
    rfl
  have bound := foldl_size front (wake ⟨tail, second :: waiting, [(first, head)]⟩) values
  rw [wake_size] at bound
  unfold push
  rw [woken, foldl_cons, next, if_neg (by simp)]
  simp only [size, length_cons, length_nil] at bound ⊢
  omega

theorem push_served {first : BlockedClient}
    (front : ∀ items value, (place items value).Perm (value :: items)) :
    ∃ head tail, (head :: tail).Perm (value :: items) ∧
      push place items (first :: waiting) value [] = ⟨tail, waiting, [(first, head)]⟩ := by
  have moved := front items value
  obtain ⟨head, tail, parts⟩ := exists_cons_of_length_eq_add_one moved.length_eq
  rw [parts] at moved
  refine ⟨head, tail, moved, ?_⟩
  unfold push
  rw [parts]
  rfl

end Line

theorem handlePushWithBlocking_shows (place : List Bytes → Bytes → List Bytes)
    (single : ∀ value, (place [] value).length = 1) {store : Store}
    {manager : BlockingManager} {now : Time} {name key value : Bytes} {items values : List Bytes}
    (found : store.foundList now key = some items) :
    ∃ result, handlePushWithBlocking (pushIfValidType place) (push place) store
        (some manager) now (name :: key :: value :: values) = .ok result ∧
      result.blocked = false ∧
      Line.Shows now key ⟨result.store, result.manager, 0, result.sends⟩
        (Line.push place items (manager.queue key) value values) := by
  obtain ⟨after, count, pushed, content⟩ := pushIfValidType_list (single value) found
  have start : Line.Shows now key ⟨after, some manager, count, []⟩
      ⟨place items value, manager.queue key, []⟩ :=
    ⟨content, ⟨manager, rfl, rfl⟩, rfl⟩
  have final := @Line.foldl_shows place _ _ _ _ values (Line.tryWake_shows start).1
  unfold handlePushWithBlocking
  dsimp only
  rw [pushed]
  exact ⟨_, rfl, rfl, final.items, final.waiting, final.served⟩

/-- Nothing is lost: as many clients as there are values are woken, in the order
of the queue and each with one value, and the other values are in the list. -/
def DeliversAll (now : Time) (key : Key) (items pushed : List Bytes)
    (waiting : List BlockedClient) (outcome : Outcome) : Prop :=
  ∃ delivered left manager,
    delivered.length = min waiting.length (items.length + pushed.length) ∧
    outcome.sends =
      (waiting.zip delivered).map (fun item => (item.1.fd, encodeArray [key, item.2])) ∧
    outcome.state.store.foundList now key = some left ∧
    (items ++ pushed).Perm (delivered ++ left) ∧
    outcome.state.blockingManager = some manager ∧
    manager.queue key = waiting.drop delivered.length

theorem pushBack_perm (items : List Bytes) (value : Bytes) :
    (pushBack items value).Perm (value :: items) :=
  perm_append_singleton value items

theorem pushFront_perm (items : List Bytes) (value : Bytes) :
    (pushFront items value).Perm (value :: items) :=
  .refl _

theorem deliversAll_iff {place : List Bytes → Bytes → List Bytes} {now : Time} {key : Bytes}
    {items values : List Bytes} {outcome : Outcome}
    (front : ∀ items value, (place items value).Perm (value :: items)) (shows : Line.Shows now key
      ⟨outcome.state.store, outcome.state.blockingManager, 0, outcome.sends⟩
      (Line.push place items waiting value values)) :
    DeliversAll now key items (value :: values) waiting outcome ↔
      waiting.length ≤ 1 ∨ (values = [] ∧ items = []) := by
  obtain ⟨found, ⟨manager, attached, queue⟩, sends⟩ := shows
  dsimp only at found attached sends
  constructor
  · rintro ⟨delivered, left, -, count, sent, content, moved, -, -⟩
    by_contra fails
    rw [not_or, not_and_or] at fails
    obtain ⟨many, rest⟩ := fails
    have handed : (Line.push place items waiting value values).served.length =
        delivered.length := by
      have lengths := congrArg length (sends.symm.trans sent)
      simp only [length_map, length_zip] at lengths
      omega
    rw [found] at content
    cases content
    have total := moved.length_eq
    simp only [length_append, length_cons] at total count
    rcases waiting with _ | ⟨first, _ | ⟨second, waiting⟩⟩
    · exact many (by simp)
    · exact many (by simp)
    · cases values with
      | nil =>
        obtain ⟨head, tail, -, line⟩ :=
          @Line.push_served place items (second :: waiting) value first front
        have more : items ≠ [] := rest.resolve_left fun fails => fails rfl
        have long := length_pos_iff.mpr more
        rw [line] at handed
        simp only [length_cons, length_nil] at handed count
        omega
      | cons other values =>
        have lost := @Line.push_size place items waiting value values first second other front
        simp only [Line.size, length_cons] at lost total
        omega
  · intro holds
    rcases waiting with _ | ⟨first, _ | ⟨second, waiting⟩⟩
    · have line : Line.push place items [] value values =
          ⟨(value :: values).foldl place items, [], []⟩ :=
        Line.foldl_next_nil []
      rw [line] at found queue sends
      refine ⟨[], _, manager, by simp, sends, found, ?_, attached, queue⟩
      exact (Line.foldl_place front).symm
    · obtain ⟨head, tail, moved, line⟩ := @Line.push_served place items [] value first front
      have whole : Line.push place items [first] value values =
          ⟨values.foldl place tail, [], [(first, head)]⟩ := by
        unfold Line.push at line ⊢
        rw [foldl_nil] at line
        rw [line]
        exact Line.foldl_next_nil _
      rw [whole] at found queue sends
      refine ⟨[head], _, manager, by simp; omega, sends, found, ?_, attached, queue⟩
      have later : (values.foldl place tail).Perm (tail ++ values) := Line.foldl_place front
      have every : (items ++ value :: values).Perm (head :: tail ++ values) :=
        perm_middle.trans (moved.symm.append_right values)
      exact every.trans (later.symm.cons head)
    · rcases holds with few | ⟨rfl, rfl⟩
      · simp at few
      · obtain ⟨head, tail, moved, line⟩ :=
          @Line.push_served place [] (second :: waiting) value first front
        rw [line] at found queue sends
        refine ⟨[head], tail, manager, by simp, ?_, found, moved.symm, attached, queue⟩
        rw [sends]
        rfl

/-- A push wakes the right clients and loses nothing if and only if at most one
client waits, or it pushes a single value onto an empty list. -/
theorem push_loses_nothing_iff {state : HandlerState} {manager : BlockingManager} {now : Instant}
    {forked : Bool} {fd : Fd} {name key value : Bytes} {items values : List Bytes}
    {command : Command} (either : command = .rpush ∨ command = .lpush)
    (attached : state.blockingManager = some manager)
    (found : state.store.foundList now.steady key = some items) :
    ∃ outcome, command.handler state now forked fd true (name :: key :: value :: values) =
        .ok outcome ∧
      (DeliversAll now.steady key items (value :: values) (manager.queue key) outcome ↔
        (manager.queue key).length ≤ 1 ∨ (values = [] ∧ items = [])) := by
  have pushed : ∀ place : List Bytes → Bytes → List Bytes,
      (∀ items value, (place items value).Perm (value :: items)) →
      ∃ outcome, state.onBlocking true (handlePushWithBlocking (Store.pushIfValidType place)
          (Store.push place) state.store (some manager) now.steady
          (name :: key :: value :: values)) = .ok outcome ∧
        (DeliversAll now.steady key items (value :: values) (manager.queue key) outcome ↔
          (manager.queue key).length ≤ 1 ∨ (values = [] ∧ items = [])) := by
    intro place front
    obtain ⟨result, done, through, shows⟩ := @handlePushWithBlocking_shows place
      (fun value => (front [] value).length_eq) state.store manager now.steady name key value
      items values found
    rw [done, HandlerState.onBlocking, if_neg (by simp), through]
    refine ⟨⟨{ state with store := result.store, blockingManager := result.manager }, .normal,
      result.reply, result.sends, false⟩, rfl, deliversAll_iff front shows⟩
  rcases either with rfl | rfl
  · simp only [Command.handler, attached, if_true]
    exact pushed Store.pushBack pushBack_perm
  · simp only [Command.handler, attached, if_true]
    exact pushed Store.pushFront pushFront_perm

theorem push_serves_one_client :
    ∃ outcome, Command.rpush.handler
        { (CommandContext.twoClients 0).toHandlerState with
          blockingManager := some (BlockingManager.empty.blockClient 0 5 (ascii "k") 0) }
        ⟨0, 0⟩ false 6 true [ascii "RPUSH", ascii "k", ascii "a", ascii "b"] = .ok outcome ∧
      DeliversAll 0 (ascii "k") [] [ascii "a", ascii "b"]
        ((BlockingManager.empty.blockClient 0 5 (ascii "k") 0).queue (ascii "k")) outcome := by
  obtain ⟨outcome, done, delivers⟩ := @push_loses_nothing_iff
    { (CommandContext.twoClients 0).toHandlerState with
      blockingManager := some (BlockingManager.empty.blockClient 0 5 (ascii "k") 0) }
    (BlockingManager.empty.blockClient 0 5 (ascii "k") 0) ⟨0, 0⟩ false 6 (ascii "RPUSH")
    (ascii "k") (ascii "a") [] [ascii "b"] .rpush (.inl rfl) rfl rfl
  exact ⟨outcome, done, delivers.mpr (.inl (by decide +kernel))⟩

/-- Two clients wait and two values are pushed: the first client gets the first
value, the second is taken out of the queue for the second value, which is
dropped. -/
theorem push_drops_value_of_second_client :
    ∃ last, Run.run CommandContext.handle ((CommandContext.twoClients 0).addConnection 7)
        [.words 5 ["BLPOP", "k", "0"], .words 6 ["BLPOP", "k", "0"],
          .words 7 ["RPUSH", "k", "a", "b"]] = .ok last ∧
      (last.2.getLast?.join.map fun seen => seen.effect.sends) =
        some [(5, encodeArray [ascii "k", ascii "a"])] ∧
      last.1.store.foundList 0 (ascii "k") = some [] ∧
      (last.1.blockingManager.map fun manager => manager.queue (ascii "k")) = some [] :=
  Run.Succeeds.ok (by decide +kernel)

end Credis
