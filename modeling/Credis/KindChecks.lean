import Credis.OriginChecks
import Credis.StreamReadChecks

/-! The two kinds of wait share one queue for each key. A push serves whoever stands
in front, an `XADD` whoever waits with a lower threshold, so the kinds are respected
exactly when those clients are of the right kind and each push has a value for every
client that it wakes. -/

namespace Credis

open ByteString

open BlockingManager (waitsBelow)
open HandlerState List

variable {client : BlockedClient} {item : Key × List Bytes}

variable {state : HandlerState}

namespace Line

variable {place : List Bytes → Bytes → List Bytes}

def content (line : Line) : List Bytes := line.served.map Prod.snd ++ line.items

theorem wake_content (line : Line) : line.wake.content = line.content := by
  obtain ⟨items, waiting, served⟩ := line
  rcases waiting with _ | ⟨client, waiting⟩
  · rfl
  · rcases items with _ | ⟨value, items⟩
    · rfl
    · simp [wake, content]

theorem foldl_next_served (values : List Bytes) (line : Line) :
    (values.foldl (next place) line).waiting = line.waiting.drop values.length ∧
      (values.foldl (next place) line).served =
        line.served ++ (line.waiting.take values.length).zip line.items := by
  induction values generalizing line with
  | nil => simp
  | cons value values ih =>
    rw [foldl_cons]
    obtain ⟨waiting, served⟩ := ih (line.next place value)
    rw [waiting, served]
    obtain ⟨items, queue, handed⟩ := line
    rcases queue with _ | ⟨client, queue⟩
    · simp [next]
    · rcases items with _ | ⟨first, items⟩
      · simp [next, wake]
      · simp [next, wake]

theorem push_waiting (items : List Bytes) (waiting : List BlockedClient) (value : Bytes)
    (values : List Bytes) :
    (push place items waiting value values).waiting = waiting.drop (values.length + 1) ∧
      (push place items waiting value values).served =
        (waiting.take (values.length + 1)).zip (place items value) := by
  unfold push
  obtain ⟨left, served⟩ :=
    @foldl_next_served place values (wake ⟨place items value, waiting, []⟩)
  rw [left, served]
  rcases waiting with _ | ⟨client, waiting⟩
  · simp [wake]
  · rcases place items value with _ | ⟨first, rest⟩
    · simp [wake]
    · simp [wake]

theorem next_content (front : ∀ items value, (place items value).Perm (value :: items))
    (line : Line) (value : Bytes) :
    (line.next place value).content.Subperm (line.content ++ [value]) := by
  unfold next
  split
  · refine Perm.subperm ?_
    unfold content
    rw [append_assoc]
    exact ((front line.items value).trans (perm_append_singleton value _).symm).append_left _
  · rw [wake_content]
    exact (sublist_append_left _ _).subperm

theorem push_content (front : ∀ items value, (place items value).Perm (value :: items))
    (items : List Bytes) (waiting : List BlockedClient) (value : Bytes) (values : List Bytes) :
    (push place items waiting value values).content.Subperm (items ++ value :: values) := by
  have rest : ∀ line : Line,
      (values.foldl (next place) line).content.Subperm (line.content ++ values) := by
    induction values with
    | nil =>
      intro line
      rw [append_nil]
      exact Subperm.refl _
    | cons first values ih =>
      intro line
      have step := (subperm_append_right values).mpr (next_content front line first)
      rw [append_assoc, singleton_append] at step
      exact (ih _).trans step
  have start : (wake ⟨place items value, waiting, []⟩).content.Perm (items ++ [value]) := by
    rw [wake_content]
    exact (front items value).trans (perm_append_singleton value items).symm
  have whole := (start.append_right values).subperm
  rw [append_assoc, singleton_append] at whole
  exact (rest _).trans whole

end Line

namespace Execution

/-- The key and the values of the push that the command is going to make, if it finds
a list or nothing at the key. -/
def pushed (execution : Execution) : Option (Key × List Bytes) :=
  match execution.args with
  | _ :: key :: value :: values =>
    if (execution.cmd = ascii "RPUSH" ∨ execution.cmd = ascii "LPUSH") ∧
        (execution.before.store.foundList execution.now.steady key).isSome = true then
      some (key, value :: values)
    else none
  | _ => none

def woken (execution : Execution) (key : Key) : List BlockedClient :=
  (execution.before.queue key).filter fun client => client ∉ execution.after.queue key

structure HandsOut (execution : Execution) (key : Key) : Prop where
  name : execution.cmd = ascii "RPUSH" ∨ execution.cmd = ascii "LPUSH"
  named : execution.args[1]? = some key
  popped : ∃ items elements left,
    execution.before.store.foundList execution.now.steady key = some items ∧
    elements.length = (execution.woken key).length ∧
    execution.outcome.sends = ((execution.woken key).zip elements).map
      (fun item => (item.1.fd, encodeArray [key, item.2])) ∧
    execution.after.store.foundList execution.now.steady key = some left ∧
    (elements ++ left).Subperm (items ++ execution.args.drop 2)

structure SendsEntries (execution : Execution) (key : Key) : Prop where
  name : execution.cmd = ascii "XADD"
  named : execution.args[1]? = some key
  sends : execution.outcome.sends =
    (execution.woken key).map (entriesMessage execution.after.store execution.now.steady key)
  filled : ∀ client ∈ execution.woken key, (execution.after.store.xread execution.now.steady key
    client.lastId.toText).2 ≠ []

structure RespectsWaits (past : List Execution) (execution : Execution) : Prop where
  list : ∀ key, ∀ client ∈ execution.woken key, client.waitsForList past = true →
    execution.HandsOut key
  stream : ∀ key, ∀ client ∈ execution.woken key, client.waitsForStream past = true →
    execution.SendsEntries key

/-- A push finds in front a client that waits for a list, and either no second client
waits or there is no second value; an `XADD` passes no client that waits for a list. -/
def KeepsApart (past : List Execution) (execution : Execution) : Prop :=
  (∀ item ∈ execution.pushed, ∀ client ∈ (execution.before.queue item.1).head?,
    client.waitsForList past = true ∧
      ((execution.before.queue item.1).length ≤ 1 ∨ item.2.length ≤ 1)) ∧
  ∀ item ∈ execution.accepted, ∀ client ∈ execution.before.queue item.1,
    waitsBelow item.2 client = true → client.waitsForList past = false

instance (past : List Execution) (execution : Execution) : Decidable (execution.KeepsApart past) :=
  inferInstanceAs (Decidable (_ ∧ _))

variable {execution : Execution} {past : List Execution} {key : Key}

theorem woken_nil (kept : ∀ client ∈ execution.before.queue key,
    client ∈ execution.after.queue key) : execution.woken key = [] :=
  filter_eq_nil_iff.mpr fun client member => by simp [kept client member]

theorem pushed_name (pushed : execution.pushed = some item) :
    ∃ name value values, execution.args = name :: item.1 :: value :: values ∧
      item.2 = value :: values ∧
      (execution.cmd = ascii "RPUSH" ∨ execution.cmd = ascii "LPUSH") ∧
      ∃ items, execution.before.store.foundList execution.now.steady item.1 = some items := by
  unfold Execution.pushed at pushed
  split at pushed
  · rename_i name key value values args
    split at pushed
    · rename_i valid
      cases pushed
      exact ⟨name, value, values, args, rfl, valid.1, Option.isSome_iff_exists.mp valid.2⟩
    · cases pushed
  · cases pushed

theorem Runs.push_line (runs : execution.Runs) (pushed : execution.pushed = some item)
    {manager : BlockingManager} (present : execution.before.blockingManager = some manager) :
    ∃ place items value values, (place = Store.pushBack ∨ place = Store.pushFront) ∧
      item.2 = value :: values ∧ execution.args.drop 2 = value :: values ∧
      execution.before.store.foundList execution.now.steady item.1 = some items ∧
      Line.Shows execution.now.steady item.1
        ⟨execution.after.store, execution.after.blockingManager, 0, execution.outcome.sends⟩
        (Line.push place items (execution.before.queue item.1) value values) := by
  obtain ⟨name, value, values, args, given, cmd, items, found⟩ := pushed_name pushed
  obtain ⟨command, push, called⟩ : ∃ command, (command = .rpush ∨ command = .lpush) ∧
      execution.Calls command := by
    rcases cmd with right | left
    · rcases @Runs.named execution runs .rpush right with ⟨short, -⟩ | ⟨-, called⟩
      · rw [args] at short
        simp only [length_cons, Command.minArgs] at short
        omega
      · exact ⟨.rpush, .inl rfl, called⟩
    · rcases @Runs.named execution runs .lpush left with ⟨short, -⟩ | ⟨-, called⟩
      · rw [args] at short
        simp only [length_cons, Command.minArgs] at short
        omega
      · exact ⟨.lpush, .inr rfl, called⟩
  obtain ⟨place, result, side, single, handled, leaves⟩ := called.push push
  obtain ⟨shown, again, -, shows⟩ := @handlePushWithBlocking_shows place single
    execution.before.store manager execution.now.steady name item.1 value items values found
  rw [args, present] at handled
  cases handled.symm.trans again
  refine ⟨place, items, value, values, side, given, by rw [args]; rfl, found, ?_⟩
  rw [leaves.store, leaves.manager, leaves.sends, queue_some present]
  exact shows

theorem filter_notMem_drop {α : Type} [DecidableEq α] {items : List α} (distinct : items.Nodup)
    (count : Nat) : items.filter (fun item => item ∉ items.drop count) = items.take count := by
  have pieces := take_append_drop count items
  have apart : Disjoint (items.take count) (items.drop count) := by
    rw [← pieces] at distinct
    exact disjoint_of_nodup_append distinct
  have parts : ∀ keeps : α → Bool, items.filter keeps =
      (items.take count).filter keeps ++ (items.drop count).filter keeps :=
    fun keeps => by rw [← filter_append, pieces]
  have kept : (items.take count).filter (fun item => item ∉ items.drop count) =
      items.take count :=
    filter_eq_self.mpr fun item member => by simpa using fun inside => apart member inside
  have gone : (items.drop count).filter (fun item => item ∉ items.drop count) = [] :=
    filter_eq_nil_iff.mpr fun item member => by simpa using member
  rw [parts, kept, gone, append_nil]

theorem Runs.push_woken (runs : execution.Runs) (registered : Registered past execution.before)
    (pushed : execution.pushed = some item) :
    execution.woken item.1 = (execution.before.queue item.1).take item.2.length := by
  cases present : execution.before.blockingManager with
  | none =>
    have empty : execution.before.queue item.1 = [] := by
      rw [queue, present]
      rfl
    rw [woken, empty, take_nil]
    rfl
  | some manager =>
    obtain ⟨place, items, value, values, -, given, -, -, shows⟩ := runs.push_line pushed present
    obtain ⟨after, attached, queue⟩ := shows.waiting
    rw [(@Line.push_waiting place items _ value values).1] at queue
    rw [woken, queue_some attached, queue, given]
    exact filter_notMem_drop (registered.nodup item.1) _

theorem woken_below {id : StreamId} (left : execution.after.queue key =
      (execution.before.queue key).filter fun client => !waitsBelow id client) :
    execution.woken key = (execution.before.queue key).filter (waitsBelow id) := by
  unfold Execution.woken
  rw [left]
  refine filter_congr fun client member => ?_
  cases passed : waitsBelow id client with
  | true => simp [passed]
  | false => simp [member, passed]

theorem Accepts.woken {id : StreamId} (accepts : execution.Accepts key id) :
    execution.woken key = (execution.before.queue key).filter (waitsBelow id) :=
  woken_below (by rw [accepts.queue, if_pos rfl])

theorem Runs.wakes (runs : execution.Runs) (woken : execution.woken key ≠ []) :
    (∃ values, execution.pushed = some (key, values)) ∨
      ∃ id, execution.accepted = some (key, id) := by
  have stays : ¬ ∀ client ∈ execution.before.queue key, client ∈ execution.after.queue key :=
    fun kept => woken (woken_nil kept)
  cases runs.moves with
  | stays _ same =>
    refine (stays fun client member => ?_).elim
    rwa [queue_congr same]
  | @blocks blocking _ place _ _ _ _ _ present added =>
    refine (stays fun client member => ?_).elim
    obtain ⟨new, -, -, -, -, -, queues, -, -⟩ :=
      BlockingManager.blockClientForStream_adds (@rfl _ (blocking.blockClientForStream _ _ _ _ _))
    rw [queue_some added, queues]
    rw [queue_some present] at member
    split
    · rename_i same
      exact mem_append_left _ (same ▸ member)
    · exact member
  | adds cmd _ _ _ =>
    cases accepted : execution.accepted with
    | none =>
      refine (stays fun client member => ?_).elim
      rwa [queue_congr (runs.refused_manager cmd accepted)]
    | some item =>
      obtain ⟨target, id⟩ := item
      by_cases same : key = target
      · exact .inr ⟨id, by rw [same]⟩
      · refine (stays fun client member => ?_).elim
        rwa [runs.accepted_queue accepted, if_neg same]
  | @pushes name target value values cmd _ args found moved =>
    by_cases same : key = target
    · refine .inl ⟨value :: values, ?_⟩
      unfold Execution.pushed
      rw [args, same]
      exact if_pos ⟨cmd, found⟩
    · refine (stays fun client member => ?_).elim
      have queue : execution.after.queue key = execution.before.queue key := by
        unfold queue waitingOn
        rw [moved]
        cases execution.before.blockingManager with
        | none => rfl
        | some manager =>
          exact (manager.wake_iterate_queue target key _).trans (if_neg same)
      rwa [queue]

theorem Registered.inRange (registered : Registered past state) (member : client ∈ state.queue key)
    : client.lastId.InRange := by
  obtain ⟨id, last⟩ := registered.threshold key client member
  rw [last]
  cases parsed : StreamId.parse id with
  | none => exact ⟨by decide, by decide⟩
  | some sid => exact StreamId.parse_range parsed

theorem Accepts.sendsEntries {id : StreamId} (accepts : execution.Accepts key id)
    (registered : Registered past execution.before)
    (ordered : execution.after.store.StreamsOrdered) : execution.SendsEntries key := by
  refine ⟨accepts.name, accepts.named, by rw [accepts.woken]; exact accepts.sends, ?_⟩
  intro client member
  rw [accepts.woken] at member
  obtain ⟨inside, passed⟩ := mem_filter.mp member
  obtain ⟨entry, same, stream⟩ := accepts.entry
  have order := Store.streamAt_each ordered .nil execution.now.steady key
  rw [Store.xread_behind order.ascending,
    Store.readThreshold_toText (Registered.inRange registered inside),
    stream]
  have last : entry ∈ execution.before.store.streamAt execution.now.steady key ++ [entry] :=
    mem_append_right _ (mem_singleton_self entry)
  refine ne_nil_of_mem (mem_filter.mpr ⟨last, ?_⟩)
  rw [same]
  exact passed

theorem Store.Drained.found {store : Store} {now : Time} {items : List Bytes}
    (drained : store.Drained key) (found : store.foundList now key = some items) : items = [] := by
  obtain ⟨-, rfl⟩ := Store.foundList_some found
  cases store.looked now key with
  | absent _ live | old _ _ _ live => rw [live]; rfl
  | live entry present _ live =>
    rw [live]
    cases value : entry.value with
    | string _ | stream _ | zset _ => rw [Store.content, Option.map_some, value]; rfl
    | list items =>
      rw [Store.content, Option.map_some, value]
      exact drained key entry present rfl items value

theorem manager_of_waiting (waiting : client ∈ state.queue key) :
    ∃ manager, state.blockingManager = some manager := by
  cases present : state.blockingManager with
  | none =>
    rw [queue, present] at waiting
    cases waiting
  | some manager => exact ⟨manager, rfl⟩

section Iff

variable (runs : execution.Runs) (registered : Registered past execution.before)
include runs registered

theorem Runs.push_respects (served : execution.before.Served past)
    (pushed : execution.pushed = some item) (first : client ∈ (execution.before.queue item.1).head?)
    (respects : execution.RespectsWaits past) :
    client.waitsForList past = true ∧
      ((execution.before.queue item.1).length ≤ 1 ∨ item.2.length ≤ 1) := by
  obtain ⟨name, value, values, args, given, cmd, -⟩ := pushed_name pushed
  obtain ⟨rest, queue⟩ := head?_eq_some_iff.mp first
  have woken := runs.push_woken registered pushed
  have member : client ∈ execution.woken item.1 := by
    rw [woken, queue, given]
    simp
  have waiting : client ∈ execution.before.queue item.1 := by simp [queue]
  have kind : client.waitsForList past = true := by
    by_contra other
    have stream : client.waitsForStream past = true := by
      rw [registered.list_or_stream waiting, Bool.eq_false_iff.mpr other]
      rfl
    rw [(respects.stream item.1 client member stream).name] at cmd
    revert cmd
    decide
  refine ⟨kind, ?_⟩
  obtain ⟨manager, present⟩ := manager_of_waiting waiting
  obtain ⟨items, elements, -, found, many, sends, -⟩ :=
    (respects.list item.1 client member kind).popped
  obtain ⟨place, others, _, _, side, given, -, again, shows⟩ := runs.push_line pushed present
  cases found.symm.trans again
  have absent := Store.Drained.found (served item.1 client waiting kind) found
  have alone : ∀ value, (place [] value).length = 1 := by
    rcases side with rfl | rfl
    · exact fun _ => rfl
    · exact fun _ => rfl
  have counts := congrArg length (sends.symm.trans shows.served)
  rw [(@Line.push_waiting place items _ _ _).2, absent, woken, given] at counts
  rw [woken, given] at many
  simp only [length_map, length_zip, length_take, length_cons, alone]
    at counts many
  rw [given, length_cons]
  omega

theorem Runs.push_handsOut {rest : List BlockedClient} (served : execution.before.Served past)
    (pushed : execution.pushed = some item) (queue : execution.before.queue item.1 = client :: rest)
    (kind : client.waitsForList past = true)
    (short : (client :: rest).length ≤ 1 ∨ item.2.length ≤ 1) :
    execution.woken item.1 = [client] ∧ execution.HandsOut item.1 := by
  obtain ⟨name, value, values, args, given, cmd, items, found⟩ := pushed_name pushed
  have first : (client :: rest).take (values.length + 1) = [client] := by
    rw [given, length_cons, length_cons] at short
    rw [take_succ_cons, cons.injEq, take_eq_nil_iff]
    exact ⟨rfl, short.elim (fun few => .inr (length_eq_zero_iff.mp (by omega)))
      fun few => .inl (by omega)⟩
  have woken : execution.woken item.1 = [client] := by
    rw [runs.push_woken registered pushed, queue, given, length_cons, first]
  have waiting : client ∈ execution.before.queue item.1 := by simp [queue]
  obtain ⟨manager, present⟩ := manager_of_waiting waiting
  obtain ⟨place, others, first', values', side, again, rest', found', shows⟩ :=
    runs.push_line pushed present
  cases found.symm.trans found'
  cases given.symm.trans again
  have absent := Store.Drained.found (served item.1 client waiting kind) found
  have front : ∀ items value, (place items value).Perm (value :: items) := by
    rcases side with rfl | rfl
    · exact pushBack_perm
    · exact pushFront_perm
  obtain ⟨element, only⟩ := length_eq_one_iff.mp (front [] value).length_eq
  have handed : (Line.push place items (execution.before.queue item.1) value values).served =
      [(client, element)] := by
    rw [(@Line.push_waiting place items _ value values).2, queue, first, absent, only]
    rfl
  have sends := shows.served
  rw [handed] at sends
  refine ⟨woken, cmd, by rw [args]; rfl, items, [element], _, found, by rw [woken]; rfl, ?_,
    shows.items, ?_⟩
  · rw [woken]
    exact sends
  · have content := @Line.push_content place front items (execution.before.queue item.1) value
      values
    rw [Line.content, handed] at content
    rw [rest']
    exact content

theorem Runs.respectsWaits_iff (served : execution.before.Served past)
    (clock : 0 ≤ execution.now.system ∧ execution.now.system < 2 ^ 63)
    (ordered : execution.after.store.StreamsOrdered) :
    execution.RespectsWaits past ↔ execution.KeepsApart past := by
  constructor
  · intro respects
    refine ⟨fun item pushed client first =>
      runs.push_respects registered served pushed first respects, ?_⟩
    intro item accepted client member passed
    have accepts := runs.accepts clock accepted
    by_contra kind
    have list := respects.list item.1 client
      (by rw [accepts.woken]; exact mem_filter.mpr ⟨member, passed⟩) (by simpa using kind)
    have cmd := list.name
    rw [accepts.name] at cmd
    revert cmd
    decide
  · rintro ⟨pushes, adds⟩
    have front : ∀ key, ∀ client ∈ execution.woken key, ∀ values,
        execution.pushed = some (key, values) →
        client.waitsForList past = true ∧ execution.HandsOut key := by
      intro key client member values pushed
      have waiting := mem_of_mem_filter member
      obtain ⟨head, rest, queue⟩ := exists_cons_of_ne_nil (ne_nil_of_mem waiting)
      obtain ⟨kind, short⟩ := pushes (key, values) pushed head (by rw [queue]; rfl)
      rw [queue] at short
      obtain ⟨woken, hands⟩ := runs.push_handsOut registered served pushed queue kind short
      rw [woken, mem_singleton] at member
      exact ⟨member ▸ kind, hands⟩
    constructor
    · intro key client member kind
      rcases runs.wakes (ne_nil_of_mem member) with ⟨values, pushed⟩ | ⟨id, accepted⟩
      · exact (front key client member values pushed).2
      rw [(runs.accepts clock accepted).woken] at member
      obtain ⟨inside, passed⟩ := mem_filter.mp member
      rw [adds (key, id) accepted client inside passed] at kind
      cases kind
    · intro key client member kind
      rcases runs.wakes (ne_nil_of_mem member) with ⟨values, pushed⟩ | ⟨id, accepted⟩
      · rw [registered.list_or_stream (mem_of_mem_filter member),
          (front key client member values pushed).1] at kind
        cases kind
      · exact (runs.accepts clock accepted).sendsEntries registered ordered

end Iff

end Execution

namespace CommandContext

/-- In every run the clients are woken by what they wait for, each with what it waits
for, exactly when every command finds the two kinds apart. -/
theorem waits_respected_iff {start ctx : CommandContext} {events : List Event}
    {observations : List (Option Observation)} (idle : start.blockingManager = some .empty)
    (ordered : start.store.StreamsOrdered)
    (clock : ∀ tick, 0 ≤ (start.clock tick).system ∧ (start.clock tick).system < 2 ^ 63)
    (ran : Run.run handle start events = .ok (ctx, observations)) :
    Run.InOrder Execution.RespectsWaits [] (start.history events) ↔
      Run.InOrder Execution.KeepsApart [] (start.history events) := by
  refine ((history_served idle ran).2.and (history_ordered ordered clock ran)).congr ?_
  rintro past execution ⟨⟨⟨registered, served⟩, runs⟩, range, -, after⟩
  exact runs.respectsWaits_iff registered served range after

def separateWaits : List Event :=
  [.words 5 ["BLPOP", "l", "0"], .words 6 ["XREAD", "BLOCK", "0", "STREAMS", "s", "$"],
    .connect 7, .words 7 ["XADD", "s", "1-1", "f", "v"], .words 7 ["RPUSH", "l", "a", "b"]]

theorem separate_waits_respected :
    ∃ run, Run.run handle (twoClients 0) separateWaits = .ok run ∧
      Run.InOrder Execution.RespectsWaits [] ((twoClients 0).history separateWaits) := by
  refine Run.of_checked (fun _ => True) (by decide +kernel) fun run ran _ => ?_
  have ordered : (twoClients 0).store.StreamsOrdered := Store.empty_each _
  exact (waits_respected_iff rfl ordered
    (fun _ => (by decide : (0 : Int) ≤ 0 ∧ (0 : Int) < 2 ^ 63)) ran).mpr (by decide +kernel)

/-- Client 5 waits for a stream and is handed the element of a list; it waits for a
list and is sent the entry of a stream. -/
def readThenPush : List Event :=
  [.words 5 ["XREAD", "BLOCK", "0", "STREAMS", "k", "$"], .words 6 ["RPUSH", "k", "v"]]

def popThenAdd : List Event :=
  [.words 5 ["BLPOP", "k", "0"], .words 6 ["XADD", "k", "1-1", "f", "v"]]

theorem waits_confused :
    (∃ run, Run.run handle (twoClients 0) readThenPush = .ok run ∧
      run.2.map (Option.map fun observation => observation.effect.sends) =
        [some [], some [(5, encodeArray [ascii "k", ascii "v"])]] ∧
      run.1.store.foundList 0 (ascii "k") = some []) ∧
    (∃ run, Run.run handle (twoClients 0) popThenAdd = .ok run ∧
      run.2.map (Option.map fun observation => observation.effect.sends) =
        [some [], some [(5, encodeStreamEntries [(ascii "k",
          [⟨ascii "1-1", ⟨1, 1⟩, [(ascii "f", ascii "v")]⟩])])]]) ∧
    ¬ Run.InOrder Execution.RespectsWaits [] ((twoClients 0).history readThenPush) ∧
    ¬ Run.InOrder Execution.RespectsWaits [] ((twoClients 0).history popThenAdd) := by
  refine ⟨Run.Succeeds.ok (by decide +kernel), Run.Succeeds.ok (by decide +kernel),
    fun respects => ?_, fun respects => ?_⟩
  · have named : ∀ past execution, Execution.RespectsWaits past execution →
        ∀ client ∈ execution.woken (ascii "k"), client.waitsForStream past = true →
          execution.cmd = ascii "XADD" :=
      fun past execution held client member kind => (held.stream _ client member kind).name
    exact absurd (respects.imp named) (by decide +kernel)
  · have named : ∀ past execution, Execution.RespectsWaits past execution →
        ∀ client ∈ execution.woken (ascii "k"), client.waitsForList past = true →
          execution.cmd = ascii "RPUSH" ∨ execution.cmd = ascii "LPUSH" :=
      fun past execution held client member kind => (held.list _ client member kind).name
    exact absurd (respects.imp named) (by decide +kernel)

end CommandContext

end Credis
