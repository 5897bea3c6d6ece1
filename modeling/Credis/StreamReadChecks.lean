import Credis.Bisection
import Credis.StreamChecks
import Credis.WakeChecks

/-! Reading behind a threshold. The bisection finds the entries behind an ID, and an
accepted `XADD` sends them to exactly the clients whose threshold it passes. -/

namespace Credis

open ByteString BlockingManager
open Bisection (Falls Searches)
open StreamId List

variable {entries : List StreamEntry} {fuel : Nat}

namespace Store

theorem bisect_searches (goesRight : StreamId → Bool) {lo hi : Nat} (bound : hi ≤ entries.length)
    (enough : hi - lo ≤ fuel) :
    Searches (fun entry => goesRight entry.parsedId) entries lo hi
      (bisect entries goesRight fuel lo hi) := by
  induction fuel generalizing lo hi with
  | zero => exact .done (by omega)
  | succ fuel ih =>
    unfold bisect
    split
    · rename_i wide
      dsimp only
      have inside : lo + (hi - lo) / 2 < entries.length := by omega
      have found := getElem?_eq_getElem inside
      have read : entries.getD (lo + (hi - lo) / 2) ⟨[], ⟨0, 0⟩, []⟩ =
          entries[lo + (hi - lo) / 2] := by
        rw [getD_eq_getElem?_getD, found, Option.getD_some]
      rw [read]
      split
      · rename_i passed
        exact .right wide found passed (ih bound (by omega))
      · rename_i failed
        exact .left wide found (by simpa using failed) (ih (by omega) (by omega))
    · rename_i narrow
      exact .done narrow

theorem bisect_eq_countP {goesRight : StreamId → Bool}
    (falls : Falls (fun entry => goesRight entry.parsedId) entries) :
    bisect entries goesRight entries.length 0 entries.length =
      entries.countP fun entry => goesRight entry.parsedId :=
  (bisect_searches goesRight (Nat.le_refl _) (Nat.sub_le _ _)).result_eq falls (Nat.zero_le _)
    countP_le_length

theorem falls_upper (ascending : StreamAscending entries) (target : StreamId) :
    Falls (fun entry => !lt target entry.parsedId) entries := by
  refine ascending.imp fun {left right} below passed => ?_
  rw [Bool.not_eq_true'] at passed ⊢
  rw [Bool.eq_false_iff] at passed ⊢
  exact fun above => passed (lt_trans above below)

theorem drop_upperBound (ascending : StreamAscending entries) (target : StreamId) :
    entries.drop (upperBound entries target) =
      entries.filter fun entry => lt target entry.parsedId := by
  have falls := falls_upper ascending target
  rw [upperBound, bisect_eq_countP falls, falls.drop]
  simp

variable {store : Store} {now : Time} {key : Key}

theorem xread_streamAt (store : Store) (now : Time) (key : Key) (id : Bytes) :
    (store.xread now key id).2 = (store.streamAt now key).drop
      (upperBound (store.streamAt now key) (readThreshold id)) := by
  have value := getTyped_value store now key Value.stream?
  unfold xread getStream
  unfold streamAt
  generalize store.getTyped Value.stream? now key = got at value
  obtain ⟨after, found⟩ := got
  dsimp only at value
  rw [← value]
  cases found with
  | none => rfl
  | some entries => rfl

theorem xread_behind (ascending : StreamAscending (store.streamAt now key)) (id : Bytes) :
    (store.xread now key id).2 = (store.streamAt now key).filter fun entry =>
      lt (readThreshold id) entry.parsedId := by
  rw [xread_streamAt, drop_upperBound ascending]

theorem readThreshold_toText {id : StreamId} (range : id.InRange) :
    readThreshold id.toText = id := by
  have dash : 45 ∈ id.toText := by simp [toText]
  rw [readThreshold, if_neg (by simp [dash]), parse_toText range, Option.getD_some]

/-- An ID is read back from its text, also a recorded threshold by the read of a wake-up. -/
theorem stream_id_text_round_trip :
    (∀ id : StreamId, id.InRange → StreamId.parse id.toText = some id) ∧
      (∀ text id, StreamId.parse text = some id →
        0 ≤ id.timestamp ∧ StreamId.parse id.toText = some id) ∧
      ∀ text, readThreshold ((StreamId.parse text).getD ⟨0, 0⟩).toText =
        (StreamId.parse text).getD ⟨0, 0⟩ := by
  refine ⟨fun _ => StreamId.parse_toText, fun text id parsed => ?_, fun text => ?_⟩
  · have range := StreamId.parse_range parsed
    exact ⟨range.timestamp.1, StreamId.parse_toText range⟩
  · cases parsed : StreamId.parse text with
    | none => exact readThreshold_toText ⟨by decide, by decide⟩
    | some id => exact readThreshold_toText (StreamId.parse_range parsed)

theorem negative_sequence_round_trip :
    StreamId.parse (StreamId.toText ⟨5, -(2 ^ 63)⟩) = some ⟨5, -(2 ^ 63)⟩ :=
  stream_id_text_round_trip.1 ⟨5, -(2 ^ 63)⟩ ⟨by decide, by decide⟩

theorem Reads.xread {after : Store} (reads : Reads now store after) (id : Bytes) :
    (after.xread now key id).2 = (store.xread now key id).2 := by
  rw [xread_streamAt, xread_streamAt, reads.streamAt]

end Store

open BlockingManager (waitsBelow wakeBehind)

theorem filter_of_find? {α : Type} [DecidableEq α] {keeps : α → Bool} {items : List α} {first : α}
    (found : items.find? keeps = some first) :
    items.filter keeps = first :: (items.erase first).filter keeps := by
  induction items with
  | nil => cases found
  | cons item items ih =>
    cases kept : keeps item with
    | true =>
      rw [find?_cons_of_pos kept] at found
      cases found
      rw [filter_cons_of_pos kept, erase_cons_head]
    | false =>
      rw [find?_cons_of_neg (by simp [kept])] at found
      have different : item ≠ first := by
        rintro rfl
        rw [find?_some found] at kept
        cases kept
      rw [filter_cons_of_neg (by simp [kept]), ih found,
        erase_cons_tail (by simpa using different),
        filter_cons_of_neg (by simp [kept])]

def entriesMessage (store : Store) (now : Time) (key : Key) (client : BlockedClient) : Fd × Bytes :=
  (client.fd, encodeStreamEntries [(key, (store.xread now key client.lastId.toText).2)])

theorem wakeStreamClients_sends {newId : Bytes} {id : StreamId}
    (parsed : parse newId = some id) {now : Time} {key : Key} {store : Store}
    {blocking : BlockingManager} (enough : (blocking.queue key).countP (waitsBelow id) ≤ fuel) :
    (wakeStreamClients now key newId fuel store blocking).2.2 =
      ((blocking.queue key).filter (waitsBelow id)).map (entriesMessage store now key) := by
  induction fuel generalizing store blocking with
  | zero =>
    have absent := countP_eq_zero.mp (Nat.le_zero.mp enough)
    rw [filter_eq_nil_iff.mpr absent]
    rfl
  | succ fuel ih =>
    unfold wakeStreamClients
    cases found : (blocking.queue key).find? (waitsBelow id) with
    | none =>
      rw [wakeClientForStream_none parsed found,
        filter_eq_nil_iff.mpr (find?_eq_none.mp found)]
      rfl
    | some client =>
      have parts := filter_of_find? found
      have count := congrArg length parts
      rw [← countP_eq_length_filter, length_cons, ← countP_eq_length_filter]
        at count
      rw [wakeClientForStream_some parsed found, parts, map_cons]
      dsimp only
      have queue : (blocking.released key client).queue key = (blocking.queue key).erase client :=
        (queue_released _ _ _ _).trans (if_pos rfl)
      rw [ih (by rw [queue]; omega), queue]
      refine congrArg (_ :: ·) (map_congr_left fun other _ => ?_)
      rw [entriesMessage, (Store.xread_reads store now key _).xread]
      rfl

section Handler

variable {store : Store} {manager : Option BlockingManager} {now : Instant}
  {name key id newId : Bytes} {fields : List Bytes} {outcome : BlockingOutcome}

theorem handleXaddWithBlocking_wakes {sid : StreamId} (even : fields.length % 2 = 0)
    (added : (store.xaddIfValidType now key id (pairUp fields)).2 = some newId)
    (parsed : parse newId = some sid)
    (handled : handleXaddWithBlocking store manager now (name :: key :: id :: fields) =
      .ok outcome) :
    Store.Reads now.steady (store.xaddIfValidType now key id (pairUp fields)).1 outcome.store ∧
      (∀ other, waitingOn outcome.manager other =
        if other = key then (waitingOn manager key).filter fun client => !waitsBelow sid client
        else waitingOn manager other) ∧
      outcome.sends = ((waitingOn manager key).filter (waitsBelow sid)).map
        (entriesMessage (store.xaddIfValidType now key id (pairUp fields)).1 now.steady key) := by
  generalize result : store.xaddIfValidType now key id (pairUp fields) = pair at added
  obtain ⟨after, text⟩ := pair
  cases added
  unfold handleXaddWithBlocking at handled
  dsimp only at handled
  rw [if_neg (by simp [even]), result] at handled
  dsimp only at handled
  rw [if_neg (by rw [parsed_not_error parsed]; simp)] at handled
  cases manager with
  | none =>
    cases handled
    refine ⟨.refl, fun other => ?_, rfl⟩
    split <;> rfl
  | some blocking =>
    have fits : (blocking.queue key).countP (waitsBelow sid) ≤ (blocking.queue key).length :=
      countP_le_length
    cases handled
    refine ⟨wakeStreamClients_reads _ _ _ _ _ _, fun other => ?_,
      wakeStreamClients_sends parsed fits⟩
    have woken := wakeStreamClients_manager now.steady key newId (blocking.queue key).length
      after blocking
    simp only [waitingOn, Option.map_some, Option.getD_some]
    rw [woken]
    split
    · rename_i same
      rw [same]
      exact wakeBehind_iterate_queue parsed fits
    · rename_i different
      exact wakeBehind_iterate_queue_ne _ different _ _

theorem wakeStreamClients_unparsed (unread : parse newId = none) (time : Time) (fuel : Nat)
    (store : Store) (blocking : BlockingManager) :
    (wakeStreamClients time key newId fuel store blocking).2.1 = blocking := by
  cases fuel with
  | zero => rfl
  | succ fuel =>
    unfold wakeStreamClients wakeClientForStream
    rw [unread]

theorem handleXaddWithBlocking_unwoken
    (refused : fields.length % 2 ≠ 0 ∨
      (store.xaddIfValidType now key id (pairUp fields)).2.bind parse = none)
    (handled : handleXaddWithBlocking store manager now (name :: key :: id :: fields) =
      .ok outcome) : outcome.manager = manager := by
  unfold handleXaddWithBlocking at handled
  dsimp only at handled
  split at handled
  · cases handled
    rfl
  rename_i even
  have unread := refused.resolve_left even
  split at handled
  · cases handled
    rfl
  rename_i after newId added
  rw [added, Option.bind_some] at unread
  split at handled
  · cases handled
    rfl
  split at handled
  · cases handled
    rfl
  · cases handled
    exact congrArg some (wakeStreamClients_unparsed unread _ _ _ _)

theorem handleXaddWithBlocking_rests
    (clock : 0 ≤ now.system ∧ now.system < 2 ^ 63)
    (refused : fields.length % 2 ≠ 0 ∨
      (store.xaddIfValidType now key id (pairUp fields)).2.bind parse = none)
    (handled : handleXaddWithBlocking store manager now (name :: key :: id :: fields) =
      .ok outcome) :
    ∀ other, outcome.store.streamAt now.steady other = store.streamAt now.steady other := by
  unfold handleXaddWithBlocking at handled
  dsimp only at handled
  split at handled
  · cases handled
    exact fun _ => rfl
  rename_i even
  have result := Store.xaddIfValidType_extends store now key id (pairUp fields)
  have unread := refused.resolve_left even
  generalize store.xaddIfValidType now key id (pairUp fields) = pair at result unread handled
  obtain ⟨after, text⟩ := pair
  cases result with
  | wrongType same =>
    cases handled
    exact fun other => congrArg (fun found => Store.streamAt found now.steady other) same
  | refused text failure same =>
    have failed : startsWith text (ascii "ERR") = true := by
      simp only [mem_cons, not_mem_nil, or_false] at failure
      rcases failure with rfl | rfl | rfl <;> decide
    dsimp only at handled
    rw [if_pos failed] at handled
    cases handled
    exact same
  | added denoted _ chosen =>
    rw [Option.bind_some, Store.chooseId_parses chosen clock] at unread
    cases unread

end Handler

theorem four_arguments {args : List Bytes} (enough : 4 ≤ args.length) :
    ∃ first second third fourth rest, args = first :: second :: third :: fourth :: rest := by
  rcases args with _ | ⟨first, _ | ⟨second, _ | ⟨third, _ | ⟨fourth, rest⟩⟩⟩⟩
  · simp at enough
  · simp at enough
  · simp at enough
  · simp at enough
  · exact ⟨first, second, third, fourth, rest, rfl⟩

namespace Execution

/-- The key and the ID of the entry that the command is going to add, if it is an
`XADD` that is going to be accepted. -/
def accepted (execution : Execution) : Option (Key × StreamId) :=
  match execution.args with
  | _ :: key :: id :: field :: fields =>
    if execution.cmd = ascii "XADD" ∧ (field :: fields).length % 2 = 0 then
      ((execution.before.store.xaddIfValidType execution.now key id
        (pairUp (field :: fields))).2.bind parse).map fun new => (key, new)
    else none
  | _ => none

structure Accepts (execution : Execution) (key : Key) (id : StreamId) : Prop where
  name : execution.cmd = ascii "XADD"
  named : execution.args[1]? = some key
  above : ((execution.before.store.streamAt execution.now.steady key).getLast?.any fun last =>
    !lt last.parsedId id) = false
  entry : ∃ entry : StreamEntry, entry.parsedId = id ∧
    execution.after.store.streamAt execution.now.steady key =
      execution.before.store.streamAt execution.now.steady key ++ [entry]
  others : ∀ other, other ≠ key → execution.after.store.streamAt execution.now.steady other =
    execution.before.store.streamAt execution.now.steady other
  queue : ∀ other, execution.after.queue other =
    if other = key then (execution.before.queue key).filter fun client => !waitsBelow id client
    else execution.before.queue other
  sends : execution.outcome.sends = ((execution.before.queue key).filter (waitsBelow id)).map
    (entriesMessage execution.after.store execution.now.steady key)

structure Refuses (execution : Execution) : Prop where
  streams : ∀ key, execution.after.store.streamAt execution.now.steady key =
    execution.before.store.streamAt execution.now.steady key
  queue : ∀ key, execution.after.queue key = execution.before.queue key

variable {execution : Execution}

theorem Runs.xadd_accepted {key : Key} {id : StreamId} (runs : execution.Runs)
    (accepted : execution.accepted = some (key, id)) :
    ∃ name text newId fields result, execution.cmd = ascii "XADD" ∧
      execution.args = name :: key :: text :: fields ∧ fields.length % 2 = 0 ∧
      (execution.before.store.xaddIfValidType execution.now key text (pairUp fields)).2 =
        some newId ∧ parse newId = some id ∧
      handleXaddWithBlocking execution.before.store execution.before.blockingManager
        execution.now (name :: key :: text :: fields) = .ok result ∧ execution.Leaves result := by
  unfold Execution.accepted at accepted
  split at accepted
  · rename_i first target text field fields args
    split at accepted
    · rename_i valid
      obtain ⟨name, even⟩ := valid
      obtain ⟨sid, found, same⟩ := Option.map_eq_some_iff.mp accepted
      cases same
      obtain ⟨newId, added, parsed⟩ := Option.bind_eq_some_iff.mp found
      have called : execution.Calls .xadd := by
        rcases @Runs.named execution runs .xadd name with ⟨short, -⟩ | ⟨-, called⟩
        · rw [args] at short
          simp only [length_cons, Command.minArgs] at short
          omega
        · exact called
      obtain ⟨result, handled, leaves⟩ := called.xadd
      rw [args] at handled
      exact ⟨first, text, newId, _, result, name, args, even, added, parsed, handled, leaves⟩
    · cases accepted
  · cases accepted

theorem Runs.accepted_queue {key : Key} {id : StreamId} (runs : execution.Runs)
    (accepted : execution.accepted = some (key, id)) (other : Key) :
    execution.after.queue other =
      if other = key then (execution.before.queue key).filter fun client => !waitsBelow id client
      else execution.before.queue other := by
  obtain ⟨_, _, _, _, _, -, -, even, added, parsed, handled, leaves⟩ :=
    runs.xadd_accepted accepted
  rw [HandlerState.queue, leaves.manager]
  exact (handleXaddWithBlocking_wakes even added parsed handled).2.1 other

theorem Runs.accepts {key : Key} {id : StreamId} (runs : execution.Runs)
    (clock : 0 ≤ execution.now.system ∧ execution.now.system < 2 ^ 63)
    (accepted : execution.accepted = some (key, id)) : execution.Accepts key id := by
  obtain ⟨first, text, newId, fields, result, name, args, even, added, parsed, handled, leaves⟩ :=
    runs.xadd_accepted accepted
  obtain ⟨reads, -, sends⟩ := handleXaddWithBlocking_wakes even added parsed handled
  have outcome := Store.xaddIfValidType_extends execution.before.store execution.now key
    text (pairUp fields)
  rw [added] at outcome
  have streams : ∀ other, execution.after.store.streamAt execution.now.steady other =
      (execution.before.store.xaddIfValidType execution.now key text
        (pairUp fields)).1.streamAt execution.now.steady other := by
    intro other
    rw [leaves.store, reads.streamAt]
  cases outcome with
  | refused _ failure _ =>
    have failed : startsWith newId (ascii "ERR") = true := by
      simp only [mem_cons, not_mem_nil, or_false] at failure
      rcases failure with rfl | rfl | rfl <;> decide
    rw [parsed_not_error parsed] at failed
    cases failed
  | added denoted _ chosen _ greater own others =>
    cases (Store.chooseId_parses chosen clock).symm.trans parsed
    refine ⟨name, by rw [args]; rfl, greater, ⟨_, rfl, (streams key).trans own⟩,
      fun other different => (streams other).trans (others other different),
      runs.accepted_queue accepted, ?_⟩
    rw [leaves.sends, sends]
    refine map_congr_left fun client _ => ?_
    rw [entriesMessage, entriesMessage, leaves.store, reads.xread]

theorem Runs.xadd_refused (runs : execution.Runs) (name : execution.cmd = ascii "XADD")
    (refused : execution.accepted = none) :
    execution.after = execution.before ∨ ∃ first key id fields result,
      (fields.length % 2 ≠ 0 ∨ (execution.before.store.xaddIfValidType execution.now key id
        (pairUp fields)).2.bind parse = none) ∧
      handleXaddWithBlocking execution.before.store execution.before.blockingManager
        execution.now (first :: key :: id :: fields) = .ok result ∧ execution.Leaves result := by
  rcases @Runs.named execution runs .xadd name with ⟨-, replied⟩ | ⟨enough, called⟩
  · exact .inl (congrArg Outcome.state replied)
  · obtain ⟨result, handled, leaves⟩ := called.xadd
    obtain ⟨first, key, id, field, fields, args⟩ := four_arguments enough
    unfold Execution.accepted at refused
    rw [args] at handled refused
    refine .inr ⟨first, key, id, _, result, ?_, handled, leaves⟩
    dsimp only at refused
    split at refused
    · exact .inr (Option.map_eq_none_iff.mp refused)
    · rename_i invalid
      exact .inl fun even => invalid ⟨name, even⟩

theorem Runs.refused_manager (runs : execution.Runs) (name : execution.cmd = ascii "XADD")
    (refused : execution.accepted = none) :
    execution.after.blockingManager = execution.before.blockingManager := by
  rcases runs.xadd_refused name refused with same | ⟨_, _, _, _, _, invalid, handled, leaves⟩
  · rw [same]
  · rw [leaves.manager]
    exact handleXaddWithBlocking_unwoken invalid handled

theorem Runs.refuses (runs : execution.Runs)
    (clock : 0 ≤ execution.now.system ∧ execution.now.system < 2 ^ 63)
    (name : execution.cmd = ascii "XADD") (refused : execution.accepted = none) :
    execution.Refuses := by
  refine ⟨fun key => ?_, HandlerState.queue_congr (runs.refused_manager name refused)⟩
  rcases runs.xadd_refused name refused with same | ⟨_, _, _, _, _, invalid, handled, leaves⟩
  · rw [same]
  · rw [leaves.store]
    exact handleXaddWithBlocking_rests clock invalid handled key

end Execution

theorem Execution.Runs.ordered {execution : Execution} (runs : execution.Runs)
    (clock : 0 ≤ execution.now.system ∧ execution.now.system < 2 ^ 63)
    (ordered : execution.before.store.StreamsOrdered) : execution.after.store.StreamsOrdered :=
  ordered.works (Store.ordered_closed clock) (CommandContext.executeCommand_works runs)

theorem CommandContext.history_ordered {start ctx : CommandContext} {events : List Event}
    {observations : List (Option Observation)} (ordered : start.store.StreamsOrdered)
    (clock : ∀ tick, 0 ≤ (start.clock tick).system ∧ (start.clock tick).system < 2 ^ 63)
    (ran : Run.run handle start events = .ok (ctx, observations)) :
    Run.InOrder (fun _ execution =>
      (0 ≤ execution.now.system ∧ execution.now.system < 2 ^ 63) ∧
        execution.before.store.StreamsOrdered ∧ execution.after.store.StreamsOrdered) []
      (start.history events) := by
  have range : ∀ {state : HandlerState}, state.clock = start.clock → ∀ tick,
      0 ≤ (state.clock tick).system ∧ (state.clock tick).system < 2 ^ 63 := by
    intro state same tick
    rw [same]
    exact clock tick
  have steps := (@history_invariant
    (fun _ state => state.clock = start.clock ∧ state.store.StreamsOrdered)
    (fun _ execution runs held => ⟨(executeCommand_wiring runs).clock.trans held.1,
      runs.ordered (range held.1 _) held.2⟩)
    (fun _ before after between held =>
      ⟨between.clock.trans held.1, between.store.symm ▸ held.2⟩)
    _ _ _ _ ran ⟨rfl, ordered⟩).2
  refine steps.imp fun past execution held => ?_
  obtain ⟨⟨same, before⟩, runs⟩ := held
  exact ⟨range same _, before, runs.ordered (range same _) before⟩

end Credis
