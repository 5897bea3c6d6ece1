import Credis.PushChecks
import Credis.TraceChecks

/-! What each command does to the clients that wait. A push takes one out of the
front of the queue for each of its values, an `XADD` those whose threshold lies
below the new ID, and a command that blocks puts its own client at the end. -/

namespace Credis

open ByteString

variable {result : BlockingOutcome} {state : HandlerState} {command : Command} {fd : Fd}

namespace BlockingManager

variable {manager : BlockingManager} {key other : Key}

def wake (key : Key) (manager : BlockingManager) : BlockingManager := (manager.wakeClient key).1

def wakeBehind (key : Key) (newId : Bytes) (manager : BlockingManager) : BlockingManager :=
  (manager.wakeClientForStream key newId).1

theorem wake_queue (manager : BlockingManager) (key other : Key) :
    (manager.wake key).queue other =
      if other = key then (manager.queue key).tail else manager.queue other := by
  unfold wake wakeClient
  split
  · rename_i empty
    split
    · rename_i same
      rw [same, empty]
      rfl
    · rfl
  · rename_i client rest queued
    rw [queue_setQueue, queued]
    rfl

theorem wake_iterate_queue (manager : BlockingManager) (key other : Key) (turns : Nat) :
    ((wake key)^[turns] manager).queue other =
      if other = key then (manager.queue key).drop turns else manager.queue other := by
  induction turns generalizing manager with
  | zero =>
    rw [Function.iterate_zero_apply, List.drop_zero]
    split
    · rename_i same
      rw [same]
    · rfl
  | succ turns ih =>
    rw [Function.iterate_succ_apply, ih]
    split
    · rw [wake_queue, if_pos rfl, List.drop_tail]
    · rename_i different
      rw [wake_queue, if_neg different]

theorem blockClientForStream_adds {now : Time} {lastId : StreamId} {timeoutMs : Int}
    {after : BlockingManager}
    (added : manager.blockClientForStream now fd key lastId timeoutMs = after) :
    ∃ client : BlockedClient, client.fd = fd ∧ client.key = key ∧ client.lastId = lastId ∧
      client.node = manager.nextNode ∧ after.nextNode = manager.nextNode + 1 ∧
      (∀ other, after.queue other =
        if other = key then manager.queue key ++ [client] else manager.queue other) ∧
      (∀ other, after.fdToClient.lookup other =
        if other = fd then some client else manager.fdToClient.lookup other) ∧
      ∀ other, other ∈ after.blockedClients ↔ other = key ∨ other ∈ manager.blockedClients := by
  subst added
  refine ⟨⟨fd, key, if timeoutMs = 0 then timeMax else addMillis now timeoutMs, lastId,
    manager.nextNode⟩, rfl, rfl, rfl, rfl, rfl, fun other => ?_, fun other => ?_,
    fun other => AList.mem_insert _⟩
  · split
    · rename_i same
      subst same
      simp only [blockClientForStream, queue, AList.lookup_insert, Option.getD_some]
    · rename_i different
      exact queue_blockClientForStream _ _ _ _ _ _ _ different
  · split
    · rename_i same
      subst same
      simp only [blockClientForStream, AList.lookup_insert]
    · rename_i different
      simp only [blockClientForStream, AList.lookup_insert_ne different]

def waitsBelow (id : StreamId) (client : BlockedClient) : Bool := StreamId.lt client.lastId id

theorem filter_erase_of_neg {α : Type} [DecidableEq α] {keeps : α → Bool} {gone : α}
    (fails : keeps gone = false) (items : List α) :
    (items.erase gone).filter keeps = items.filter keeps := by
  induction items with
  | nil => rfl
  | cons item items ih =>
    by_cases same : item = gone
    · subst same
      rw [List.erase_cons_head, List.filter_cons_of_neg (by simp [fails])]
    · rw [List.erase_cons_tail (by simpa using same), List.filter_cons, List.filter_cons, ih]

theorem wakeBehind_iterate_queue_ne (newId : Bytes) (different : other ≠ key) (turns : Nat)
    (manager : BlockingManager) :
    ((wakeBehind key newId)^[turns] manager).queue other = manager.queue other := by
  induction turns generalizing manager with
  | zero => rfl
  | succ turns ih =>
    rw [Function.iterate_succ_apply, ih]
    exact (manager.wakeClientForStream_wakesOne key newId).queue_ne different

section Behind

variable {newId : Bytes} {id : StreamId} (parsed : StreamId.parse newId = some id)
include parsed

theorem wakeClientForStream_none (found : (manager.queue key).find? (waitsBelow id) = none) :
    manager.wakeClientForStream key newId = (manager, none) := by
  have found : (manager.queue key).find? (fun client => StreamId.lt client.lastId id) = none :=
    found
  unfold wakeClientForStream
  rw [parsed]
  dsimp only
  rw [found]

theorem wakeClientForStream_some {client : BlockedClient}
    (found : (manager.queue key).find? (waitsBelow id) = some client) :
    manager.wakeClientForStream key newId =
      (manager.released key client, some client) := by
  have found : (manager.queue key).find? (fun client => StreamId.lt client.lastId id) =
      some client := found
  unfold wakeClientForStream
  rw [parsed]
  dsimp only
  rw [found]
  rfl

theorem wakeBehind_iterate_queue {turns : Nat}
    (enough : (manager.queue key).countP (waitsBelow id) ≤ turns) :
    ((wakeBehind key newId)^[turns] manager).queue key =
      (manager.queue key).filter fun client => !waitsBelow id client := by
  induction turns generalizing manager with
  | zero =>
    have absent : ∀ client ∈ manager.queue key, waitsBelow id client = false := by
      have zero := List.countP_eq_zero.mp (Nat.le_zero.mp enough)
      exact fun client member => by simpa using zero client member
    exact (List.filter_eq_self.mpr fun client member => by simp [absent client member]).symm
  | succ turns ih =>
    rw [Function.iterate_succ_apply]
    cases found : (manager.queue key).find? (waitsBelow id) with
    | none =>
      rw [wakeBehind, wakeClientForStream_none parsed found]
      refine ih ?_
      rw [List.countP_eq_zero.mpr (List.find?_eq_none.mp found)]
      exact Nat.zero_le _
    | some client =>
      have passed := List.find?_some found
      have woken : (manager.wakeBehind key newId).queue key =
          (manager.queue key).erase client := by
        rw [wakeBehind, wakeClientForStream_some parsed found]
        exact (queue_released _ _ _ _).trans (if_pos rfl)
      have fewer : ((manager.queue key).erase client).countP (waitsBelow id) ≤ turns := by
        have taken := (List.perm_cons_erase (List.mem_of_find?_eq_some found)).countP_eq
          (waitsBelow id)
        rw [List.countP_cons_of_pos passed] at taken
        omega
      rw [ih (woken ▸ fewer), woken]
      exact filter_erase_of_neg (by simp [passed]) _

end Behind

end BlockingManager

def waitingOn (manager : Option BlockingManager) (key : Key) : List BlockedClient :=
  (manager.map fun blocking => blocking.queue key).getD []

namespace HandlerState

def queue (state : HandlerState) (key : Key) : List BlockedClient :=
  waitingOn state.blockingManager key

theorem queue_some {manager : BlockingManager} (present : state.blockingManager = some manager)
    (key : Key) : state.queue key = manager.queue key := by
  rw [queue, present]
  rfl

theorem queue_congr {other : HandlerState} (same : other.blockingManager = state.blockingManager)
    (key : Key) : other.queue key = state.queue key := by
  rw [queue, queue, same]

end HandlerState

open BlockingManager (wake wakeBehind)

section Handlers

variable {store : Store} {manager : Option BlockingManager} {now : Time} {fd : Fd} {key : Key}
  {args : List Bytes} {outcome : BlockingOutcome}

theorem tryWake_manager (now : Time) (key : Key) (state : PushState) :
    (tryWake now key state).1.manager = state.manager.map (wake key) := by
  unfold tryWake
  split
  · rename_i absent
    rw [absent]
    rfl
  · rename_i blocking present
    rw [present, Option.map_some, wake]
    split
    · rename_i same waking
      rw [(blocking.wakeClient_wakesOne key).stays (by rw [waking]), present]
    · rename_i after client waking
      rw [waking]
      split
      · rfl
      · rfl

theorem pushStep_manager (push : Store → Time → Key → Bytes → Store × Int) (now : Time)
    (key : Key) (state : PushState) (value : Bytes) :
    (pushStep push now key state value).manager = state.manager.map (wake key) := by
  rw [← tryWake_manager now key state]
  unfold pushStep
  split
  · rename_i waking
    rw [waking]
  · rename_i waking
    rw [waking]

theorem pushSteps_manager (push : Store → Time → Key → Bytes → Store × Int) (now : Time)
    (key : Key) (values : List Bytes) (state : PushState) :
    (values.foldl (pushStep push now key) state).manager =
      state.manager.map (wake key)^[values.length] := by
  induction values generalizing state with
  | nil => simp
  | cons value values ih =>
    rw [List.foldl_cons, ih, pushStep_manager, Option.map_map, List.length_cons,
      Function.iterate_succ]

theorem handlePushWithBlocking_manager
    {pushIfValidType : Store → Time → Key → Bytes → Store × Option Int}
    {push : Store → Time → Key → Bytes → Store × Int}
    (done : handlePushWithBlocking pushIfValidType push store manager now args = .ok outcome) :
    outcome.blocked = false ∧ ∃ name key value values, args = name :: key :: value :: values ∧
      (((pushIfValidType store now key value).2 = none ∧ outcome.manager = manager ∧
          outcome.sends = []) ∨
        ((pushIfValidType store now key value).2 ≠ none ∧
          outcome.manager = manager.map (wake key)^[values.length + 1])) := by
  unfold handlePushWithBlocking at done
  split at done
  · rename_i name key value values
    split at done
    · rename_i refused
      cases done
      exact ⟨rfl, name, key, value, values, rfl, .inl ⟨by rw [refused], rfl, rfl⟩⟩
    · rename_i after count pushed
      cases done
      refine ⟨rfl, name, key, value, values, rfl, .inr ⟨by rw [pushed]; simp, ?_⟩⟩
      dsimp only
      rw [pushSteps_manager, tryWake_manager, Option.map_map, Function.iterate_succ]
  · cases done

theorem wakeStreamClients_manager (now : Time) (key : Key) (newId : Bytes) (fuel : Nat)
    (store : Store) (blocking : BlockingManager) :
    (wakeStreamClients now key newId fuel store blocking).2.1 =
      (wakeBehind key newId)^[fuel] blocking := by
  induction fuel generalizing store blocking with
  | zero => rfl
  | succ fuel ih =>
    rw [Function.iterate_succ_apply]
    unfold wakeStreamClients
    split
    · rename_i after waking
      have stays : wakeBehind key newId blocking = blocking :=
        (blocking.wakeClientForStream_wakesOne key newId).stays (by rw [waking])
      have same : after = blocking := by
        rw [← stays, wakeBehind, waking]
      rw [stays, Function.iterate_fixed stays]
      exact same
    · rename_i after client waking
      have woken : wakeBehind key newId blocking = after := by rw [wakeBehind, waking]
      rw [woken]
      exact ih _ _

theorem handleXaddWithBlocking_manager {instant : Instant}
    (done : handleXaddWithBlocking store manager instant args = .ok outcome) :
    outcome.blocked = false ∧
      ((outcome.manager = manager ∧ outcome.sends = []) ∨
        ∃ name key id fields newId blocking, args = name :: key :: id :: fields ∧
          (store.xaddIfValidType instant key id (pairUp fields)).2 = some newId ∧
          startsWith newId (ascii "ERR") = false ∧ manager = some blocking ∧
          outcome.manager =
            some ((wakeBehind key newId)^[(blocking.queue key).length] blocking) ∧
          outcome.sends = (wakeStreamClients instant.steady key newId (blocking.queue key).length
            (store.xaddIfValidType instant key id (pairUp fields)).1 blocking).2.2) := by
  unfold handleXaddWithBlocking at done
  split at done
  · rename_i name key id fields
    split at done
    · cases done
      exact ⟨rfl, .inl ⟨rfl, rfl⟩⟩
    split at done
    · cases done
      exact ⟨rfl, .inl ⟨rfl, rfl⟩⟩
    rename_i after newId added
    split at done
    · cases done
      exact ⟨rfl, .inl ⟨rfl, rfl⟩⟩
    rename_i accepted
    split at done
    · cases done
      exact ⟨rfl, .inl ⟨rfl, rfl⟩⟩
    rename_i blocking
    cases done
    refine ⟨rfl, .inr ⟨name, key, id, fields, newId, blocking, rfl, by rw [added],
      by simpa using accepted, rfl, ?_, ?_⟩⟩
    · exact congrArg some (wakeStreamClients_manager _ _ _ _ _ _)
    · rw [added]
  · cases done

end Handlers

def Command.blocking : Command → Bool
  | .rpush | .lpush | .blpop | .xadd | .xread => true
  | _ => false

theorem handler_idle {now : Instant} {forked : Bool} {send : Bool} {args : List Bytes}
    {outcome : Outcome} (other : command.blocking = false)
    (handled : command.handler state now forked fd send args = .ok outcome) :
    outcome.result ≠ .block ∧ outcome.state.blockingManager = state.blockingManager := by
  cases Command.handled handled with
  | blocking _ member =>
    simp only [List.mem_cons, List.not_mem_nil, or_false] at member
    rcases member with rfl | rfl | rfl | rfl | rfl <;> cases other
  | wait =>
    refine ⟨?_, rfl⟩
    unfold handleWait
    repeat' split
    all_goals simp
  | _ => exact ⟨by simp [HandlerState.replied], rfl⟩

namespace Execution

structure Leaves (execution : Execution) (left : BlockingOutcome) : Prop where
  store : execution.after.store = left.store
  manager : execution.after.blockingManager = left.manager
  result : execution.outcome.result = if left.blocked then .block else .normal
  reply : execution.outcome.reply = left.reply
  sends : execution.outcome.sends = left.sends

section Calls

variable {execution : Execution}

theorem leaves_of_onBlocking {handled : Except Fault BlockingOutcome}
    (called : execution.before.tick.onBlocking true handled = .ok execution.outcome) :
    ∃ result, handled = .ok result ∧ execution.Leaves result := by
  obtain ⟨result, success, -, done⟩ := onBlocking_ok called
  exact ⟨result, success, by rw [after, done], by rw [after, done], by rw [done], by rw [done],
    by rw [done]⟩

theorem Calls.push (push : command = .rpush ∨ command = .lpush) (called : execution.Calls command) :
    ∃ place result, (place = Store.pushBack ∨ place = Store.pushFront) ∧
      (∀ value, (place [] value).length = 1) ∧
      handlePushWithBlocking (Store.pushIfValidType place) (Store.push place)
        execution.before.store execution.before.blockingManager execution.now.steady
        execution.args = .ok result ∧ execution.Leaves result := by
  rcases push with rfl | rfl
  · obtain ⟨result, handled, leaves⟩ := leaves_of_onBlocking called
    exact ⟨Store.pushBack, result, .inl rfl, fun _ => rfl, handled, leaves⟩
  · obtain ⟨result, handled, leaves⟩ := leaves_of_onBlocking called
    exact ⟨Store.pushFront, result, .inr rfl, fun _ => rfl, handled, leaves⟩

theorem Calls.blpop (called : execution.Calls .blpop) :
    ∃ result, handleBlpop execution.before.store execution.before.blockingManager
        execution.now.steady execution.fd execution.args = .ok result ∧ execution.Leaves result :=
  leaves_of_onBlocking called

theorem Calls.xadd (called : execution.Calls .xadd) :
    ∃ result, handleXaddWithBlocking execution.before.store execution.before.blockingManager
        execution.now execution.args = .ok result ∧ execution.Leaves result :=
  leaves_of_onBlocking called

theorem Calls.xread (called : execution.Calls .xread) :
    execution.Leaves (handleXreadWithBlocking execution.before.store
      execution.before.blockingManager execution.now.steady execution.fd execution.args) := by
  have called : execution.before.tick.onBlocking true (.ok (handleXreadWithBlocking
      execution.before.store execution.before.blockingManager execution.now.steady execution.fd
      execution.args)) = .ok execution.outcome := called
  obtain ⟨result, handled, leaves⟩ := leaves_of_onBlocking called
  cases handled
  exact leaves

theorem Leaves.open_result (leaves : execution.Leaves result) (goes : result.blocked = false) :
    execution.outcome.result ≠ .block := by
  rw [leaves.result, goes]
  simp

end Calls

inductive Moves (execution : Execution) : Prop
  | stays : execution.outcome.result ≠ .block →
      execution.after.blockingManager = execution.before.blockingManager → Moves execution
  | blocks {blocking : BlockingManager} {now : Time} {key : Key} {lastId : StreamId}
      {timeoutMs : Int} : execution.cmd = ascii "BLPOP" ∨ execution.cmd = ascii "XREAD" →
      (∃ id, lastId = (StreamId.parse id).getD ⟨0, 0⟩) → execution.outcome.result = .block →
      execution.before.blockingManager = some blocking →
      execution.after.blockingManager =
        some (blocking.blockClientForStream now execution.fd key lastId timeoutMs) →
      Moves execution
  | pushes {name key value : Bytes} {values : List Bytes} :
      execution.cmd = ascii "RPUSH" ∨ execution.cmd = ascii "LPUSH" →
      execution.outcome.result ≠ .block → execution.args = name :: key :: value :: values →
      (execution.before.store.foundList execution.now.steady key).isSome = true →
      execution.after.blockingManager =
        execution.before.blockingManager.map (wake key)^[values.length + 1] →
      Moves execution
  | adds {name key id newId : Bytes} {fields : List Bytes} {turns : Nat} :
      execution.cmd = ascii "XADD" → execution.outcome.result ≠ .block →
      execution.args = name :: key :: id :: fields →
      execution.after.blockingManager =
        execution.before.blockingManager.map (wakeBehind key newId)^[turns] →
      Moves execution

section Moves

variable {execution : Execution}

theorem Calls.push_moves (push : command = .rpush ∨ command = .lpush)
    (name : execution.cmd = command.name) (called : execution.Calls command) : execution.Moves := by
  obtain ⟨place, result, -, single, handled, leaves⟩ := called.push push
  obtain ⟨goes, first, key, value, values, args, ⟨-, same, -⟩ | ⟨accepted, woken⟩⟩ :=
    handlePushWithBlocking_manager handled
  · exact .stays (leaves.open_result goes) (leaves.manager.trans same)
  refine .pushes ?_ (leaves.open_result goes) args ?_ (leaves.manager.trans woken)
  · rcases push with rfl | rfl
    · exact .inl name
    · exact .inr name
  · exact Option.isSome_iff_ne_none.mpr fun other => accepted
      (congrArg Prod.snd ((Store.pushIfValidType_acts _ key place value (single value)).other
        (Store.foundList_none other)))

theorem Leaves.waits {waits : Store → Key → StreamId → Int → Prop}
    (leaves : execution.Leaves result) (blocked : execution.outcome.result = .block)
    (ends : result.Ends execution.before.blockingManager execution.now.steady execution.fd waits) :
    ∃ blocking key lastId timeoutMs, execution.before.blockingManager = some blocking ∧
      waits execution.after.store key lastId timeoutMs ∧ execution.after.blockingManager =
        some (blocking.blockClientForStream execution.now.steady execution.fd key lastId
          timeoutMs) := by
  cases ends with
  | refused | popped | read => exact (leaves.open_result rfl blocked).elim
  | blocks present waits =>
    exact ⟨_, _, _, _, present, leaves.store ▸ waits, leaves.manager⟩

theorem Leaves.moves {waits : Store → Key → StreamId → Int → Prop}
    (leaves : execution.Leaves result)
    (name : execution.cmd = ascii "BLPOP" ∨ execution.cmd = ascii "XREAD")
    (ends : result.Ends execution.before.blockingManager execution.now.steady execution.fd waits)
    (threshold : ∀ after key lastId timeoutMs, waits after key lastId timeoutMs →
      ∃ id, lastId = (StreamId.parse id).getD ⟨0, 0⟩) : execution.Moves := by
  cases ends with
  | refused | popped | read => exact .stays (leaves.open_result rfl) leaves.manager
  | blocks present waits =>
    exact .blocks name (threshold _ _ _ _ waits) leaves.result present leaves.manager

theorem Runs.moves (runs : execution.Runs) : execution.Moves := by
  rcases runs.cases with ⟨reply, replied⟩ | ⟨command, name, -, called⟩
  · refine .stays ?_ ?_
    · rw [replied]
      simp [HandlerState.replied]
    · rw [after, replied]
      rfl
  · cases kind : command.blocking with
    | false =>
      obtain ⟨goes, same⟩ := handler_idle kind called
      refine .stays goes (same.trans ?_)
      split <;> rfl
    | true =>
      cases command with
      | rpush => exact called.push_moves (.inl rfl) name
      | lpush => exact called.push_moves (.inr rfl) name
      | blpop =>
        obtain ⟨result, handled, leaves⟩ := called.blpop
        refine leaves.moves (.inl name) (handleBlpop_ends handled) ?_
        rintro _ _ _ _ ⟨_, _, _, _, _, _, _, rfl, _⟩
        exact ⟨[], rfl⟩
      | xread =>
        refine called.xread.moves (.inr name) (handleXread_ends _ _ _ _ _) ?_
        rintro _ _ _ _ ⟨_, _, _, _, _, rfl, _⟩
        exact ⟨_, rfl⟩
      | xadd =>
        obtain ⟨result, handled, leaves⟩ := called.xadd
        obtain ⟨goes, ⟨same, -⟩ | ⟨_, key, id, fields, newId, blocking, args, -, -, present,
          woken, -⟩⟩ := handleXaddWithBlocking_manager handled
        · exact .stays (leaves.open_result goes) (leaves.manager.trans same)
        have moved : execution.after.blockingManager =
            execution.before.blockingManager.map
              (wakeBehind key newId)^[(blocking.queue key).length] := by
          rw [leaves.manager, woken, present, Option.map_some]
        exact .adds name (leaves.open_result goes) args moved
      | _ => cases kind

end Moves

end Execution

end Credis
