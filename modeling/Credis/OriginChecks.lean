import Credis.ValueChecks
import Credis.WakeChecks

/-! Which command a waiting client waits for. Every registration takes the next
number of the manager, so the number of an entry is the place of its command among
those that have blocked. A client that `BLPOP` has registered never waits on a key
with elements. -/

namespace Credis

open ByteString BlockingManager HandlerState BlockedClient

variable {change : BlockingManager → BlockingManager} {key : Key} {before after : HandlerState}
  {place : List Bytes → Bytes → List Bytes}

namespace BlockingManager

structure Fewer (before after : BlockingManager) : Prop where
  next : after.nextNode = before.nextNode
  queue : ∀ key, (after.queue key).Sublist (before.queue key)
  index : ∀ fd, fd ∈ after.fdToClient → fd ∈ before.fdToClient

namespace Fewer

theorem refl (manager : BlockingManager) : manager.Fewer manager :=
  ⟨rfl, fun _ => List.Sublist.refl _, fun _ known => known⟩

theorem trans {first second third : BlockingManager} (left : first.Fewer second)
    (right : second.Fewer third) : first.Fewer third :=
  ⟨right.next.trans left.next, fun key => (right.queue key).trans (left.queue key),
    fun fd known => left.index fd (right.index fd known)⟩

theorem iterate (once : ∀ manager : BlockingManager, manager.Fewer (change manager)) (turns : Nat)
    (manager : BlockingManager) : manager.Fewer (change^[turns] manager) := by
  induction turns generalizing manager with
  | zero => exact refl manager
  | succ turns ih => exact (once manager).trans (ih _)

end Fewer

theorem WakesOne.fewer {manager : BlockingManager} {key : Key}
    {done : BlockingManager × Option BlockedClient} (wakes : manager.WakesOne key done) :
    manager.Fewer done.1 := by
  cases wakes with
  | nobody => exact .refl manager
  | @one client _ =>
    exact ⟨rfl, fun other => manager.queue_erase_sublist key other client _ _,
      fun fd known => (AList.mem_erase.mp known).2⟩

theorem unblockClient_fewer (fd : Fd) (manager : BlockingManager) :
    manager.Fewer (manager.unblockClient fd) := by
  refine ⟨?_, manager.unblockClient_queue fd, fun other known => ?_⟩
  · unfold unblockClient
    split <;> rfl
  · unfold unblockClient at known
    split at known
    · exact known
    · exact (AList.mem_erase.mp known).2

theorem getExpiredClients_fewer (now : Time) (manager : BlockingManager) :
    manager.Fewer (manager.getExpiredClients now).1 := by
  have sweeps := manager.getExpiredClients_sweeps now
  refine ⟨sweeps.nextNode, fun key => ?_, fun fd known => ?_⟩
  · rw [getExpiredClients_queue]
    exact List.filter_sublist
  · rw [← AList.lookup_isSome, sweeps.index] at known
    split at known
    · cases known
    · exact AList.lookup_isSome.mp known

end BlockingManager

def registrations (past : List Execution) : List Execution :=
  past.filter fun execution => execution.outcome.result = .block

namespace BlockedClient

def origin (client : BlockedClient) (past : List Execution) : Option Execution :=
  (registrations past)[client.node]?

def waitsForList (client : BlockedClient) (past : List Execution) : Bool :=
  (client.origin past).any fun execution => execution.cmd == ascii "BLPOP"

def waitsForStream (client : BlockedClient) (past : List Execution) : Bool :=
  (client.origin past).any fun execution => execution.cmd == ascii "XREAD"

end BlockedClient

/-- The numbers in the queues are those of the commands that have blocked. -/
structure Registered (past : List Execution) (state : HandlerState) : Prop where
  next : ∀ manager, state.blockingManager = some manager →
    manager.nextNode = (registrations past).length
  ascending : ∀ key, (state.queue key).Pairwise fun first second => first.node < second.node
  origin : ∀ key, ∀ client ∈ state.queue key, ∃ execution,
    client.origin past = some execution ∧ execution.fd = client.fd ∧
      (execution.cmd = ascii "BLPOP" ∨ execution.cmd = ascii "XREAD")
  threshold : ∀ key, ∀ client ∈ state.queue key, ∃ id,
    client.lastId = (StreamId.parse id).getD ⟨0, 0⟩

namespace Registered

variable {past : List Execution} {state after : HandlerState} {key : Key} {client : BlockedClient}

theorem empty {state : HandlerState} (idle : state.blockingManager = some .empty) :
    Registered [] state where
  next manager present := by
    cases idle.symm.trans present
    rfl
  ascending key := by
    rw [state.queue_some idle]
    exact .nil
  origin key client member := by
    rw [state.queue_some idle] at member
    cases member
  threshold key client member := by
    rw [state.queue_some idle] at member
    cases member

section

variable (registered : Registered past state)

include registered

theorem nodup (key : Key) : (state.queue key).Nodup := by
  refine (registered.ascending key).imp fun less same => ?_
  rw [same] at less
  exact Nat.lt_irrefl _ less

theorem node_lt (member : client ∈ state.queue key) :
    client.node < (registrations past).length := by
  obtain ⟨execution, found, -⟩ := registered.origin key client member
  exact (List.getElem?_eq_some_iff.mp found).1

theorem origin_append (member : client ∈ state.queue key) (execution : Execution) :
    client.origin (past ++ [execution]) = client.origin past := by
  rw [BlockedClient.origin, registrations, List.filter_append]
  exact List.getElem?_append_left (registered.node_lt member)

theorem list_or_stream (member : client ∈ state.queue key) :
    client.waitsForStream past = !client.waitsForList past := by
  obtain ⟨execution, found, -, name⟩ := registered.origin key client member
  rw [waitsForStream, waitsForList, found]
  rcases name with name | name <;> rw [Option.any_some, Option.any_some, name] <;> decide

theorem fewer (changed : after.blockingManager = state.blockingManager.map change)
    (fewer : ∀ manager : BlockingManager, manager.Fewer (change manager)) :
    Registered past after ∧ ∀ key, (after.queue key).Sublist (state.queue key) := by
  have sublist : ∀ key, (after.queue key).Sublist (state.queue key) := by
    intro key
    rw [HandlerState.queue, HandlerState.queue, changed, waitingOn, waitingOn]
    cases state.blockingManager with
    | none => exact List.Sublist.refl _
    | some manager => exact (fewer manager).queue key
  refine ⟨⟨?_, ?_, ?_, ?_⟩, sublist⟩
  · intro manager present
    rw [changed, Option.map_eq_some_iff] at present
    obtain ⟨old, present, rfl⟩ := present
    exact (fewer old).next.trans (registered.next old present)
  · exact fun key => (registered.ascending key).sublist (sublist key)
  · exact fun key client member => registered.origin key client ((sublist key).subset member)
  · exact fun key client member => registered.threshold key client ((sublist key).subset member)

end

end Registered

section Steps

variable {execution : Execution} {past : List Execution}

theorem registrations_open (goes : execution.outcome.result ≠ .block) :
    registrations (past ++ [execution]) = registrations past := by
  rw [registrations, List.filter_append, List.filter_cons_of_neg (by simpa using goes)]
  exact List.append_nil _

theorem registrations_block (blocked : execution.outcome.result = .block) :
    registrations (past ++ [execution]) = registrations past ++ [execution] := by
  rw [registrations, List.filter_append, List.filter_cons_of_pos (by simpa using blocked)]
  rfl

structure Execution.Keeps (execution : Execution) (past : List Execution) : Prop where
  registered : Registered (past ++ [execution]) execution.after
  came : ∀ key, ∀ client ∈ execution.after.queue key, client ∈ execution.before.queue key ∨
    (execution.outcome.result = .block ∧ client.origin (past ++ [execution]) = some execution)

theorem Registered.keeps_fewer (registered : Registered past execution.before)
    (goes : execution.outcome.result ≠ .block)
    (changed : execution.after.blockingManager = execution.before.blockingManager.map change)
    (fewer : ∀ manager : BlockingManager, manager.Fewer (change manager)) :
    execution.Keeps past := by
  obtain ⟨after, sublist⟩ := registered.fewer changed fewer
  refine ⟨⟨?_, after.ascending, ?_, after.threshold⟩,
    fun key client member => .inl ((sublist key).subset member)⟩
  · rw [registrations_open goes]
    exact after.next
  · intro key client member
    rw [BlockedClient.origin, registrations_open goes]
    exact after.origin key client member

theorem Execution.Moves.keeps (moves : execution.Moves)
    (registered : Registered past execution.before) : execution.Keeps past := by
  cases moves with
  | stays goes same =>
    refine registered.keeps_fewer goes (same.trans Option.map_id_apply.symm) fun manager => ?_
    exact .refl manager
  | pushes _ goes _ _ woken =>
    exact registered.keeps_fewer goes woken fun manager =>
      .iterate (fun inner => (inner.wakeClient_wakesOne _).fewer) _ manager
  | adds _ goes _ woken =>
    exact registered.keeps_fewer goes woken fun manager =>
      .iterate (fun inner => (inner.wakeClientForStream_wakesOne _ _).fewer) _ manager
  | @blocks blocking now key lastId timeoutMs name parsed blocked present added =>
    obtain ⟨client, own, place, last, node, next, queues, -, -⟩ :=
      blockClientForStream_adds
        (@rfl _ (blocking.blockClientForStream now execution.fd key lastId timeoutMs))
    have count := registered.next blocking present
    have mine : client.origin (past ++ [execution]) = some execution := by
      rw [origin, registrations_block blocked, node, count]
      exact List.getElem?_concat_length
    have queue : ∀ other, execution.after.queue other =
        if other = key then execution.before.queue key ++ [client]
        else execution.before.queue other := by
      intro other
      rw [queue_some added, queues, queue_some present,
        queue_some present]
    have came : ∀ other, ∀ waiting ∈ execution.after.queue other,
        waiting ∈ execution.before.queue other ∨ waiting = client := by
      intro other waiting member
      rw [queue] at member
      split at member
      · rename_i same
        rw [same]
        exact (List.mem_append.mp member).imp_right List.mem_singleton.mp
      · exact .inl member
    refine ⟨⟨?_, ?_, ?_, ?_⟩, ?_⟩
    · intro manager result
      cases added.symm.trans result
      rw [next, registrations_block blocked, count, List.length_append, List.length_singleton]
    · intro other
      rw [queue]
      split
      · refine List.pairwise_append.mpr
          ⟨registered.ascending key, List.pairwise_singleton _ _, ?_⟩
        intro old member new last
        rw [List.mem_singleton.mp last, node, count]
        exact registered.node_lt member
      · exact registered.ascending other
    · intro other waiting member
      rcases came other waiting member with old | rfl
      · rw [registered.origin_append old]
        exact registered.origin other waiting old
      · exact ⟨execution, mine, own.symm, name⟩
    · intro other waiting member
      rcases came other waiting member with old | rfl
      · exact registered.threshold other waiting old
      · rw [last]
        exact parsed
    · intro other waiting member
      rcases came other waiting member with old | rfl
      · exact .inl old
      · exact .inr ⟨blocked, mine⟩

theorem HandlerState.Between.registered (between : before.Between after)
    (registered : Registered past before) :
    Registered past after ∧ ∀ key, (after.queue key).Sublist (before.queue key) := by
  rcases between.waiting with same | ⟨fd, left⟩ | ⟨now, swept⟩
  · exact registered.fewer (same.trans Option.map_id_apply.symm) fun manager => .refl manager
  · exact registered.fewer left (unblockClient_fewer fd)
  · exact registered.fewer swept (getExpiredClients_fewer now)

end Steps

namespace Store

def Drained (key : Key) (store : Store) : Prop :=
  store.Each fun other value => other = key → ∀ items, value = .list items → items = []

variable {store : Store} {key : Key} {now : Time}

theorem drained_iff : store.Drained key ↔
    ∀ items expiry, store.data.lookup key = some ⟨.list items, expiry⟩ → items = [] := by
  constructor
  · intro drained items expiry present
    exact drained key _ present rfl items rfl
  · rintro drained other ⟨value, expiry⟩ present rfl items rfl
    exact drained items expiry present

theorem Drained.live (drained : store.Drained key) {items : List Bytes}
    (found : store.liveValue now key = some (.list items)) : items = [] := by
  obtain ⟨entry, kept, content⟩ := Option.map_eq_some_iff.mp found
  exact drained key entry (Option.filter_eq_some_iff.mp kept).1 rfl items content

theorem drained_closed {uses : Operation → Prop} {now : Instant}
    (calm : ∀ operation, uses operation → operation.pushes = true → operation.key? ≠ some key) :
    Closed uses (fun other value => other = key → ∀ items, value = .list items → items = [])
      now where
  string _ _ _ _ same := by cases same
  push operation used pushes _ named _ _ own :=
    (calm operation used pushes (own ▸ named)).elim
  pop _ _ _ _ _ items _ shorter held own _ same := by
    cases same
    rw [held own items rfl] at shorter
    exact List.length_eq_zero_iff.mp (Nat.le_zero.mp shorter)
  add _ _ _ _ _ _ _ _ same := by cases same
  remove _ _ _ _ _ _ _ same := by cases same
  stream _ _ _ same := by cases same
  append _ _ _ _ _ _ _ _ _ _ _ _ same := by cases same

theorem lpopCount_one (store : Store) (now : Time) (key : Key) :
    (∃ value rest expiry, store.data.lookup key = some ⟨.list (value :: rest), expiry⟩ ∧
      (store.lpopCount now key 1).2 = [value] ∧
      (store.lpopCount now key 1).1.data.lookup key = some ⟨.list rest, expiry⟩) ∨
    ((store.lpopCount now key 1).2 = [] ∧ (store.lpopCount now key 1).1.Drained key) := by
  unfold lpopCount popMany findValidEntry
  rw [touchKey_data]
  cases present : store.data.lookup key with
  | none =>
    refine .inr ⟨rfl, drained_iff.mpr fun items expiry found => ?_⟩
    cases present.symm.trans found
  | some entry =>
    obtain ⟨value, expiry⟩ := entry
    dsimp only
    cases expired : isExpired now ⟨value, expiry⟩ with
    | true =>
      refine .inr ⟨rfl, drained_iff.mpr fun items expiry found => ?_⟩
      cases (eraseKey_lookup _ _).symm.trans found
    | false =>
      cases value with
      | string _ | stream _ | zset _ =>
        refine .inr ⟨rfl, drained_iff.mpr fun items expiry found => ?_⟩
        cases present.symm.trans found
      | list items =>
        cases items with
        | nil =>
          refine .inr ⟨rfl, drained_iff.mpr fun items expiry found => ?_⟩
          cases present.symm.trans found
          rfl
        | cons first rest =>
          have one : (min 1 ((first :: rest).length : Int)).toNat = 1 := by
            rw [List.length_cons]
            omega
          refine .inl ⟨first, rest, expiry, rfl, ?_⟩
          simp only [Bool.false_eq_true, reduceCtorEq, false_or, Int.reduceLE, if_false,
            one, takeMany, takeFront]
          exact ⟨trivial, put_lookup _ _ _⟩

theorem Drained.pop (drained : store.Drained key) (now : Time) :
    (store.lpopCount now key 1).1.Drained key := by
  rcases store.lpopCount_one now key with ⟨value, rest, expiry, present, -, -⟩ | ⟨-, after⟩
  · cases drained_iff.mp drained _ _ present
  · exact after

theorem Drained.push_pop (alone : ∀ value, (place [] value).length = 1)
    (drained : store.Drained key) (now : Time) (value : Bytes) :
    ((pushIfValidType place store now key value).1.lpopCount now key 1).1.Drained key := by
  have short : ∀ items expiry,
      (pushIfValidType place store now key value).1.data.lookup key = some ⟨.list items, expiry⟩ →
      items.length ≤ 1 := by
    intro items expiry
    unfold pushIfValidType
    split
    · rename_i entry present
      split
      · rw [put_lookup]
        rintro ⟨⟩
        exact Nat.le_of_eq (alone value)
      · split
        · rename_i old content
          rw [put_lookup]
          rintro ⟨⟩
          rw [drained key entry present rfl old content]
          exact Nat.le_of_eq (alone value)
        · rename_i other
          intro same
          cases present.symm.trans same
          exact (other items rfl).elim
    · rw [put_lookup]
      rintro ⟨⟩
      exact Nat.le_of_eq (alone value)
  rcases (pushIfValidType place store now key value).1.lpopCount_one now key with
    ⟨first, rest, expiry, present, -, after⟩ | ⟨-, after⟩
  · refine drained_iff.mpr fun items expiry found => ?_
    cases after.symm.trans found
    exact List.length_eq_zero_iff.mp (by simpa using short _ _ present)
  · exact after

end Store

section Pushes

variable {now : Time} {key : Key} {state : PushState}

theorem waitingOn_wake (manager : Option BlockingManager) (key : Key) :
    waitingOn (manager.map (BlockingManager.wake key)) key = (waitingOn manager key).tail := by
  cases manager with
  | none => rfl
  | some blocking => exact (blocking.wake_queue key key).trans (if_pos rfl)

theorem tryWake_woken (now : Time) (key : Key) (state : PushState) :
    ((tryWake now key state).2 = true ∧
      (tryWake now key state).1.store = (state.store.lpopCount now key 1).1) ∨
    (waitingOn state.manager key = [] ∧ tryWake now key state = (state, false)) := by
  unfold tryWake
  split
  · rename_i absent
    exact .inr ⟨by rw [absent]; rfl, rfl⟩
  rename_i blocking present
  split
  · rename_i same waking
    refine .inr ⟨?_, rfl⟩
    unfold wakeClient at waking
    split at waking
    · rename_i empty
      rw [present]
      exact empty
    · cases waking
  · rename_i after client waking
    split
    · rename_i popped
      exact .inl ⟨rfl, by rw [popped]⟩
    · rename_i popped
      exact .inl ⟨rfl, by rw [popped]⟩

def PushState.Served (key : Key) (state : PushState) : Prop :=
  waitingOn state.manager key ≠ [] → state.store.Drained key

theorem pushStep_served (push : Store → Time → Key → Bytes → Store × Int)
    (served : state.Served key) (value : Bytes) :
    (pushStep push now key state value).Served key := by
  intro waiting
  rw [pushStep_manager, waitingOn_wake] at waiting
  have before : waitingOn state.manager key ≠ [] := fun absent => waiting (by rw [absent]; rfl)
  rcases tryWake_woken now key state with ⟨woken, store⟩ | ⟨absent, -⟩
  · have popped := (served before).pop now
    rw [← store] at popped
    unfold pushStep
    generalize tryWake now key state = turn at woken popped
    obtain ⟨after, flag⟩ := turn
    cases woken
    exact popped
  · exact (before absent).elim

theorem handlePushWithBlocking_served {store : Store} {manager : Option BlockingManager}
    {name value : Bytes} {values : List Bytes} {outcome : BlockingOutcome}
    (alone : ∀ value, (place [] value).length = 1) (drained : store.Drained key)
    (done : handlePushWithBlocking (Store.pushIfValidType place) (Store.push place) store manager
      now (name :: key :: value :: values) = .ok outcome)
    (waiting : waitingOn outcome.manager key ≠ []) : outcome.store.Drained key := by
  unfold handlePushWithBlocking at done
  dsimp only at done
  split at done
  · rename_i after refused
    cases done
    rw [(Store.pushIfValidType_acts now key place value (alone value)).failed (by simp) refused]
    exact drained
  · rename_i after count pushed
    cases done
    have start : PushState.Served key (tryWake now key ⟨after, manager, count, []⟩).1 := by
      intro still
      have popped := drained.push_pop alone now value
      rw [pushed] at popped
      rcases tryWake_woken now key ⟨after, manager, count, []⟩ with ⟨-, store⟩ | ⟨absent, same⟩
      · rw [store]
        exact popped
      · rw [same] at still
        exact (still absent).elim
    exact List.foldlRecOn values (pushStep (Store.push place) now key) start
      (fun _ served value _ => pushStep_served (Store.push place) served value) waiting

end Pushes

def HandlerState.Served (state : HandlerState) (past : List Execution) : Prop :=
  ∀ key, ∀ client ∈ state.queue key, client.waitsForList past = true → state.store.Drained key

namespace Execution

variable {execution : Execution} {past : List Execution}

theorem Runs.drained (runs : execution.Runs) (right : execution.cmd ≠ ascii "RPUSH")
    (left : execution.cmd ≠ ascii "LPUSH") (drained : execution.before.store.Drained key) :
    execution.after.store.Drained key := by
  refine Store.Each.works (Store.drained_closed ?_) drained
    (CommandContext.executeCommand_works runs)
  rintro operation ⟨writes, command, found, used⟩ pushes
  cases used with
  | reads _ passes => cases writes.symm.trans passes
  | rpushIfValidType | rpush => exact (right (lookup_name found)).elim
  | lpushIfValidType | lpush => exact (left (lookup_name found)).elim
  | _ => cases pushes

theorem Runs.blpop_drained {client : BlockedClient} (runs : execution.Runs)
    (name : execution.cmd = ascii "BLPOP") (blocked : execution.outcome.result = .block)
    (member : client ∈ execution.after.queue key) (new : client ∉ execution.before.queue key) :
    execution.after.store.Drained key := by
  obtain ⟨result, handled, leaves⟩ := (@Runs.calls execution runs .blpop name blocked).blpop
  obtain ⟨blocking, place, _, timeoutMs, present, ⟨_, _, _, _, -, -, taken, rfl, -⟩, waiting⟩ :=
    leaves.waits blocked (handleBlpop_ends handled)
  obtain ⟨entry, -, -, -, -, -, queues, -, -⟩ :=
    blockClientForStream_adds (@rfl _ (blocking.blockClientForStream
      execution.now.steady execution.fd place ⟨0, 0⟩ timeoutMs))
  rw [queue_some waiting] at member
  rw [queue_some present] at new
  have same : key = place := by
    by_contra different
    rw [queues, if_neg different] at member
    exact new member
  rcases execution.before.store.lpopCount_one execution.now.steady place with
    ⟨value, _, _, -, popped, -⟩ | ⟨-, drained⟩
  · rw [taken] at popped
    cases popped
  · rw [taken] at drained
    exact same ▸ drained

theorem Calls.push_served {command : Command} (push : command = .rpush ∨ command = .lpush)
    (called : execution.Calls command) {key : Key} (waiting : execution.after.queue key ≠ [])
    (drained : execution.before.store.Drained key) : execution.after.store.Drained key := by
  obtain ⟨place, result, side, alone, handled, leaves⟩ := called.push push
  obtain ⟨name, target, value, values, args⟩ := handlePushWithBlocking_args handled
  rw [args] at handled
  by_cases same : key = target
  · subst same
    rw [HandlerState.queue, leaves.manager] at waiting
    rw [leaves.store]
    exact handlePushWithBlocking_served alone drained handled waiting
  · -- every operation of the command names the other key
    have own : execution.args.getD 1 [] = target := by rw [args]; rfl
    have works : Store.Works (fun operation => operation.key? = some target) execution.now
        execution.before.store execution.after.store := by
      rcases push with rfl | rfl
      all_goals
        refine @handler_calls _ execution.before.tick _ _ _ _ _ _ _ (fun _ used => .inr ?_) called
        cases used with
        | reads reader => exact absurd reader (by decide)
        | _ => exact congrArg some own
    refine Store.Each.works (Store.drained_closed fun operation named _ own => ?_) drained works
    exact same (Option.some.inj (own.symm.trans named))

theorem Runs.served (runs : execution.Runs) (registered : Registered past execution.before)
    (served : execution.before.Served past) : execution.after.Served (past ++ [execution]) := by
  have keeps := runs.moves.keeps registered
  intro key client member kind
  by_cases old : client ∈ execution.before.queue key
  · have drained := served key client old (by
      rwa [waitsForList, registered.origin_append old] at kind)
    rcases runs.cases with ⟨reply, replied⟩ | ⟨command, name, -, called⟩
    · rw [after, replied]
      exact drained
    by_cases push : command = .rpush ∨ command = .lpush
    · exact called.push_served push (List.ne_nil_of_mem member) drained
    rw [not_or] at push
    refine runs.drained ?_ ?_ drained
    · exact fun other => push.1 (@Command.name_inj command .rpush (name.symm.trans other))
    · exact fun other => push.2 (@Command.name_inj command .lpush (name.symm.trans other))
  · obtain ⟨blocked, mine⟩ := (keeps.came key client member).resolve_left old
    rw [waitsForList, mine, Option.any_some, beq_iff_eq] at kind
    exact runs.blpop_drained kind blocked member old

end Execution

theorem HandlerState.Between.served {past : List Execution} (between : before.Between after)
    (registered : Registered past before) (served : before.Served past) : after.Served past := by
  obtain ⟨-, sublist⟩ := between.registered registered
  intro key client member kind
  rw [between.store]
  exact served key client ((sublist key).subset member) kind

namespace CommandContext

theorem history_served {start ctx : CommandContext} {events : List Event}
    {observations : List (Option Observation)} (idle : start.blockingManager = some .empty)
    (ran : Run.run handle start events = .ok (ctx, observations)) :
    (Registered (start.history events) ctx.toHandlerState ∧
      ctx.toHandlerState.Served (start.history events)) ∧
    Run.InOrder (fun past execution => (Registered past execution.before ∧
      execution.before.Served past) ∧ execution.Runs) [] (start.history events) := by
  refine @history_invariant (fun past state => Registered past state ∧ state.Served past)
    ?_ ?_ _ _ _ _ ran ⟨.empty idle, ?_⟩
  · rintro past execution runs ⟨registered, served⟩
    exact ⟨(runs.moves.keeps registered).registered, runs.served registered served⟩
  · rintro past before after between ⟨registered, served⟩
    exact ⟨(between.registered registered).1, between.served registered served⟩
  · intro key client member
    rw [start.toHandlerState.queue_some idle] at member
    cases member

/-- Behind every command, inside a transaction or not, and at the end: a client that
`BLPOP` has registered waits only on keys that hold no live list with elements. -/
theorem blpop_waits_without_elements {start ctx : CommandContext} {events : List Event}
    {observations : List (Option Observation)} (idle : start.blockingManager = some .empty)
    (ran : Run.run handle start events = .ok (ctx, observations)) :
    (∀ key, ∀ client ∈ ctx.queue key, client.waitsForList (start.history events) = true →
      ∀ now items, ctx.store.liveValue now key = some (.list items) → items = []) ∧
    Run.InOrder (fun past execution => ∀ key, ∀ client ∈ execution.after.queue key,
      client.waitsForList (past ++ [execution]) = true →
        ∀ now items, execution.after.store.liveValue now key = some (.list items) → items = [])
      [] (start.history events) := by
  obtain ⟨⟨-, served⟩, each⟩ := history_served idle ran
  refine ⟨fun key client member kind now items => (served key client member kind).live, ?_⟩
  refine each.imp fun past execution held => ?_
  obtain ⟨⟨registered, before⟩, runs⟩ := held
  intro key client member kind now items
  exact (runs.served registered before key client member kind).live

theorem waiting_client_finds_no_elements :
    ∃ run, Run.run handle (twoClients 0)
        [.words 5 ["BLPOP", "k", "0"], .words 6 ["BLPOP", "k", "0"], .connect 7,
          .words 7 ["MULTI"], .words 7 ["RPUSH", "k", "v"], .words 7 ["EXEC"]] = .ok run ∧
      run.1.queue (ascii "k") = [⟨6, ascii "k", timeMax, ⟨0, 0⟩, 1⟩] ∧
      ∀ now items, run.1.store.liveValue now (ascii "k") = some (.list items) → items = [] := by
  refine Run.of_checked (fun run => run.1.queue (ascii "k") = [⟨6, ascii "k", timeMax, ⟨0, 0⟩, 1⟩])
    (by decide +kernel) fun run ran waits => ⟨waits, ?_⟩
  exact (blpop_waits_without_elements rfl ran).1 (ascii "k") _
    (waits ▸ List.mem_singleton_self _) (by decide +kernel)

end CommandContext

end Credis
