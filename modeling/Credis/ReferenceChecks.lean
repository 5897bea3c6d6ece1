import Credis.AckChecks
import Credis.AudienceChecks
import Credis.OriginChecks
import Credis.WaitChecks

/-! Whom the server refers to. Commands make it refer to their own connection at most,
so in a run the references belong to connections that are open, unless one goes and
leaves something behind. -/

namespace Credis

open ByteString

namespace BlockingManager

variable {before after manager : BlockingManager} {fd other : Fd}

def Mentions (manager : BlockingManager) (fd : Fd) : Prop :=
  manager.Waiting fd ∨ fd ∈ manager.fdToClient

theorem empty_mentions (fd : Fd) : ¬ empty.Mentions fd := by
  rintro (waiting | known)
  · exact empty_waiting fd waiting
  · exact AList.notMem_empty fd known

theorem Fewer.mentions (fewer : before.Fewer after) (mentioned : after.Mentions fd) :
    before.Mentions fd := by
  rcases mentioned with ⟨key, client, member, own⟩ | known
  · exact .inl ⟨key, client, (fewer.queue key).subset member, own⟩
  · exact .inr (fewer.index fd known)

theorem blockClientForStream_mentions {now : Time} {key : Key} {lastId : StreamId} {timeoutMs : Int}
    (mentioned : (manager.blockClientForStream now fd key lastId timeoutMs).Mentions other) :
    manager.Mentions other ∨ other = fd := by
  rcases mentioned with waiting | known
  · exact (manager.blockClientForStream_waiting now fd key lastId timeoutMs waiting).imp_left .inl
  · rcases AList.mem_insert _ |>.mp known with same | before
    · exact .inr same
    · exact .inl (.inr before)

def Attends (fd : Fd) (before after : BlockingManager) : Prop :=
  before.Fewer after ∨ ∃ now key lastId timeoutMs,
    after = before.blockClientForStream now fd key lastId timeoutMs

theorem Attends.mentions (attends : Attends fd before after) (mentioned : after.Mentions other) :
    before.Mentions other ∨ other = fd := by
  rcases attends with fewer | ⟨now, key, lastId, timeoutMs, rfl⟩
  · exact .inl (fewer.mentions mentioned)
  · exact blockClientForStream_mentions mentioned

end BlockingManager

namespace PubSubManager

variable {manager : PubSubManager} {fd other : Fd} {channel : Bytes} (different : other ≠ fd)

include different in
theorem isSubscribed_subscribe :
    (manager.subscribe fd channel).1.isSubscribed other = manager.isSubscribed other := by
  rw [isSubscribed, channels_subscribe, if_neg different, isSubscribed]

include different in
theorem isSubscribed_unsubscribe :
    (manager.unsubscribe fd channel).1.isSubscribed other = manager.isSubscribed other := by
  rw [isSubscribed, channels_unsubscribe, if_neg different, isSubscribed]

theorem isSubscribed_unsubscribeAll (manager : PubSubManager) (fd : Fd) :
    (manager.unsubscribeAll fd).isSubscribed fd = false := by
  rw [isSubscribed, channels_unsubscribeAll, if_pos rfl]
  rfl

theorem isSubscribed_unsubscribeAll_ne (manager : PubSubManager) {fd other : Fd}
    (different : other ≠ fd) :
    (manager.unsubscribeAll fd).isSubscribed other = manager.isSubscribed other := by
  rw [isSubscribed, channels_unsubscribeAll, if_neg different, isSubscribed]

end PubSubManager

section Handlers

variable {state : HandlerState} {fd other : Fd} {send : Bool} {args : List Bytes} {cmd : Bytes}
  {outcome : Outcome}

def Attended (fd : Fd) (before after : Option BlockingManager) : Prop :=
  after = before ∨ ∃ earlier later, before = some earlier ∧ after = some later ∧
    BlockingManager.Attends fd earlier later

theorem handler_attends {now : Instant} {forked : Bool} {command : Command}
    (handled : command.handler state now forked fd send args = .ok outcome) :
    Attended fd state.blockingManager outcome.state.blockingManager := by
  have shrinks : ∀ {left : BlockingOutcome} {change : BlockingManager → BlockingManager},
      left.manager = state.blockingManager.map change →
      (∀ manager : BlockingManager, manager.Fewer (change manager)) →
      Attended fd state.blockingManager left.manager := by
    intro left change changed fewer
    cases present : state.blockingManager with
    | none => exact .inl (by rw [changed, present]; rfl)
    | some manager =>
      exact .inr ⟨manager, _, rfl, by rw [changed, present]; rfl, .inl (fewer manager)⟩
  have joins : ∀ {left : BlockingOutcome} {waits : Store → Key → StreamId → Int → Prop},
      left.Ends state.blockingManager now.steady fd waits →
      Attended fd state.blockingManager left.manager := by
    intro left waits ends
    cases ends with
    | refused | popped | read => exact .inl rfl
    | blocks present => exact .inr ⟨_, _, present, rfl, .inr ⟨_, _, _, _, rfl⟩⟩
  cases kind : command.blocking with
  | false => exact .inl (handler_idle kind handled).2
  | true =>
    cases command with
    | rpush | lpush =>
      cases send with
      | false =>
        obtain ⟨result, -, rfl⟩ := onStore_ok handled
        exact .inl rfl
      | true =>
        obtain ⟨result, success, -, rfl⟩ := onBlocking_ok handled
        obtain ⟨-, _, key, _, values, -, ⟨-, same, -⟩ | ⟨-, woken⟩⟩ :=
          handlePushWithBlocking_manager success
        · exact .inl same
        · exact shrinks woken (.iterate (fun inner => (inner.wakeClient_wakesOne key).fewer) _)
    | xadd =>
      obtain ⟨result, success, -, rfl⟩ := onBlocking_ok handled
      obtain ⟨-, ⟨same, -⟩ | ⟨_, key, _, _, newId, blocking, -, -, -, present, woken, -⟩⟩ :=
        handleXaddWithBlocking_manager success
      · exact .inl same
      · exact .inr ⟨blocking, _, present, woken,
          .inl (.iterate (fun inner =>
            (inner.wakeClientForStream_wakesOne key newId).fewer) _ blocking)⟩
    | blpop =>
      obtain ⟨result, success, -, rfl⟩ := onBlocking_ok handled
      exact joins (handleBlpop_ends success)
    | xread =>
      simp only [Command.handler] at handled
      obtain ⟨result, success, -, rfl⟩ := onBlocking_ok handled
      cases success
      exact joins (handleXread_ends _ _ _ _ _)
    | _ => cases kind

theorem executeCommand_attends (done : executeCommand state fd send args cmd = .ok outcome) :
    Attended fd state.blockingManager outcome.state.blockingManager := by
  rcases executeCommand_ok done with ⟨reply, rfl⟩ | ⟨command, ticks, -, handled⟩
  · exact .inl rfl
  · have attends := handler_attends handled
    exact attends

def HandlerState.Mentions (state : HandlerState) (fd : Fd) : Prop :=
  (∃ manager, state.blockingManager = some manager ∧ manager.Mentions fd) ∨
    ∃ manager, state.pubsubManager = some manager ∧ manager.isSubscribed fd = true

theorem executeCommand_mentions (done : executeCommand state fd send args cmd = .ok outcome)
    (mentioned : outcome.state.Mentions other) : state.Mentions other ∨ other = fd := by
  rcases mentioned with ⟨manager, found, mentioned⟩ | ⟨manager, found, listens⟩
  · rcases executeCommand_attends done with same | ⟨before, after, present, left, attends⟩
    · exact .inl (.inl ⟨manager, same ▸ found, mentioned⟩)
    · cases left.symm.trans found
      exact (attends.mentions mentioned).imp_left fun known => .inl ⟨before, present, known⟩
  · by_cases own : other = fd
    · exact .inr own
    · refine .inl (.inr ?_)
      rcases executeCommand_pubsub done with same | ⟨before, channel, present, joins | leaves⟩
      · exact ⟨manager, same ▸ found, listens⟩
      · cases joins.symm.trans found
        exact ⟨before, present, PubSubManager.isSubscribed_subscribe own ▸ listens⟩
      · cases leaves.symm.trans found
        exact ⟨before, present, PubSubManager.isSubscribed_unsubscribe own ▸ listens⟩

end Handlers

namespace CommandContext

variable {ctx : CommandContext} {fd other : Fd} {send : Bool}

theorem Serves.mentions {args : List Bytes} {cmd : Bytes} {outcome : CommandOutcome}
    (serves : Serves ctx fd send args cmd outcome) (mentioned : outcome.ctx.Mentions other) :
    ctx.Mentions other ∨ (other = fd ∧ ctx.hasConnection fd = true) := by
  have known := @Serves.relates _ _ _ _ _ _
    (fun before after => after.Mentions other → before.Mentions other ∨ other = fd)
    (fun _ => .inl) (fun first second mentioned => (second mentioned).elim first .inr)
    (fun done => executeCommand_mentions done) serves mentioned
  rcases serves.state_cases with idle | ⟨admitted, _, _, _, passed, -⟩ | ⟨admitted, passed, -⟩
  · exact .inl (idle.state.1 ▸ mentioned)
  · exact known.imp_right fun own => ⟨own, (gate_admitted passed).2.1⟩
  · exact known.imp_right fun own => ⟨own, (gate_admitted passed).2.1⟩

structure Attends (fd : Fd) (ctx after : CommandContext) : Prop where
  connections : SameConnections ctx after
  tuned : ctx.Tuned → after.Tuned
  mentions : ∀ other, after.Mentions other →
    ctx.Mentions other ∨ (other = fd ∧ ctx.hasConnection fd = true)

namespace Attends

theorem refl (ctx : CommandContext) : Attends fd ctx ctx :=
  ⟨.refl ctx, fun tuned => tuned, fun _ => .inl⟩

theorem trans {first second third : CommandContext} (left : Attends fd first second)
    (right : Attends fd second third) : Attends fd first third where
  connections := left.connections.trans right.connections
  tuned := fun tuned => right.tuned (left.tuned tuned)
  mentions := by
    intro other mentioned
    rcases right.mentions other mentioned with before | ⟨own, connected⟩
    · exact left.mentions other before
    · exact .inr ⟨own, (left.connections.2 fd).symm.trans connected⟩

theorem ofState {after : CommandContext} (connections : SameConnections ctx after)
    (state : ∃ aof, after.toHandlerState = { ctx.toHandlerState with aofManager := aof }) :
    Attends fd ctx after := by
  obtain ⟨aof, state⟩ := state
  refine ⟨connections, fun tuned => ?_, fun other mentioned => .inl ?_⟩
  · rw [HandlerState.Tuned, state]
    exact tuned
  · rw [HandlerState.Mentions, state] at mentioned
    exact mentioned

theorem inputStep {after : CommandContext} {request : Request} {observation : Observation}
    (done : CommandContext.inputStep fd send ctx request = .ok (after, observation)) :
    Attends fd ctx after := by
  obtain ⟨outcome, -, serves, rfl, -⟩ := inputStep_ok done
  have served : Attends fd ctx outcome.ctx :=
    ⟨(SameConnections.session fd).serves serves, serves.tuned, fun _ => serves.mentions⟩
  refine served.trans (ofState ?_ ?_)
  · unfold logCommand
    split <;> exact .refl _
  · unfold logCommand
    split
    · exact ⟨_, rfl⟩
    · exact ⟨_, rfl⟩

theorem processWithFd {input : Bytes} {outcome : CallOutcome}
    (done : ctx.processWithFd fd send input = .ok outcome) : Attends fd ctx outcome.ctx :=
  processWithFd_relates refl trans
    (fun fetched => ofState ⟨fetched.pooled, fetched.connected⟩ ⟨_, fetched.state⟩) inputStep done

theorem processAll {commands : List Bytes} {last : CommandContext}
    (done : ServerState.processAll commands ctx = .ok last) : Attends (-1) ctx last :=
  ServerState.processAll_relates refl trans processWithFd done

end Attends

end CommandContext

namespace ReplicaManager

variable {manager : ReplicaManager} {fd : Fd}

def fds (manager : ReplicaManager) : List Fd := manager.replicas.map ReplicaState.fd

theorem contains_iff : manager.contains fd = true ↔ fd ∈ manager.fds := by
  simp [contains, find, fds, List.find?_isSome]

def Mentions (manager : ReplicaManager) (fd : Fd) : Prop :=
  fd ∈ manager.fds ∨ ∃ wait ∈ manager.waitState, wait.clientFd = fd

structure Quieter (before after : ReplicaManager) : Prop where
  fds : after.fds = before.fds
  wait : after.waitState = before.waitState ∨ after.waitState = none

theorem Quieter.mentions {before after : ReplicaManager} (quieter : before.Quieter after)
    (mentioned : after.Mentions fd) : before.Mentions fd := by
  rcases mentioned with replica | ⟨wait, waiting, own⟩
  · exact .inl (quieter.fds ▸ replica)
  rcases quieter.wait with same | absent
  · exact .inr ⟨wait, same ▸ waiting, own⟩
  · rw [absent] at waiting
    cases waiting

theorem settleWait_quieter (manager : ReplicaManager) : manager.Quieter manager.settleWait.1 := by
  unfold settleWait
  split
  · exact ⟨rfl, .inl rfl⟩
  dsimp only
  split
  · exact ⟨rfl, .inr rfl⟩
  · exact ⟨rfl, .inl rfl⟩

theorem processAck_quieter (manager : ReplicaManager) (fd : Fd) (data : Bytes) :
    manager.Quieter (manager.processAck fd data).1 := by
  unfold processAck
  split
  · cases ackLoop data.length data with
    | mk acknowledged consumed =>
      cases acknowledged with
      | none => exact settleWait_quieter manager
      | some offset =>
        have settled := settleWait_quieter
          { manager with replicas := setOffset fd offset manager.replicas }
        exact ⟨settled.fds.trans (Replication.setOffset_fds fd offset manager.replicas),
          settled.wait⟩
  · exact ⟨rfl, .inl rfl⟩

theorem checkWaitTimeout_quieter (manager : ReplicaManager) (now : Time) :
    manager.Quieter (manager.checkWaitTimeout now).1 := by
  unfold checkWaitTimeout
  split
  · exact ⟨rfl, .inl rfl⟩
  · split
    · exact ⟨rfl, .inl rfl⟩
    · exact ⟨rfl, .inr rfl⟩

theorem dispatchPropagate_quieter (commands : List Bytes) (manager : ReplicaManager) :
    manager.Quieter (ServerState.dispatchPropagate commands manager).1 := by
  induction commands generalizing manager with
  | nil => exact ⟨rfl, .inl rfl⟩
  | cons raw commands ih =>
    have later := ih (manager.propagate raw)
    exact ⟨later.fds, later.wait⟩

theorem removeReplica_fds (manager : ReplicaManager) (fd : Fd) :
    (manager.removeReplica fd).fds.Perm (manager.fds.erase fd) := by
  have removed := (Replication.removeFirst_perm fd manager.replicas).map ReplicaState.fd
  refine removed.trans (.of_eq ?_)
  unfold fds
  induction manager.replicas with
  | nil => rfl
  | cons replica replicas ih =>
    by_cases own : replica.fd = fd
    · simp [own]
    · rw [List.eraseP_cons_of_neg (by simpa using own), List.map_cons, List.map_cons,
        List.erase_cons_tail (by simpa using own), ih]

end ReplicaManager

end Credis
