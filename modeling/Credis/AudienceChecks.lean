import Credis.ChannelChecks
import Credis.WakeChecks

/-! Whom a command can send to: the clients that wait for a key and those that
listen to a channel. -/

namespace Credis

open ByteString

variable {send : Bool} {fd : Fd} {outcome : Outcome} {state : HandlerState} {args : List Bytes}

variable {cmd : Bytes} {key : Key} {push : Store → Time → Key → Bytes → Store × Int}
  {ctx : CommandContext} {joins : Fd → Prop} {forked : Bool}

namespace BlockingManager

def Waiting (manager : BlockingManager) (fd : Fd) : Prop :=
  ∃ key, ∃ client ∈ manager.queue key, client.fd = fd

theorem empty_waiting (fd : Fd) : ¬ empty.Waiting fd := by
  rintro ⟨key, client, member, -⟩
  simp [empty, queue] at member

theorem WakesOne.waiting {manager : BlockingManager}
    {done : BlockingManager × Option BlockedClient} (wakes : manager.WakesOne key done) :
    (∀ client, done.2 = some client → manager.Waiting client.fd) ∧
      ∀ fd, done.1.Waiting fd → manager.Waiting fd := by
  cases wakes with
  | nobody => exact ⟨nofun, fun _ waiting => waiting⟩
  | @one client member =>
    refine ⟨?_, ?_⟩
    · rintro other ⟨⟩
      exact ⟨key, client, member, rfl⟩
    · rintro fd ⟨other, waiter, member, rfl⟩
      exact ⟨other, waiter, (queue_erase_sublist _ _ _ _ _ _).mem member, rfl⟩

theorem blockClientForStream_waiting (manager : BlockingManager) (now : Time) (fd : Fd)
    (key : Key) (lastId : StreamId) (timeoutMs : Int) {other : Fd}
    (waiting : (manager.blockClientForStream now fd key lastId timeoutMs).Waiting other) :
    manager.Waiting other ∨ other = fd := by
  obtain ⟨place, client, member, rfl⟩ := waiting
  by_cases same : place = key
  · subst same
    simp only [blockClientForStream, queue, AList.lookup_insert, Option.getD_some,
      List.mem_append, List.mem_singleton] at member
    rcases member with before | rfl
    · exact .inl ⟨place, client, before, rfl⟩
    · exact .inr rfl
  · rw [queue_blockClientForStream manager now fd key place lastId timeoutMs same] at member
    exact .inl ⟨place, client, member, rfl⟩

end BlockingManager

def Waits (manager : Option BlockingManager) (fd : Fd) : Prop :=
  ∃ blocking, manager = some blocking ∧ blocking.Waiting fd

/-- Messages go to clients that waited, and nobody but these comes to wait. -/
structure BlockingOutcome.Within (manager : Option BlockingManager) (joins : Fd → Prop)
    (outcome : BlockingOutcome) : Prop where
  sends : ∀ message ∈ outcome.sends, Waits manager message.1
  waiting : ∀ fd, Waits outcome.manager fd → Waits manager fd ∨ joins fd

structure PushState.Within (manager : Option BlockingManager) (state : PushState) : Prop where
  sends : ∀ message ∈ state.sends, Waits manager message.1
  waiting : ∀ fd, Waits state.manager fd → Waits manager fd

theorem tryWake_within {manager : Option BlockingManager} {now : Time} {key : Key}
    {state : PushState} (within : state.Within manager) :
    (tryWake now key state).1.Within manager := by
  unfold tryWake
  split
  · exact within
  rename_i blocking present
  have woken := (blocking.wakeClient_wakesOne key).waiting
  split
  · exact within
  rename_i after client waking
  rw [waking] at woken
  have fewer : ∀ fd, Waits (some after) fd → Waits manager fd := by
    rintro fd ⟨_, ⟨⟩, waiting⟩
    exact within.waiting fd ⟨blocking, present, woken.2 fd waiting⟩
  split
  · exact ⟨Run.forall_mem_snoc within.sends
      (within.waiting client.fd ⟨blocking, present, woken.1 client rfl⟩), fewer⟩
  · exact ⟨within.sends, fewer⟩

theorem pushStep_within {manager : Option BlockingManager} {now : Time} {state : PushState}
    (within : state.Within manager) (value : Bytes) :
    (pushStep push now key state value).Within manager := by
  have woken := @tryWake_within manager now key state within
  unfold pushStep
  split
  · rename_i waking
    rw [waking] at woken
    exact woken
  · rename_i waking
    rw [waking] at woken
    exact ⟨woken.sends, woken.waiting⟩

section Blocking

variable {store : Store} {manager : Option BlockingManager} {now : Time} {fd : Fd}
  {args : List Bytes} {outcome : BlockingOutcome}

theorem within_same (silent : outcome.sends = []) (same : outcome.manager = manager) :
    outcome.Within manager joins :=
  ⟨by simp [silent], fun _ waiting => .inl (same ▸ waiting)⟩

theorem handlePushWithBlocking_within
    {pushIfValidType : Store → Time → Key → Bytes → Store × Option Int}
    (done : handlePushWithBlocking pushIfValidType push store manager now args = .ok outcome) :
    outcome.Within manager fun _ => False := by
  unfold handlePushWithBlocking at done
  split at done
  · rename_i key value values
    split at done
    · cases done
      exact within_same rfl rfl
    rename_i after count pushed
    cases done
    have start : PushState.Within manager ⟨after, manager, count, []⟩ :=
      ⟨nofun, fun _ waiting => waiting⟩
    have woken := @tryWake_within manager now key _ start
    have final := List.foldlRecOn values (pushStep push now key) woken
      fun _ within value _ => pushStep_within within value
    exact ⟨final.sends, fun other waiting => .inl (final.waiting other waiting)⟩
  · cases done

theorem wakeStreamClients_within {newId : Bytes} {fuel : Nat} {blocking : BlockingManager} :
    (∀ message ∈ (wakeStreamClients now key newId fuel store blocking).2.2,
      blocking.Waiting message.1) ∧
    ∀ other, (wakeStreamClients now key newId fuel store blocking).2.1.Waiting other →
      blocking.Waiting other := by
  induction fuel generalizing store blocking with
  | zero => exact ⟨nofun, fun _ waiting => waiting⟩
  | succ fuel ih =>
    have woken := (blocking.wakeClientForStream_wakesOne key newId).waiting
    unfold wakeStreamClients
    split
    · rename_i after waking
      rw [waking] at woken
      exact ⟨nofun, woken.2⟩
    · rename_i after client waking
      rw [waking] at woken
      obtain ⟨sends, fewer⟩ := @ih (store.xread now key client.lastId.toText).1 after
      refine ⟨fun message member => ?_, fun other waiting => woken.2 other (fewer other waiting)⟩
      rcases List.mem_cons.mp member with rfl | later
      · exact woken.1 client rfl
      · exact woken.2 _ (sends message later)

theorem handleXaddWithBlocking_within {instant : Instant}
    (done : handleXaddWithBlocking store manager instant args = .ok outcome) :
    outcome.Within manager fun _ => False := by
  obtain ⟨-, ⟨same, silent⟩ | ⟨_, key, _, _, newId, blocking, -, -, -, present, woken, sends⟩⟩ :=
    handleXaddWithBlocking_manager done
  · exact within_same silent same
  refine ⟨fun message member => ?_, ?_⟩
  · rw [sends] at member
    exact ⟨blocking, present, wakeStreamClients_within.1 message member⟩
  · rintro other ⟨_, found, waiting⟩
    rw [woken, ← wakeStreamClients_manager instant.steady key newId _ store] at found
    cases found
    exact .inl ⟨blocking, present, wakeStreamClients_within.2 other waiting⟩

theorem BlockingOutcome.Ends.within {waits : Store → Key → StreamId → Int → Prop}
    (ends : outcome.Ends manager now fd waits) : outcome.Within manager (· = fd) := by
  cases ends with
  | refused | popped | read => exact within_same rfl rfl
  | @blocks _ blocking key lastId timeoutMs present =>
    refine ⟨nofun, ?_⟩
    rintro other ⟨_, ⟨⟩, waiting⟩
    rcases blocking.blockClientForStream_waiting now fd key lastId timeoutMs waiting with
      before | same
    · exact .inl ⟨blocking, present, before⟩
    · exact .inr same

end Blocking

def Listens (manager : Option PubSubManager) (fd : Fd) : Prop :=
  ∃ channels, manager = some channels ∧ ∃ channel, fd ∈ channels.getSubscribers channel

def HandlerState.Addressed (state : HandlerState) (fd : Fd) : Prop :=
  Waits state.blockingManager fd ∨ Listens state.pubsubManager fd

def Command.attends : Command → Bool
  | .blpop | .xread | .subscribe => true
  | _ => false

/-- Messages go to clients that waited or listened, and only the client of the
command comes to do so. -/
structure Outcome.Reaches (state : HandlerState) (fd : Fd) (attends : Bool) (outcome : Outcome) :
    Prop where
  sends : ∀ message ∈ outcome.sends, state.Addressed message.1
  addressed : ∀ other, outcome.state.Addressed other →
    state.Addressed other ∨ (attends = true ∧ other = fd)

theorem reaches_same {attends : Bool} (silent : outcome.sends = [])
    (blocking : outcome.state.blockingManager = state.blockingManager)
    (channels : outcome.state.pubsubManager = state.pubsubManager) :
    outcome.Reaches state fd attends := by
  refine ⟨by simp [silent], fun other addressed => .inl ?_⟩
  rwa [HandlerState.Addressed, blocking, channels] at addressed

theorem onStore_reaches {handled : Except Fault (Store × Bytes)} {attends : Bool}
    (done : state.onStore handled = .ok outcome) : outcome.Reaches state fd attends := by
  obtain ⟨result, -, rfl⟩ := onStore_ok done
  exact reaches_same rfl rfl rfl

theorem onBlocking_reaches {handled : Except Fault BlockingOutcome} {attends : Bool}
    (done : state.onBlocking send handled = .ok outcome)
    (within : ∀ result, handled = .ok result → result.Within state.blockingManager joins)
    (own : ∀ other, joins other → attends = true ∧ other = fd) :
    outcome.Reaches state fd attends := by
  obtain ⟨result, success, -, rfl⟩ := onBlocking_ok done
  have bounds := within result success
  refine ⟨fun message member => .inl (bounds.sends message member), ?_⟩
  rintro other (waits | listens)
  · exact (bounds.waiting other waits).imp .inl (own other)
  · exact .inl (.inr listens)

theorem handler_reaches {now : Instant} (command : Command)
    (handled : command.handler state now forked fd send args = .ok outcome) :
    outcome.Reaches state fd command.attends := by
  cases Command.handled handled with
  | blocking _ member =>
    simp only [List.mem_cons, List.not_mem_nil, or_false] at member
    rcases member with rfl | rfl | rfl | rfl | rfl
    case inl | inr.inl =>
      cases send with
      | true =>
        exact onBlocking_reaches handled (fun _ => handlePushWithBlocking_within)
          fun _ joins => joins.elim
      | false => exact onStore_reaches handled
    · exact onBlocking_reaches handled (fun _ done => (handleBlpop_ends done).within)
        fun _ same => ⟨rfl, same⟩
    · exact onBlocking_reaches handled (fun _ => handleXaddWithBlocking_within)
        fun _ joins => joins.elim
    · simp only [Command.handler] at handled
      refine onBlocking_reaches handled (fun result done => ?_) fun _ same => ⟨rfl, same⟩
      cases done
      exact (handleXread_ends _ _ _ _ _).within
  | subscribe channel _ present =>
    refine ⟨fun _ member => (List.not_mem_nil member).elim, ?_⟩
    rintro other (waits | ⟨_, ⟨⟩, topic, member⟩)
    · exact .inl (.inl waits)
    · rw [PubSubManager.getSubscribers_subscribe] at member
      split at member
      · rcases List.mem_insert_iff.mp member with same | before
        · exact .inr ⟨rfl, same⟩
        · exact .inl (.inr ⟨_, present, topic, before⟩)
      · exact .inl (.inr ⟨_, present, topic, member⟩)
  | unsubscribe channel _ present =>
    refine ⟨fun _ member => (List.not_mem_nil member).elim, ?_⟩
    rintro other (waits | ⟨_, ⟨⟩, topic, member⟩)
    · exact .inl (.inl waits)
    · exact .inl (.inr ⟨_, present, topic, PubSubManager.getSubscribers_unsubscribe _ member⟩)
  | publish =>
    refine ⟨fun message member => .inr ?_, fun other addressed => .inl addressed⟩
    simp only [handlePublish] at member
    split at member
    · split at member
      · cases member
      · rename_i manager present
        dsimp only at member
        split at member
        · obtain ⟨subscriber, listening, rfl⟩ := List.mem_map.mp member
          exact ⟨manager, present, _, listening⟩
        · cases member
    · cases member
  | _ => exact reaches_same rfl rfl rfl

def HandlerState.Tuned (state : HandlerState) : Prop :=
  ∀ manager, state.pubsubManager = some manager → manager.Represented

theorem executeCommand_pubsub (done : executeCommand state fd send args cmd = .ok outcome) :
    outcome.state.pubsubManager = state.pubsubManager ∨
      ∃ manager channel, state.pubsubManager = some manager ∧
        (outcome.state.pubsubManager = some (manager.subscribe fd channel).1 ∨
          outcome.state.pubsubManager = some (manager.unsubscribe fd channel).1) := by
  rcases executeCommand_ok done with ⟨reply, rfl⟩ | ⟨command, ticks, -, handled⟩
  · exact .inl rfl
  cases Command.handled handled with
  | subscribe channel _ present => exact .inr ⟨_, channel, present, .inl rfl⟩
  | unsubscribe channel _ present => exact .inr ⟨_, channel, present, .inr rfl⟩
  | _ => exact .inl rfl

theorem executeCommand_tuned (done : executeCommand state fd send args cmd = .ok outcome)
    (tuned : state.Tuned) : outcome.state.Tuned := by
  rcases executeCommand_pubsub done with same | ⟨manager, channel, present, joins | leaves⟩
  · intro manager found
    exact tuned manager (same ▸ found)
  · intro after found
    rw [joins] at found
    cases found
    exact (tuned manager present).subscribe fd channel
  · intro after found
    rw [leaves] at found
    cases found
    exact (tuned manager present).unsubscribe fd channel

namespace CommandContext

theorem Serves.tuned {outcome : CommandOutcome} (serves : Serves ctx fd send args cmd outcome) :
    ctx.Tuned → outcome.ctx.Tuned :=
  @Serves.relates _ _ _ _ _ _ (fun before after => before.Tuned → after.Tuned)
    (fun _ tuned => tuned) (fun first second tuned => second (first tuned)) executeCommand_tuned
    serves

theorem handle_tuned {next : CommandContext} {event : Event} {output : Option Observation}
    (handled : ctx.handle event = .ok (next, output)) (tuned : ctx.Tuned) : next.Tuned := by
  cases event with
  | request request =>
    obtain ⟨outcome, aof, serves, rfl⟩ := handle_served handled
    exact serves.tuned tuned
  | connect fd =>
    cases handled
    exact tuned
  | timeouts now status =>
    cases handled
    exact tuned
  | disconnect fd =>
    cases handled
    intro manager present
    obtain ⟨before, known, rfl⟩ := Option.map_eq_some_iff.mp present
    exact (tuned before known).unsubscribeAll fd

end CommandContext

end Credis
