import Credis.AudienceChecks
import Credis.FaultChecks
import Credis.WaitChecks
import Credis.ExecChecks

/-! The output of a connection that sends commands in one piece. Every command
writes one value, unless its name has a line end inside or the connection is
itself among those that the command sends to. -/

namespace Credis

open ByteString CommandContext Request Run

variable {ctx : CommandContext} {fd : Fd} {args : List Bytes}

variable {cmd : Bytes} {opened after : CommandContext} {commands queue : List (List Bytes)}
  {sends : List (Fd × Bytes)} {send : Bool} {replies : List Bytes}

theorem isValues_encodeError (text : Bytes) : isValues 1 (encodeError text) = lineSafe text := by
  cases safe : lineSafe text with
  | true => exact (values_encodeError safe).isValues
  | false =>
    obtain ⟨line, left, read⟩ := readLine_unsafe safe crlf
    have value : readValue (encodeError text) = some (0, left ++ crlf) := by
      rw [encodeError, List.cons_append, readValue, read]
      rfl
    have turns : (encodeError text).length = (text ++ crlf).length + 1 := by
      simp [encodeError]
    rw [isValues, turns, readValues, value]
    simp [readValues, crlf]

theorem lineSafe_unknown (cmd : Bytes) :
    lineSafe (ascii "ERR unknown command '" ++ cmd ++ ascii "'") = lineSafe cmd :=
  lineSafe_framed (by decide +kernel) (by decide) (by decide +kernel) (by decide)

theorem values_subscribedReply (safe : lineSafe cmd = true) : Values 1 (subscribedReply cmd) :=
  values_encodeError ((lineSafe_framed (by decide +kernel) (by decide +kernel) (by decide +kernel)
    (by decide +kernel)).trans safe)

namespace CommandContext

section Replies

variable {ctx : CommandContext} {fd : Fd} {send : Bool} {args : List Bytes} {cmd : Bytes}
  {outcome : CommandOutcome}

theorem execute_values (done : ctx.execute fd send args cmd = .ok outcome)
    (safe : lineSafe cmd = true) (normal : outcome.result = .normal) : Values 1 outcome.reply := by
  obtain ⟨handled, ran, -, -, result, reply, -⟩ := execute_ok done
  rw [result] at normal
  rw [reply]
  rcases executeCommand_proper ran normal with ⟨-, unknown⟩ | ⟨-, proper⟩
  · rw [unknown]
    exact values_encodeError ((lineSafe_unknown cmd).trans safe)
  · exact proper.value

theorem execQueued_values (done : execQueued fd send queue ctx = .ok (after, replies, sends))
    (safe : ∀ args ∈ queue, lineSafe (args.headD []) = true) :
    ∀ reply ∈ replies, Values 1 reply := by
  induction queue generalizing ctx replies sends with
  | nil =>
    cases done
    simp
  | cons args queue ih =>
    obtain ⟨cmd, rest, rfl, outcome, final, later, others, executed, more, same⟩ :=
      execQueued_cons done
    cases same
    intro reply member
    rcases List.mem_cons.mp member with rfl | member
    · split
      · rename_i normal
        exact execute_values executed (safe _ List.mem_cons_self) normal
      · exact (proper_errorReply rfl (by decide)).value
    · exact ih more (fun other inside => safe other (List.mem_cons_of_mem _ inside)) reply member

theorem Serves.values (serves : Serves ctx fd send args cmd outcome) (safe : lineSafe cmd = true)
    (queued : ∀ args ∈ (ctx.txGet fd).queuedCommands, lineSafe (args.headD []) = true)
    (normal : outcome.result = .normal) : Values 1 outcome.reply := by
  rcases serves.state_cases with idle | ⟨_, _, _, _, -, -, -, -, ran, rfl⟩ | ⟨_, -, -, -, done⟩
  · cases idle with
    | rejected refused =>
      rcases gate_rejected refused with rfl | rfl
      · exact values_subscribedReply safe
      · exact values_encodeError (by decide +kernel)
    | settled _ _ _ settles => exact settles.proper.value
  · exact (proper_encodeRawArray (execQueued_values ran queued)).value
  · exact execute_values done safe normal

end Replies

section Silence

variable {ctx : CommandContext} {fd : Fd} {send : Bool} {args : List Bytes} {cmd : Bytes}
  {outcome : CommandOutcome}

def Spares (fd : Fd) (sends : List (Fd × Bytes)) : Prop := ∀ message ∈ sends, message.1 ≠ fd

theorem spares_nil (fd : Fd) : Spares fd [] := nofun

theorem execute_spares (done : ctx.execute fd send args cmd = .ok outcome)
    (unreached : ¬ ctx.Addressed fd) :
    Spares fd outcome.sends ∧ ((∀ command, Command.lookup cmd = some command →
      command.attends = false) → ¬ outcome.ctx.Addressed fd) := by
  obtain ⟨handled, ran, state, -, -, -, sends⟩ := execute_ok done
  rw [sends, state]
  rcases executeCommand_ok ran with ⟨reply, rfl⟩ | ⟨command, ticks, found, handled⟩
  · exact ⟨spares_nil fd, fun _ => unreached⟩
  have reaches := handler_reaches command handled
  refine ⟨?_, fun idle addressed => ?_⟩
  · rintro message member rfl
    exact unreached (reaches.sends message member)
  · rcases reaches.addressed fd addressed with same | ⟨attends, -⟩
    · exact unreached same
    · rw [idle command found] at attends
      cases attends

theorem execQueued_spares (done : execQueued fd send queue ctx = .ok (after, replies, sends))
    (unreached : ¬ ctx.Addressed fd)
    (idle : ∀ args ∈ queue, ∀ command, Command.lookup (args.headD []) = some command →
      command.attends = false) : Spares fd sends := by
  induction queue generalizing ctx replies sends with
  | nil =>
    cases done
    exact spares_nil fd
  | cons args queue ih =>
    obtain ⟨cmd, rest, rfl, outcome, final, later, others, executed, more, same⟩ :=
      execQueued_cons done
    cases same
    obtain ⟨here, still⟩ := execute_spares executed unreached
    have there := ih more (still (idle _ List.mem_cons_self))
      fun other inside => idle other (List.mem_cons_of_mem _ inside)
    exact List.forall_mem_append.mpr ⟨here, there⟩

theorem subscribedAllowed_command (command : Command) (allowed : command.name ∈ subscribedAllowed) :
    command = .ping ∨ command = .subscribe ∨ command = .unsubscribe := by
  revert allowed
  cases command <;> decide

theorem execute_subscribed (done : ctx.execute fd send args cmd = .ok outcome)
    (allowed : cmd ∈ subscribedAllowed) : outcome.sends = [] := by
  obtain ⟨handled, ran, -, -, -, -, sends⟩ := execute_ok done
  rw [sends]
  rcases executeCommand_ok ran with ⟨reply, rfl⟩ | ⟨command, ticks, found, done⟩
  · rfl
  rw [lookup_name found] at allowed
  rcases subscribedAllowed_command command allowed with rfl | rfl | rfl
  all_goals
    cases Command.handled done with
    | blocking _ member => exact absurd member (by decide)
    | _ => rfl

theorem not_addressed (tuned : ctx.Tuned) (unblocked : ¬ Waits ctx.blockingManager fd)
    (free : ctx.isSubscribed fd = false) : ¬ ctx.Addressed fd := by
  rintro (waits | ⟨channels, found, channel, member⟩)
  · exact unblocked waits
  · refine (tuned channels found).not_subscriber fd channel ?_ member
    simpa [HandlerState.isSubscribed, found] using free

theorem Serves.spares (serves : Serves ctx fd send args cmd outcome) (tuned : ctx.Tuned)
    (unblocked : ¬ Waits ctx.blockingManager fd)
    (idle : cmd = ascii "EXEC" → ∀ args ∈ (ctx.txGet fd).queuedCommands, ∀ command,
      Command.lookup (args.headD []) = some command → command.attends = false) :
    Spares fd outcome.sends := by
  rcases serves.state_cases with idle |
    ⟨admitted, final, _, _, passed, name, -, -, ran, rfl⟩ | ⟨admitted, passed, -, -, done⟩
  · rw [idle.state.2]
    exact spares_nil fd
  · refine execQueued_spares ran ?_ (idle name)
    rw [gate_toHandlerState passed]
    refine not_addressed tuned unblocked ?_
    have refused : ascii "EXEC" ∉ subscribedAllowed := by decide
    rw [← name] at refused
    simpa using mt (gate_admitted passed).2.2.2 refused
  · cases listening : ctx.isSubscribed fd with
    | true =>
      rw [execute_subscribed done ((gate_admitted passed).2.2.2 listening)]
      exact spares_nil fd
    | false =>
      refine (execute_spares done ?_).1
      rw [gate_toHandlerState passed]
      exact not_addressed tuned unblocked listening

end Silence

end CommandContext

def bytesFor (fd : Fd) (messages : List (Fd × Bytes)) : Bytes :=
  (messages.filter fun message => message.1 == fd).flatMap Prod.snd

theorem bytesFor_append (fd : Fd) (first second : List (Fd × Bytes)) :
    bytesFor fd (first ++ second) = bytesFor fd first ++ bytesFor fd second := by
  simp [bytesFor]

namespace CommandContext

def Effect.written (effect : Effect) (fd : Fd) : Bytes :=
  bytesFor fd (effect.sends ++ [(fd, effect.reply)])

def CallOutcome.written (outcome : CallOutcome) (fd : Fd) : Bytes :=
  bytesFor fd (outcome.outputs fd)

theorem bytesFor_spares (spares : Spares fd sends) : bytesFor fd sends = [] := by
  have vacant : sends.filter (fun message => message.1 == fd) = [] := by
    rw [List.filter_eq_nil_iff]
    intro message member
    simpa using spares message member
  rw [bytesFor, vacant]
  rfl

theorem Effect.written_spares {effect : Effect} (spares : Spares fd effect.sends) :
    effect.written fd = effect.reply := by
  rw [written, bytesFor_append, bytesFor_spares spares]
  simp [bytesFor]

theorem CallOutcome.written_pooled {outcome : CallOutcome}
    (pooled : outcome.ctx.connPool.isSome = true) :
    outcome.written fd = outcome.effects.flatMap fun effect => effect.written fd := by
  obtain ⟨pool, found⟩ := Option.isSome_iff_exists.mp pooled
  rw [written, outputs, found]
  dsimp only
  induction outcome.effects with
  | nil => rfl
  | cons effect effects ih =>
    rw [List.flatMap_cons, bytesFor_append, ih, List.flatMap_cons, Effect.written]

/-- The call has run this many commands, each has written one value, and behind
one another these are the output. -/
structure Answers (fd : Fd) (commands : Nat) (outcome : CallOutcome) : Prop where
  turns : outcome.effects.length = commands
  order : outcome.written fd = outcome.effects.flatMap fun effect => effect.written fd
  each : ∀ effect ∈ outcome.effects, isValues 1 (effect.written fd) = true
  whole : isValues commands (outcome.written fd) = true

/-- The command comes back normally, and its connection is not one that it sends
to: it does not wait, and a transaction does not make it wait or listen. -/
structure Quiet (fd : Fd) (ctx : CommandContext) (request : Request) : Prop where
  normal : ∀ after observation, inputStep fd true ctx request = .ok (after, observation) →
    observation.state = .normal
  unblocked : ¬ Waits ctx.blockingManager fd
  idle : request.name = ascii "EXEC" → ∀ args ∈ (ctx.txGet fd).queuedCommands, ∀ command,
    Command.lookup (args.headD []) = some command → command.attends = false

def Undisturbed (fd : Fd) (ctx : CommandContext) (commands : List (List Bytes)) : Prop :=
  ∀ opened, ctx.fetchOutput fd true = .ok opened →
    Along (inputStep fd true) (Quiet fd) opened (commands.map (ofArgs fd))

def Answerable (args : List Bytes) : Prop := Complete args ∧ lineSafe (args.headD []) = true

structure Operable (ctx : CommandContext) : Prop where
  tuned : ctx.Tuned
  queued : ctx.AllQueued Answerable
  pooled : ctx.connPool.isSome = true

theorem wired_operable (config : ServerConfig) (aof : AofManager) (clock : Nat → Instant)
    (forks : Nat → Bool) (replicas : Nat) : (wired config aof clock forks replicas).Operable := by
  refine ⟨?_, ?_, rfl⟩
  · rintro _ ⟨⟩
    exact ⟨∅, .empty⟩
  · have absent : ∀ fd, (wired config aof clock forks replicas).tx fd = none := fun _ => rfl
    intro fd args member
    simp [txGet, absent, TransactionState.fresh] at member

theorem handle_operable {next : CommandContext} {event : Event} {output : Option Observation}
    (operable : ctx.Operable)
    (answerable : ∀ request, event = .request request → request.args ≠ [] → Answerable request.args)
    (handled : ctx.handle event = .ok (next, output)) : next.Operable := by
  have named : ∀ request, event = .request request → request.args ≠ [] := by
    rintro request rfl absent
    simp [handle, serve, step, absent] at handled
  refine ⟨handle_tuned handled operable.tuned, handle_allQueued handled operable.queued
    fun request same _ => answerable request same (named request same), ?_⟩
  cases event with
  | request request =>
    obtain ⟨observation, served, -⟩ := handle_request handled
    exact ((SameConnections.session _).inputStep served).1.trans operable.pooled
  | connect fd =>
    cases handled
    simpa [addConnection] using operable.pooled
  | disconnect fd =>
    cases handled
    simpa [dropConnection] using operable.pooled
  | timeouts now status =>
    cases handled
    exact operable.pooled

theorem fetchOutput_operable (operable : ctx.Operable)
    (done : ctx.fetchOutput fd send = .ok opened) :
    opened.Operable := by
  have fetched := fetchOutput_ok done
  refine ⟨?_, allQueued_of_tx operable.queued fun other => .inl (fetched.tx other), ?_⟩
  · rw [fetched.state]
    exact operable.tuned
  · rw [fetched.pooled, operable.pooled]

theorem inputStep_writes (operable : ctx.Operable) (connected : ctx.hasConnection fd = true)
    (answerable : Answerable args) (quiet : ctx.Quiet fd (ofArgs fd args)) :
    ∃ next observation, inputStep fd true ctx (ofArgs fd args) = .ok (next, observation) ∧
      observation.state = .normal ∧ Values 1 (observation.effect.written fd) ∧ next.Operable ∧
      next.hasConnection fd = true := by
  cases stepped : inputStep fd true ctx (ofArgs fd args) with
  | error fault =>
    have failed : ctx.step fd true args (encodeArray args) = .error fault := by
      unfold inputStep at stepped
      split at stepped
      · cases stepped
        assumption
      · cases stepped
    have complete : ctx.AllQueued Complete := fun other args member =>
      (operable.queued other args member).1
    rcases step_fault complete answerable.1 failed with ⟨silent, -⟩ | ⟨outside, -⟩
    · cases silent
    · rw [connected] at outside
      cases outside
  | ok result =>
    obtain ⟨next, observation⟩ := result
    have normal := quiet.normal next observation stepped
    have handled : ctx.handle (.request (ofArgs fd args)) =
        .ok (next, some observation) := by
      rw [handle, show ctx.serve _ = _ from stepped]
    refine ⟨next, observation, rfl, normal, ?_, handle_operable operable ?_ handled, ?_⟩
    · obtain ⟨outcome, -, serves, -, rfl⟩ := inputStep_ok stepped
      have spares := serves.spares operable.tuned quiet.unblocked quiet.idle
      rw [Effect.written_spares spares]
      refine serves.values ?_ (fun args member => (operable.queued fd args member).2) normal
      exact (lineSafe_toUpper _).trans answerable.2
    · rintro _ ⟨⟩ -
      exact answerable
    · rw [((SameConnections.session fd).inputStep stepped).2, connected]

structure Answering (fd : Fd) (ctx : CommandContext) (seen : List Observation) : Prop where
  operable : ctx.Operable
  connected : ctx.hasConnection fd = true
  normal : ∀ observation ∈ seen, observation.state = .normal
  values : ∀ observation ∈ seen, Values 1 (observation.effect.written fd)

theorem inputRun_writes (answering : ctx.Answering fd [])
    (answerable : ∀ args ∈ commands, Answerable args)
    (quiet : Along (inputStep fd true) (Quiet fd) ctx (commands.map (ofArgs fd))) :
    ∃ last observations,
      run (inputStep fd true) ctx (commands.map (ofArgs fd)) =
        .ok (last, observations) ∧ last.Answering fd observations := by
  have named : Along (inputStep fd true)
      (fun _ request => ∃ args, request = ofArgs fd args ∧ Answerable args) ctx
      (commands.map (ofArgs fd)) :=
    along_of_forall (List.forall_mem_map.mpr fun args inside =>
      ⟨args, rfl, answerable args inside⟩) ctx
  refine run_progress (Answering fd) ?_ answering (named.and quiet)
  rintro state _ seen before ⟨⟨args, rfl, answerable⟩, quiet⟩
  obtain ⟨next, observation, taken, normal, value, operable, connected⟩ :=
    inputStep_writes before.operable before.connected answerable quiet
  exact ⟨next, observation, taken, operable, connected, forall_mem_snoc before.normal normal,
    forall_mem_snoc before.values value⟩

theorem processWithFd_encoded {last : CommandContext} {observations : List Observation}
    (fits : ∀ args ∈ commands, Encodable args) (fetched : ctx.fetchOutput fd send = .ok opened)
    (ran : run (inputStep fd send) opened (commands.map (ofArgs fd)) =
      .ok (last, observations))
    (normal : ∀ observation ∈ observations, observation.state = .normal) :
    ctx.processWithFd fd send (commands.flatMap encodeArray) =
      .ok ⟨last, .normal, (commands.flatMap encodeArray).length,
        observations.map Observation.effect⟩ := by
  have whole : ∀ request ∈ commands.map (ofArgs fd), request.Whole :=
    List.forall_mem_map.mpr fun args inside => ofArgs_whole fd (fits args inside)
  have input : (commands.map (ofArgs fd)).flatMap Request.raw =
      commands.flatMap encodeArray := by
    rw [List.flatMap_map]
    rfl
  have looped := processLoop_whole whole ran normal (requests_length_le _ whole)
  rw [input] at looped
  rw [processWithFd, fetched]
  exact looped

theorem answers_of_values {outcome : CallOutcome} {count : Nat}
    (pooled : outcome.ctx.connPool.isSome = true) (turns : outcome.effects.length = count)
    (values : ∀ effect ∈ outcome.effects, Values 1 (effect.written fd)) :
    Answers fd count outcome := by
  have order := @CallOutcome.written_pooled fd outcome pooled
  refine ⟨turns, order, fun effect member => (values effect member).isValues, ?_⟩
  have total := (Values.flatMap values).isValues
  rwa [Nat.mul_one, ← order, turns] at total

theorem processWithFd_answers (operable : ctx.Operable) (connected : ctx.hasConnection fd = true)
    (fits : ∀ args ∈ commands, Encodable args) (answerable : ∀ args ∈ commands, Answerable args)
    (quiet : ctx.Undisturbed fd commands) :
    ∃ outcome, ctx.processWithFd fd true (commands.flatMap encodeArray) = .ok outcome ∧
      Answers fd commands.length outcome := by
  obtain ⟨opened, fetched⟩ := fetchOutput_open true connected
  have start : opened.Answering fd [] := by
    refine ⟨fetchOutput_operable operable fetched, ?_, by simp, by simp⟩
    rw [(fetchOutput_ok fetched).connected, connected]
  obtain ⟨last, observations, ran, final⟩ :=
    inputRun_writes start answerable (quiet opened fetched)
  refine ⟨_, processWithFd_encoded fits fetched ran final.normal, ?_⟩
  apply answers_of_values
  · exact final.operable.pooled
  · rw [List.length_map, run_length ran, List.length_map]
  · intro effect member
    obtain ⟨observation, inside, rfl⟩ := List.mem_map.mp member
    exact final.values observation inside

theorem lookup_broken (broken : lineSafe cmd = false) : Command.lookup cmd = none := by
  cases found : Command.lookup cmd with
  | none => rfl
  | some command =>
    rw [lookup_name found, lineSafe_command] at broken
    cases broken

theorem control_broken (broken : lineSafe cmd = false) : cmd ∉ controlCommands := by
  have safe : ∀ name ∈ controlCommands, lineSafe name = true := by decide
  intro member
  rw [safe cmd member] at broken
  cases broken

theorem step_broken {send : Bool} (admits : ctx.Admits fd) (named : args ≠ [])
    (broken : lineSafe (args.headD []) = false) (raw : Bytes) :
    ∃ next effect, ctx.step fd send args raw = .ok (next, .normal, effect) ∧
      effect.sends = [] ∧ isValues 1 effect.reply = false := by
  obtain ⟨name, rest, rfl⟩ := List.exists_cons_of_ne_nil named
  rw [List.headD_cons, ← lineSafe_toUpper] at broken
  obtain ⟨admitted, passed⟩ := gate_admits (toUpper name) admits
  have table := control_broken broken
  have outside := admits.outside
  simp only [controlCommands, List.mem_cons, List.not_mem_nil, or_false, not_or] at table
  rw [txInMulti, ← gate_tx passed, ← txInMulti] at outside
  simp only [step, process_of_gate named passed, processAdmitted, table, outside, execute,
    executeCommand, lookup_broken broken]
  exact ⟨_, _, rfl, rfl, (isValues_encodeError _).trans ((lineSafe_unknown _).trans broken)⟩

theorem processWithFd_broken (fetched : ctx.fetchOutput fd true = .ok opened)
    (admits : opened.Admits fd) (named : args ≠ []) (fits : Encodable args)
    (broken : lineSafe (args.headD []) = false) :
    ∃ outcome, ctx.processWithFd fd true ([args].flatMap encodeArray) = .ok outcome ∧
      ¬ Answers fd 1 outcome := by
  obtain ⟨next, effect, stepped, silent, reply⟩ :=
    @step_broken opened fd args true admits named broken (encodeArray args)
  have taken : inputStep fd true opened (ofArgs fd args) = .ok (next, ⟨.normal, effect⟩) :=
    inputStep_of_step stepped
  have ran : run (inputStep fd true) opened ([args].map (ofArgs fd)) =
      .ok (next, [⟨.normal, effect⟩]) := by
    simp only [List.map_cons, List.map_nil, run, taken]
  refine ⟨_, processWithFd_encoded (by simpa using fits) fetched ran (by simp), ?_⟩
  intro answers
  have value := answers.each effect (by simp)
  rw [Effect.written_spares (by rw [silent]; exact spares_nil fd), reply] at value
  cases value

theorem undisturbed_single (fetched : ctx.fetchOutput fd true = .ok opened)
    (admits : opened.Admits fd) (bare : opened.store = Store.empty)
    (alone : opened.blockingManager = some BlockingManager.empty) (empty : opened.tx fd = none)
    (named : args ≠ []) (wrong : ¬ Answerable args) : ctx.Undisturbed fd [args] := by
  intro other same
  rw [fetched] at same
  cases same
  refine ⟨⟨?_, ?_, ?_⟩, by split <;> trivial⟩
  · intro after observation done
    have stepped := step_of_inputStep done
    by_cases complete : Complete args
    · have broken : lineSafe (args.headD []) = false := by simpa [Answerable, complete] using wrong
      obtain ⟨next, effect, normal, -⟩ :=
        @step_broken opened fd args true admits named broken (encodeArray args)
      have same := Except.ok.inj (normal.symm.trans stepped)
      exact (congrArg (fun result => result.2.1) same).symm
    · have failed := @step_incomplete opened fd true args (encodeArray args) admits bare complete
      cases failed.symm.trans stepped
  · rintro ⟨manager, known, waits⟩
    rw [alone] at known
    cases known
    exact BlockingManager.empty_waiting fd waits
  · intro _ queued member
    simp [txGet, empty, TransactionState.fresh] at member

end CommandContext

/-- From a keyspace without content: every call that pipelines commands, of which
none blocks, waits or is a handshake, writes one value for each of them to its
connection, exactly when the commands that may arrive are answerable. Left out are
calls of a connection that waits itself, and transactions that make it wait or
listen. -/
theorem pipelined_answers_iff (config : ServerConfig) (aof : AofManager) (clock : Nat → Instant)
    (forks : Nat → Bool) (replicas : Nat) (allowed : List Bytes → Prop) :
    (∀ (events : List Event) (ctx : CommandContext) (seen : List (Option Observation)) (fd : Fd)
        (commands : List (List Bytes)),
        (∀ request, .request request ∈ events → request.Whole ∧ allowed request.args) →
        Run.run CommandContext.handle (CommandContext.wired config aof clock forks replicas)
          events = .ok (ctx, seen) →
        ctx.hasConnection fd = true →
        (∀ args ∈ commands, args ≠ [] ∧ Encodable args ∧ allowed args) →
        ctx.Undisturbed fd commands →
        ∃ outcome, ctx.processWithFd fd true (commands.flatMap encodeArray) = .ok outcome ∧
          CommandContext.Answers fd commands.length outcome) ↔
      ∀ args, args ≠ [] → Encodable args → allowed args → CommandContext.Answerable args := by
  constructor
  · intro answered args named fits permitted
    by_contra wrong
    obtain ⟨opened, fetched, admits, bare, alone, empty⟩ :=
      wired_opens config aof clock forks replicas
    obtain ⟨outcome, called, answers⟩ := answered [.connect 5] _ [none] 5 [args] (by simp) rfl rfl
      (by simpa using ⟨named, fits, permitted⟩)
      (undisturbed_single fetched admits bare alone empty named wrong)
    by_cases complete : Complete args
    · have broken : lineSafe (args.headD []) = false := by
        simpa [CommandContext.Answerable, complete] using wrong
      obtain ⟨other, same, unanswered⟩ :=
        processWithFd_broken fetched admits named fits broken
      cases same.symm.trans called
      exact unanswered answers
    · have failed := processWithFd_incomplete fetched admits bare fits complete
      rw [List.flatMap_singleton] at called
      cases failed.symm.trans called
  · intro answerable events ctx seen fd commands permitted ran connected listed quiet
    have meets : Run.Along CommandContext.handle (fun _ event => ∀ request,
        event = .request request → request.args ≠ [] → CommandContext.Answerable request.args)
        (CommandContext.wired config aof clock forks replicas) events := by
      apply Run.along_of_forall
      rintro _ member request rfl named
      obtain ⟨whole, permission⟩ := permitted request member
      exact answerable request.args named (parseCommand_encodable whole) permission
    have operable := Run.run_invariant CommandContext.Operable
      (fun _ _ _ _ operable answerable handled => handle_operable operable answerable handled)
      (wired_operable config aof clock forks replicas) meets ran
    refine processWithFd_answers operable connected ?_ ?_ quiet
    · exact fun args member => (listed args member).2.1
    · intro args member
      obtain ⟨named, fits, permission⟩ := listed args member
      exact answerable args named fits permission

/-- The result of a call on a server with these events behind it, and whether its
connection got one value for each command. -/
def CommandContext.answered (events : List Event) (fd : Fd) (commands : List (List Bytes)) :
    Option (ProcessState × Bool) :=
  match run handle (wired ⟨none, [], [], []⟩ AofManager.initial (fun _ => ⟨0, 0⟩)
      (fun _ => false) 0) events with
  | .error _ => none
  | .ok (ctx, _) =>
    match ctx.processWithFd fd true (commands.flatMap encodeArray) with
    | .error _ => none
    | .ok outcome => some (outcome.state, isValues commands.length (outcome.written fd))

/-- A name with a line end inside, a push by a client that waits for the key, and
a message to a channel that the same transaction subscribes to. -/
theorem pipelined_answers_split :
    CommandContext.answered [.connect 5] 5 [[ascii "NO" ++ crlf ++ ascii "+OK"]] =
      some (.normal, false) ∧
    CommandContext.answered [.connect 5, .words 5 ["BLPOP", "k", "0"]] 5
      [[ascii "RPUSH", ascii "k", ascii "v"]] = some (.normal, false) ∧
    CommandContext.answered [.connect 5, .words 5 ["MULTI"], .words 5 ["SUBSCRIBE", "c"],
      .words 5 ["PUBLISH", "c", "m"]] 5 [[ascii "EXEC"]] = some (.normal, false) := by
  refine ⟨?_, ?_, ?_⟩ <;> decide +kernel

end Credis
