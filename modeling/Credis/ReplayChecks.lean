import Credis.DispatchChecks
import Credis.FramingChecks
import Credis.SteadyChecks

/-! Replaying the log. A steady command does to the keyspace of the live server
what it does to the keyspace of a handler that nothing is attached to, so the
logged writes rebuild the keyspace. -/

namespace Credis

open ByteString Request List

variable {args : List Bytes} {fd : Fd} {ctx : CommandContext}

variable {send : Bool}

def isReplayable (args : List Bytes) : Bool :=
  (Command.lookup (toUpper (args.headD []))).any fun command =>
    args.length < command.minArgs || command.isSteady args

theorem isReplayable_iff : isReplayable args = true ↔
    ∃ command, Command.lookup (toUpper (args.headD [])) = some command ∧
      (args.length < command.minArgs ∨ command.isSteady args = true) := by
  simp only [isReplayable, Option.any_eq_true, Bool.or_eq_true, decide_eq_true_eq]

def HandlerState.FreeFor (state : HandlerState) (args : List Bytes) : Prop :=
  ∀ command, Command.lookup (toUpper (args.headD [])) = some command →
    command.minArgs ≤ args.length → command.wakes = true → state.FreeAt (args.getD 1 [])

theorem HandlerState.NobodyBlocked.freeFor {state : HandlerState} (free : state.NobodyBlocked)
    (args : List Bytes) : state.FreeFor args :=
  fun _ _ _ _ => free _

def applied (store : Store) (args : List Bytes) : Store :=
  match executeCommand (bareState store) (-1) false args (toUpper (args.headD [])) with
  | .error _ => store
  | .ok outcome => outcome.state.store

theorem executeCommand_short {command : Command}
    (found : Command.lookup (toUpper (args.headD [])) = some command)
    (short : args.length < command.minArgs) (state : HandlerState) (fd : Fd) (send : Bool) :
    executeCommand state fd send args (toUpper (args.headD [])) =
      .ok (state.replied (arityReply (toUpper (args.headD [])))) := by
  rw [executeCommand, found]
  exact if_pos short

theorem executeCommand_applied (state : HandlerState) (fits : isReplayable args = true)
    (steady : state.store.NoExpiry) (free : state.FreeFor args) :
    (applied state.store args).NoExpiry ∧
    (isWriteCommand (toUpper (args.headD [])) = false → applied state.store args = state.store) ∧
    ∀ fd send, ∃ ticks reply, executeCommand state fd send args (toUpper (args.headD [])) =
      .ok ⟨{ state with store := applied state.store args, ticks := ticks }, .normal, reply, [],
        false⟩ := by
  obtain ⟨command, found, kind⟩ := isReplayable_iff.mp fits
  by_cases short : args.length < command.minArgs
  · have here : applied state.store args = state.store := by
      rw [applied, executeCommand_short found short]
      rfl
    rw [here]
    exact ⟨steady, fun _ => rfl, fun fd send =>
      ⟨state.ticks, _, executeCommand_short found short state fd send⟩⟩
  · obtain ⟨after, kept, reads, leaves⟩ :=
      command.steady_effect (by omega) (kind.resolve_left short) steady
    have runs : ∀ (any : HandlerState) fd send, any.store = state.store →
        (command.wakes = true → any.FreeAt (args.getD 1 [])) →
        ∃ ticks reply, executeCommand any fd send args (toUpper (args.headD [])) =
          .ok ⟨{ any with store := after, ticks := ticks }, .normal, reply, [], false⟩ := by
      intro any fd send same unblocked
      obtain ⟨reply, handled⟩ := leaves (if command.readsClock then any.tick else any)
        (any.clock any.ticks) (any.forks any.ticks) fd send
        (by cases command.readsClock <;> exact same)
        (by cases command.readsClock <;> exact unblocked)
      refine ⟨(if command.readsClock then any.tick else any).ticks, reply, ?_⟩
      rw [executeCommand, found]
      dsimp only
      rw [if_neg short, handled]
      cases command.readsClock <;> rfl
    have here : applied state.store args = after := by
      obtain ⟨ticks, reply, handled⟩ := runs (bareState state.store) (-1) false rfl
        (fun _ manager absent => by cases absent)
      rw [applied, handled]
    rw [here]
    refine ⟨kept, ?_, fun fd send =>
      runs state fd send rfl (free command found (by omega))⟩
    intro read
    apply reads
    rw [← lookup_name found]
    exact read

namespace CommandContext

structure Admits (ctx : CommandContext) (fd : Fd) : Prop where
  connected : ctx.hasConnection fd = true
  known : ctx.isAuthenticated fd = true ∨ ctx.aclManager.defaultNopass = true
  listening : ctx.isSubscribed fd = false
  outside : ctx.txInMulti fd = false

instance (ctx : CommandContext) (fd : Fd) : Decidable (ctx.Admits fd) :=
  decidable_of_iff (ctx.hasConnection fd = true ∧
      (ctx.isAuthenticated fd = true ∨ ctx.aclManager.defaultNopass = true) ∧
      ctx.isSubscribed fd = false ∧ ctx.txInMulti fd = false)
    ⟨fun ⟨connected, known, listening, outside⟩ => ⟨connected, known, listening, outside⟩,
      fun admits => ⟨admits.connected, admits.known, admits.listening, admits.outside⟩⟩

structure Keeps (before after : CommandContext) : Prop where
  blocking : after.blockingManager = before.blockingManager
  logging : after.aofManager.isSome = before.aofManager.isSome
  replicas : after.replicaCount = before.replicaCount
  admits : ∀ fd, before.Admits fd → after.Admits fd

namespace Keeps

theorem refl (ctx : CommandContext) : Keeps ctx ctx := ⟨rfl, rfl, rfl, fun _ => id⟩

theorem trans {first second third : CommandContext} (left : Keeps first second)
    (right : Keeps second third) : Keeps first third :=
  ⟨right.blocking.trans left.blocking, right.logging.trans left.logging,
    right.replicas.trans left.replicas, fun fd admits => right.admits fd (left.admits fd admits)⟩

end Keeps

theorem gate_admits (cmd : Bytes) (admits : ctx.Admits fd) :
    ∃ admitted, ctx.gate fd cmd = .ok (.admitted admitted) := by
  rw [gate, if_neg (by simp [admits.listening]), if_neg (by simp [admits.connected])]
  split
  · exact ⟨ctx, rfl⟩
  rename_i unknown
  rcases admits.known with known | nopass
  · exact absurd (.inr known) unknown
  · rw [if_pos nopass]
    exact ⟨_, rfl⟩

theorem gate_keeps {admitted : CommandContext} {cmd : Bytes}
    (passed : ctx.gate fd cmd = .ok (.admitted admitted)) : Keeps ctx admitted := by
  rcases (gate_admitted passed).1 with rfl | rfl
  · exact .refl _
  refine ⟨by simp, by simp, by simp, fun other admits => ?_⟩
  refine ⟨?_, ?_, ?_, ?_⟩
  · simpa using admits.connected
  · rcases admits.known with known | nopass
    · exact .inl (isAuthenticated_setAuthenticated_mono ctx fd other known)
    · right
      simpa using nopass
  · simpa using admits.listening
  · simpa [txInMulti] using admits.outside

theorem logCommand_keeps (ctx : CommandContext) (cmd raw : Bytes) :
    Keeps ctx (ctx.logCommand cmd raw) := by
  rw [logCommand_eq]
  exact ⟨rfl, by simp, rfl, fun _ admits =>
    ⟨admits.connected, admits.known, admits.listening, admits.outside⟩⟩

theorem step_executed {name : Bytes} {rest : List Bytes} {command : Command} {outcome : Outcome}
    (raw : Bytes) (admits : ctx.Admits fd) (found : Command.lookup (toUpper name) = some command)
    (handled : executeCommand ctx.toHandlerState fd send (name :: rest) (toUpper name) =
      .ok outcome) (plain : outcome.authenticated = false) :
    ∃ admitted, admitted.toHandlerState = ctx.toHandlerState ∧ Keeps ctx admitted ∧
      ctx.step fd send (name :: rest) raw =
        .ok (logCommand { admitted with toHandlerState := outcome.state } (toUpper name) raw,
          outcome.result,
          ⟨propagatedCommands { admitted with toHandlerState := outcome.state } (toUpper name) raw,
            loggedBytes { admitted with toHandlerState := outcome.state } (toUpper name) raw,
            outcome.reply, outcome.sends⟩) := by
  obtain ⟨admitted, passed⟩ := gate_admits (toUpper name) admits
  have state := gate_toHandlerState passed
  have kept := gate_keeps passed
  have table : toUpper name ∉ controlCommands := by
    rw [lookup_name found]
    cases command <;> decide
  simp only [controlCommands, mem_cons, not_mem_nil, or_false, not_or] at table
  refine ⟨admitted, state, kept, ?_⟩
  rw [← state] at handled
  have executed : ctx.processSingleCommand fd send (name :: rest) (toUpper name) =
      .ok ⟨{ admitted with toHandlerState := outcome.state }, outcome.result, outcome.reply,
        outcome.sends⟩ := by
    rw [processSingleCommand, if_neg (by simp), passed]
    simp only [processAdmitted, table, if_false, (kept.admits fd admits).outside,
      Bool.false_eq_true, execute, handled, plain]
  rw [step, executed]

theorem step_stored {after : Store} {ticks : Nat} {reply : Bytes} (raw : Bytes)
    (admits : ctx.Admits fd) (known : (Command.lookup (toUpper (args.headD []))).isSome = true)
    (handled : executeCommand ctx.toHandlerState fd send args (toUpper (args.headD [])) =
      .ok ⟨{ ctx.toHandlerState with store := after, ticks := ticks }, .normal, reply, [],
        false⟩) :
    ∃ next effect, ctx.step fd send args raw = .ok (next, .normal, effect) ∧
      next.store = after ∧ next.clock = ctx.clock ∧ Keeps ctx next ∧
      effect.logged = ctx.loggedBytes (toUpper (args.headD [])) raw ∧
      effect.propagated = ctx.propagatedCommands (toUpper (args.headD [])) raw ∧
      next.aofManager = (ctx.logCommand (toUpper (args.headD [])) raw).aofManager ∧
      next.config = ctx.config := by
  cases args with
  | nil => exact absurd known (by decide)
  | cons name rest =>
    rw [headD_cons] at known handled ⊢
    obtain ⟨command, found⟩ := Option.isSome_iff_exists.mp known
    obtain ⟨admitted, state, kept, stepped⟩ := step_executed raw admits found handled rfl
    refine ⟨_, _, stepped, ?_, ?_, ?_, rfl, rfl, ?_, ?_⟩
    · rw [logCommand_eq]
    · rw [logCommand_eq]
    · refine kept.trans (Keeps.trans ⟨?_, ?_, ?_, fun other admits => ?_⟩
        (logCommand_keeps _ _ _))
      · rw [state]
      · rw [state]
      · rw [state]
      · have listening : ctx.isSubscribed other = false := by
          rw [← state]
          exact admits.listening
        exact ⟨admits.connected, by rw [← state]; exact admits.known, listening, admits.outside⟩
    · rw [logCommand_eq, logCommand_eq]
      rfl
    · rw [logCommand_eq]

theorem step_applied (send : Bool) (raw : Bytes) (admits : ctx.Admits fd)
    (fits : isReplayable args = true) (steady : ctx.store.NoExpiry) (free : ctx.FreeFor args) :
    ∃ after effect, ctx.step fd send args raw = .ok (after, .normal, effect) ∧
      after.store = applied ctx.store args ∧ Keeps ctx after ∧
      effect.logged = ctx.loggedBytes (toUpper (args.headD [])) raw ∧
      effect.propagated = ctx.propagatedCommands (toUpper (args.headD [])) raw := by
  obtain ⟨command, found, -⟩ := isReplayable_iff.mp fits
  obtain ⟨-, -, runs⟩ := executeCommand_applied ctx.toHandlerState fits steady free
  obtain ⟨ticks, reply, handled⟩ := runs fd send
  obtain ⟨next, effect, stepped, stored, -, kept, logged, sent, -⟩ :=
    step_stored raw admits (by rw [found]; rfl) handled
  exact ⟨next, effect, stepped, stored, kept, logged, sent⟩

theorem applied_steady (fits : isReplayable args = true) (steady : ctx.store.NoExpiry)
    (free : ctx.FreeFor args) : (applied ctx.store args).NoExpiry :=
  (executeCommand_applied ctx.toHandlerState fits steady free).1

theorem Keeps.nobodyBlocked {before after : CommandContext} (keeps : Keeps before after)
    (free : before.NobodyBlocked) : after.NobodyBlocked := by
  intro key manager found
  rw [keeps.blocking] at found
  exact free key manager found

theorem inputRun_applied (send : Bool) (requests : List Request)
    (fits : ∀ request ∈ requests, isReplayable request.args = true) (admits : ctx.Admits fd)
    (steady : ctx.store.NoExpiry) (free : ctx.NobodyBlocked) :
    ∃ last observations,
      Run.run (inputStep fd send) ctx requests = .ok (last, observations) ∧
      (∀ observation ∈ observations, observation.state = .normal) ∧
      last.store = (requests.map Request.args).foldl applied ctx.store ∧
      last.store.NoExpiry ∧ Keeps ctx last ∧
      (observations.flatMap fun seen => seen.effect.logged) =
        if ctx.aofManager.isSome then writesOf requests else [] := by
  induction requests generalizing ctx with
  | nil =>
    refine ⟨ctx, [], rfl, by simp, rfl, steady, .refl ctx, ?_⟩
    split <;> rfl
  | cons request requests ih =>
    have here := fits request (by simp)
    obtain ⟨next, effect, taken, stored, keeps, logged, -⟩ :=
      step_applied send request.raw admits here steady (free.freeFor _)
    have nextSteady : next.store.NoExpiry := by
      rw [stored]
      exact applied_steady here steady (free.freeFor _)
    obtain ⟨last, later, rest, normal, final, finalSteady, kept, log⟩ :=
      ih (fun other member => fits other (by simp [member])) (keeps.admits fd admits)
        nextSteady (keeps.nobodyBlocked free)
    refine ⟨last, ⟨.normal, effect⟩ :: later, ?_, ?_, ?_, finalSteady, keeps.trans kept, ?_⟩
    · simp only [Run.run, inputStep, taken, rest]
    · intro observation member
      rcases mem_cons.mp member with rfl | member
      · rfl
      · exact normal observation member
    · rw [final, stored, map_cons, foldl_cons]
    · rw [flatMap_cons, log, logged, keeps.logging, loggedBytes]
      simp only [writesOf, filter_cons, name]
      by_cases logging : ctx.aofManager.isSome = true
      · simp only [logging, and_true, if_true]
        split <;> simp
      · simp [logging]

structure Call where
  fd : Fd
  commands : List (List Bytes)

namespace Call

def requests (call : Call) : List Request := call.commands.map (ofArgs call.fd)

def input (call : Call) : Bytes := call.commands.flatMap encodeArray

theorem input_eq (call : Call) : call.input = call.requests.flatMap raw := by
  simp only [input, requests, flatMap_map, ofArgs]

end Call

theorem ofArgs_whole (fd : Fd) (sized : Encodable args) : (ofArgs fd args).Whole := by
  have read := parseCommand_encodeArray args [] sized.1 sized.2
  rwa [append_nil] at read

def callStep (ctx : CommandContext) (call : Call) : Except Fault (CommandContext × CallOutcome) :=
  (ctx.processWithFd call.fd true call.input).map fun outcome => (outcome.ctx, outcome)

theorem requests_length_le (requests : List Request) (whole : ∀ request ∈ requests, request.Whole) :
    requests.length ≤ (requests.flatMap raw).length := by
  induction requests with
  | nil => exact Nat.zero_le _
  | cons request requests ih =>
    have positive : 0 < request.raw.length := by
      have read := whole request (by simp)
      cases raw : request.raw with
      | nil =>
        rw [Whole, raw] at read
        simp [parseOneInto, parseCommand] at read
      | cons byte rest => simp
    have more := ih fun other member => whole other (by simp [member])
    simp only [length_cons, flatMap_cons, length_append]
    omega

theorem fetchOutput_keeps (send : Bool) (connected : ctx.hasConnection fd = true) :
    ∃ fetched, ctx.fetchOutput fd send = .ok fetched ∧
      fetched.toHandlerState = ctx.toHandlerState ∧ Keeps ctx fetched := by
  obtain ⟨opened, done⟩ := fetchOutput_open send connected
  have fetched := fetchOutput_ok done
  have state := fetched.state
  refine ⟨opened, done, state, by rw [state], by rw [state], by rw [state], ?_⟩
  intro other admits
  refine ⟨?_, ?_, ?_, ?_⟩
  · rw [fetched.connected, admits.connected]
  · rw [fetched.known, state]
    exact admits.known
  · rw [state, admits.listening]
  · rw [txInMulti, fetched.tx]
    exact admits.outside

theorem processWithFd_applied (send : Bool) (requests : List Request)
    (whole : ∀ request ∈ requests, request.Whole)
    (fits : ∀ request ∈ requests, isReplayable request.args = true) (admits : ctx.Admits fd)
    (steady : ctx.store.NoExpiry) (free : ctx.NobodyBlocked) :
    ∃ outcome, ctx.processWithFd fd send (requests.flatMap raw) = .ok outcome ∧
      outcome.ctx.store = (requests.map Request.args).foldl applied ctx.store ∧
      outcome.ctx.store.NoExpiry ∧ Keeps ctx outcome.ctx ∧
      outcome.logged = if ctx.aofManager.isSome then writesOf requests else [] := by
  obtain ⟨fetched, opened, same, keeps⟩ := fetchOutput_keeps send admits.connected
  have stored : fetched.store = ctx.store := by rw [same]
  obtain ⟨last, observations, ran, normal, final, finalSteady, kept, logged⟩ :=
    inputRun_applied send requests fits (keeps.admits fd admits) (by rw [stored]; exact steady)
      (keeps.nobodyBlocked free)
  have looped := processLoop_whole whole ran normal (requests_length_le requests whole)
  refine ⟨⟨last, .normal, (requests.flatMap raw).length,
    observations.map Observation.effect⟩, ?_, ?_, finalSteady, keeps.trans kept, ?_⟩
  · rw [processWithFd, opened]
    exact looped
  · rw [final, stored]
  · rw [keeps.logging] at logged
    rw [← logged]
    simp only [CallOutcome.logged, flatMap_map]

theorem foldl_writes {store : Store} (requests : List Request) (steady : store.NoExpiry)
    (fits : ∀ request ∈ requests, isReplayable request.args = true) :
    ((requests.filter fun request => isWriteCommand request.name).map Request.args).foldl applied
        store = (requests.map Request.args).foldl applied store := by
  induction requests generalizing store with
  | nil => rfl
  | cons request requests ih =>
    have effect := executeCommand_applied (bareState store) (fits request (by simp)) steady
      (fun _ _ _ _ manager absent => by cases absent)
    have more := fun other (member : other ∈ requests) => fits other (by simp [member])
    simp only [filter_cons, map_cons, foldl_cons]
    split
    · rw [map_cons, foldl_cons]
      exact ih effect.1 more
    rename_i read
    have unchanged : applied store request.args = store :=
      effect.2.1 (by simpa [name] using read)
    rw [unchanged]
    exact ih steady more

theorem callRun_applied (calls : List Call) (clients : ∀ call ∈ calls, ctx.Admits call.fd)
    (sized : ∀ call ∈ calls, ∀ args ∈ call.commands, Encodable args)
    (fits : ∀ call ∈ calls, ∀ args ∈ call.commands, isReplayable args = true)
    (steady : ctx.store.NoExpiry) (free : ctx.NobodyBlocked)
    (logging : ctx.aofManager.isSome = true) :
    ∃ live outcomes, Run.run callStep ctx calls = .ok (live, outcomes) ∧
      live.store = ((calls.flatMap Call.requests).map Request.args).foldl applied ctx.store ∧
      outcomes.flatMap CallOutcome.logged = writesOf (calls.flatMap Call.requests) := by
  induction calls generalizing ctx with
  | nil => exact ⟨ctx, [], rfl, rfl, rfl⟩
  | cons call calls ih =>
    have whole : ∀ request ∈ call.requests, request.Whole :=
      forall_mem_map.mpr fun args present =>
        ofArgs_whole call.fd (sized call (by simp) args present)
    have replayable : ∀ request ∈ call.requests, isReplayable request.args = true :=
      forall_mem_map.mpr (fits call (by simp))
    obtain ⟨outcome, done, stored, nextSteady, keeps, logged⟩ :=
      processWithFd_applied true call.requests whole replayable (clients call (by simp)) steady
        free
    obtain ⟨live, outcomes, rest, final, log⟩ :=
      ih (fun other member => keeps.admits other.fd (clients other (by simp [member])))
        (fun other member => sized other (by simp [member]))
        (fun other member => fits other (by simp [member])) nextSteady
        (keeps.nobodyBlocked free) (keeps.logging.trans logging)
    refine ⟨live, outcome :: outcomes, ?_, ?_, ?_⟩
    · simp only [Run.run, callStep, call.input_eq, done, Except.map, rest]
    · rw [final, stored, flatMap_cons, map_append, foldl_append]
    · rw [flatMap_cons, log, logged, if_pos logging, writesOf, writesOf, writesOf,
        flatMap_cons, filter_append, map_append]

theorem fresh_admits (config : ServerConfig) (clock : Nat → Instant) (forks : Nat → Bool) :
    (fresh Store.empty config clock forks).Admits (-1) := by
  have nopass : AclManager.initial.defaultNopass = true := by decide
  exact ⟨rfl, .inr nopass, rfl, rfl⟩

theorem fresh_process_applied {requests : List Request}
    (whole : ∀ request ∈ requests, request.Whole)
    (fits : ∀ request ∈ requests, isReplayable request.args = true) (config : ServerConfig)
    (clock : Nat → Instant) (forks : Nat → Bool) :
    ∃ replayed response, (fresh Store.empty config clock forks).process
        (requests.flatMap raw) = .ok (replayed, response) ∧
      replayed.store = (requests.map Request.args).foldl applied Store.empty := by
  obtain ⟨outcome, done, stored, -⟩ := processWithFd_applied false requests whole fits
    (fresh_admits config clock forks) Store.empty_noExpiry
    (fun key manager absent => by cases absent)
  refine ⟨outcome.ctx, outcome.effects.flatMap Effect.reply, ?_, stored⟩
  rw [process, done]
  rfl

theorem processEach_applied (requests : List Request) (whole : ∀ request ∈ requests, request.Whole)
    (fits : ∀ request ∈ requests, isReplayable request.args = true) (admits : ctx.Admits (-1))
    (steady : ctx.store.NoExpiry) (free : ctx.NobodyBlocked) :
    ∃ last responses, Run.run process ctx (requests.map raw) = .ok (last, responses) ∧
      last.store = (requests.map Request.args).foldl applied ctx.store := by
  induction requests generalizing ctx with
  | nil => exact ⟨ctx, [], rfl, rfl⟩
  | cons request requests ih =>
    obtain ⟨outcome, done, stored, nextSteady, keeps, -⟩ := processWithFd_applied false [request]
      (fun other member => whole other (by simp_all))
      (fun other member => fits other (by simp_all)) admits steady free
    rw [flatMap_singleton] at done
    obtain ⟨last, responses, rest, final⟩ :=
      ih (fun other member => whole other (by simp [member]))
        (fun other member => fits other (by simp [member])) (keeps.admits (-1) admits)
        nextSteady (keeps.nobodyBlocked free)
    refine ⟨last, outcome.effects.flatMap Effect.reply :: responses, ?_, ?_⟩
    · simp only [map_cons, Run.run, process, done, Except.map, rest]
    · rw [final, stored]
      rfl

/-- Feeding the log to a fresh handler over an empty keyspace rebuilds the live
keyspace, however the commands were grouped into calls and whoever sent them. -/
theorem replay_rebuilds_store (ctx : CommandContext) (calls : List Call)
    (start : ctx.store = Store.empty) (logging : ctx.aofManager.isSome = true)
    (unblocked : ctx.NobodyBlocked) (clients : ∀ call ∈ calls, ctx.Admits call.fd)
    (sized : ∀ call ∈ calls, ∀ args ∈ call.commands, Encodable args)
    (fits : ∀ call ∈ calls, ∀ args ∈ call.commands, isReplayable args = true)
    (config : ServerConfig) (clock : Nat → Instant) (forks : Nat → Bool) :
    ∃ live outcomes replayed response, Run.run callStep ctx calls = .ok (live, outcomes) ∧
      (fresh Store.empty config clock forks).process
        (outcomes.flatMap CallOutcome.logged).flatten = .ok (replayed, response) ∧
      replayed.store.contents = live.store.contents := by
  have steady : ctx.store.NoExpiry := by
    rw [start]
    exact Store.empty_noExpiry
  obtain ⟨live, outcomes, ran, final, logged⟩ :=
    callRun_applied calls clients sized fits steady unblocked logging
  have whole : ∀ request ∈ calls.flatMap Call.requests, request.Whole := by
    intro request member
    obtain ⟨call, present, inside⟩ := List.mem_flatMap.mp member
    obtain ⟨args, sent, rfl⟩ := List.mem_map.mp inside
    exact ofArgs_whole call.fd (sized call present args sent)
  have replayable : ∀ request ∈ calls.flatMap Call.requests,
      isReplayable request.args = true := by
    intro request member
    obtain ⟨call, present, inside⟩ := List.mem_flatMap.mp member
    obtain ⟨args, sent, rfl⟩ := List.mem_map.mp inside
    exact fits call present args sent
  obtain ⟨replayed, response, done, stored⟩ := @fresh_process_applied
    ((calls.flatMap Call.requests).filter fun request => isWriteCommand request.name)
    (fun request member => whole request (List.mem_of_mem_filter member))
    (fun request member => replayable request (List.mem_of_mem_filter member)) config clock forks
  refine ⟨live, outcomes, replayed, response, ran, ?_, ?_⟩
  · rw [logged, writesOf, ← List.flatMap_def, done]
  · rw [stored, final, start]
    exact congrArg Store.contents (foldl_writes _ Store.empty_noExpiry replayable)

theorem twoClients_nobodyBlocked (replicas : Nat) : (twoClients replicas).NobodyBlocked := by
  intro key manager found
  cases found
  rfl

theorem replay_rebuilds_twoClients :
    ∃ live outcomes replayed response,
      Run.run callStep (twoClients 0)
        [⟨5, [[ascii "set", ascii "k", ascii "1"], [ascii "RPUSH", ascii "k", ascii "x"]]⟩,
          ⟨6, [[ascii "INCR", ascii "k"], [ascii "GET", ascii "k"]]⟩] = .ok (live, outcomes) ∧
      (fresh Store.empty ⟨none, [], [], []⟩ (fun _ => ⟨0, 0⟩) fun _ => false).process
        (outcomes.flatMap CallOutcome.logged).flatten = .ok (replayed, response) ∧
      replayed.store.contents = live.store.contents :=
  replay_rebuilds_store (twoClients 0) _ rfl rfl (twoClients_nobodyBlocked 0) (by decide +kernel)
    (by decide +kernel) (by decide +kernel) _ _ _

end CommandContext

end Credis
