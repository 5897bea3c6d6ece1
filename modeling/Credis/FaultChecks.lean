import Credis.FramingChecks
import Credis.PipelineChecks
import Credis.TransactionLogChecks

/-! Calls that leave the defined behaviour: a connection that is not in the pool,
and an argument that is not in the vector. -/

namespace Credis

open ByteString ServerState CommandContext

variable {text raw : Bytes} {args : List Bytes} {ctx : CommandContext} {fd : Fd} {send : Bool}

variable {fault : Fault} {now : Time} {arrival : Arrival} {after : CommandContext}

def nameOf (text : Bytes) : Bytes :=
  match parseOneInto text with
  | .ok (args, _) => toUpper (args.headD [])
  | .error _ => []

namespace CommandContext

def Refused (ctx : CommandContext) (text : Bytes) : Prop :=
  ctx.isSubscribed (-1) = true ∧ nameOf text ∉ subscribedAllowed

instance (ctx : CommandContext) (text : Bytes) : Decidable (ctx.Refused text) :=
  inferInstanceAs (Decidable (_ ∧ _))

theorem process_single (parsed : parseCommand text = .ok (args, text.length)) :
    ctx.process text =
      (ctx.step (-1) false args text).map fun result => (result.1, result.2.2.reply) := by
  have nothing : ∀ result, parseCommand [] ≠ .ok result := by simp [parseCommand]
  obtain ⟨fuel, length⟩ : ∃ fuel, text.length = fuel + 1 :=
    Nat.exists_eq_succ_of_ne_zero (by simp [(parseCommand_consumes parsed).1])
  rw [process, processWithFd, fetchOutput, if_neg (by decide), length]
  dsimp only
  rw [processLoop, parseOneInto, parsed]
  simp only [List.take_length, List.drop_length, processLoop_waits nothing]
  cases ctx.step (-1) false args text with
  | error fault => rfl
  | ok result =>
    obtain ⟨after, state, effect⟩ := result
    cases state <;> simp [Except.map]

theorem process_of_gate_stop (command : IsCommand text) :
    (∀ reply, ctx.gate (-1) (nameOf text) = .ok (.rejected reply) →
      ctx.process text = .ok (ctx.logCommand (nameOf text) text, reply)) ∧
    ∀ fault, ctx.gate (-1) (nameOf text) = .error fault → ctx.process text = .error fault := by
  obtain ⟨args, named, parsed⟩ := command
  obtain ⟨name, rest, rfl⟩ := List.exists_cons_of_ne_nil named
  have same : toUpper name = nameOf text := by
    simp only [nameOf, parseOneInto, parsed, List.headD_cons]
  rw [process_single parsed]
  refine ⟨?_, ?_⟩
  · intro reply stopped
    simp only [step, same, processSingleCommand, if_neg named, stopped, replied]
    rfl
  · intro fault stopped
    simp only [step, same, processSingleCommand, if_neg named, stopped]
    rfl

theorem process_refused {ctx : CommandContext} {text : Bytes} (command : IsCommand text)
    (refused : ctx.Refused text) :
    ctx.process text =
      .ok (ctx.logCommand (nameOf text) text, subscribedReply (nameOf text)) := by
  refine (process_of_gate_stop command).1 _ ?_
  rw [gate]
  exact if_pos refused

theorem process_outside (outside : ctx.hasConnection (-1) = false) (command : IsCommand text)
    (passes : ¬ ctx.Refused text) : ctx.process text = .error .missingConnection := by
  refine (process_of_gate_stop command).2 _ ?_
  rw [gate]
  exact (if_neg passes).trans (if_pos outside)

theorem refused_logCommand (ctx : CommandContext) (cmd raw text : Bytes) :
    (ctx.logCommand cmd raw).Refused text ↔ ctx.Refused text := by
  rw [logCommand_eq]
  rfl

def unpooled (ctx : CommandContext) : CommandContext := { ctx with connPool := none }

theorem processAll_outside {commands : List Bytes} (outside : ctx.hasConnection (-1) = false)
    (complete : ∀ text ∈ commands, IsCommand text) (done : processAll commands ctx = .ok after) :
    ∀ text ∈ commands, ctx.Refused text := by
  induction commands generalizing ctx with
  | nil => simp
  | cons text commands ih =>
    have command := complete text List.mem_cons_self
    by_cases refused : ctx.Refused text
    · rw [processAll, process_refused command refused] at done
      have later := ih (by rwa [logCommand_eq])
        (fun other member => complete other (List.mem_cons_of_mem _ member)) done
      intro other member
      rcases List.mem_cons.mp member with rfl | member
      · exact refused
      · exact (refused_logCommand ctx _ _ other).mp (later other member)
    · rw [processAll, process_outside outside command refused] at done
      cases done

theorem processAll_refused {commands : List Bytes} (complete : ∀ text ∈ commands, IsCommand text)
    (refused : ∀ text ∈ commands, ctx.Refused text) :
    ∃ after, processAll commands ctx = .ok after ∧
      processAll commands ctx.unpooled = .ok after.unpooled := by
  induction commands generalizing ctx with
  | nil => exact ⟨ctx, rfl, rfl⟩
  | cons text commands ih =>
    have command := complete text List.mem_cons_self
    have here := refused text List.mem_cons_self
    obtain ⟨after, pooled, alone⟩ := @ih (ctx.logCommand (nameOf text) text)
      (fun other member => complete other (List.mem_cons_of_mem _ member))
      (fun other member => (refused_logCommand ctx _ _ other).mpr
        (refused other (List.mem_cons_of_mem _ member)))
    refine ⟨after, ?_, ?_⟩
    · rw [processAll, process_refused command here]
      exact pooled
    · rw [processAll, @process_refused ctx.unpooled _ command here]
      rw [logCommand_eq] at alone ⊢
      exact alone

end CommandContext

/-- A wired replica does with the commands of its master what a handler without a
pool does, exactly when it refuses each of them at the check of the channels. -/
theorem wired_replica_applies_iff {server : ServerState} {commands : List Bytes}
    (outside : server.pool.contains (-1) = false)
    (complete : ∀ text ∈ commands, IsCommand text) :
    (∃ after alone, processAll commands server.context = .ok after ∧
        processAll commands server.context.unpooled = .ok alone ∧
        after.toHandlerState = alone.toHandlerState) ↔
      ∀ text ∈ commands, server.context.Refused text := by
  constructor
  · rintro ⟨after, -, done, -, -⟩
    exact processAll_outside outside complete done
  · intro refused
    obtain ⟨after, pooled, alone⟩ := processAll_refused complete refused
    exact ⟨after, after.unpooled, pooled, alone, rfl⟩

theorem wired_replica_follows_silence_only :
    (∃ after alone, processAll [] ServerState.plain.context = .ok after ∧
      processAll [] ServerState.plain.context.unpooled = .ok alone ∧
      after.toHandlerState = alone.toHandlerState) ∧
    ¬ ∃ after alone,
      processAll [encodeArray [ascii "SET", ascii "k", ascii "v"]]
        ServerState.plain.context = .ok after ∧
      processAll [encodeArray [ascii "SET", ascii "k", ascii "v"]]
        ServerState.plain.context.unpooled = .ok alone ∧
      after.toHandlerState = alone.toHandlerState := by
  refine ⟨(wired_replica_applies_iff (by decide +kernel) (by simp)).mpr (by simp), ?_⟩
  rw [wired_replica_applies_iff (by decide +kernel)]
  · decide +kernel
  · simp only [List.mem_singleton, forall_eq]
    exact isCommand_encodeArray (by simp) (by decide +kernel)

/-- The first write of a master ends the replica; without a pool it is applied. -/
theorem wired_replica_ends_at_a_write :
    ServerState.plain.pool.contains (-1) = false ∧
    IsCommand (encodeArray [ascii "SET", ascii "k", ascii "v"]) ∧
    processAll [encodeArray [ascii "SET", ascii "k", ascii "v"]]
      ServerState.plain.context = .error .missingConnection ∧
    ∃ alone, processAll [encodeArray [ascii "SET", ascii "k", ascii "v"]]
        ServerState.plain.context.unpooled = .ok alone ∧
      (alone.store.get 0 (ascii "k")).2 = some (ascii "v") := by
  refine ⟨by decide +kernel, isCommand_encodeArray (by simp) ?_, rfl, Run.Succeeds.ok ?_⟩ <;>
    decide +kernel

/-- The call returns, unless it has a message and no callback to send it with. -/
def Returns {α : Type} (send : Bool) (done : Except Fault α) : Prop :=
  ∀ fault, done = .error fault → send = false ∧ fault = .emptyCallback

theorem returns_ok {α : Type} (result : α) : Returns send (.ok result) := nofun

theorem Returns.error {α β : Type} (returns : Returns send (.error fault : Except Fault α)) :
    Returns send (.error fault : Except Fault β) := by
  rintro other ⟨⟩
  exact returns fault rfl

theorem Returns.map {α β : Type} {done : Except Fault α} (returns : Returns send done) (f : α → β) :
    Returns send (done.map f) := by
  cases done with
  | ok result => exact returns_ok _
  | error fault => exact returns.error

theorem Command.handler_returns {state : HandlerState} {now : Instant} {forked : Bool}
    {command : Command} (enough : command.minArgs ≤ args.length)
    (filled : command = .zadd → danglingScore (args.drop 2) = false) :
    Returns send (command.handler state now forked fd send args) := by
  by_cases data : command.readsClock = true ∧ command ≠ .bgrewriteaof
  · intro fault failed
    have alike := @Command.handler_related args send Eq state.store now now command data.1 data.2
      (fun operation used left right same => same ▸ ⟨rfl, rfl⟩) state rfl forked fd
    rw [failed] at alike
    rcases alike.of_error with ⟨short | ⟨adds, dangling⟩, -⟩ | ⟨-, silent, empty⟩
    · omega
    · rw [filled adds] at dangling
      cases dangling
    · exact ⟨silent, empty⟩
  · cases command with
    | ping | info | bgrewriteaof | acl | auth | replconf | wait | psync | publish =>
      exact returns_ok _
    | echo =>
      rcases args with _ | ⟨name, _ | ⟨message, rest⟩⟩ <;> simp [minArgs] at enough
      exact returns_ok _
    | config =>
      simp only [Command.handler]
      unfold handleConfig
      repeat' split
      all_goals exact returns_ok _
    | subscribe | unsubscribe =>
      refine Returns.map ?_ _
      first | unfold handleSubscribe | unfold handleUnsubscribe
      repeat' split
      all_goals exact returns_ok _
    | _ => exact absurd ⟨rfl, by decide⟩ data

/-- The command has a name, and a `ZADD` that gets to its last score has a member
behind it. -/
def Complete (args : List Bytes) : Prop :=
  args ≠ [] ∧ (toUpper (args.headD []) = ascii "ZADD" → 4 ≤ args.length →
    danglingScore (args.drop 2) = false)

instance (args : List Bytes) : Decidable (Complete args) := inferInstanceAs (Decidable (_ ∧ _))

def InBounds {α : Type} (done : Except Fault α) : Prop := done ≠ .error .argumentIndex

theorem inBounds_ok {α : Type} (result : α) : InBounds (.ok result) := by simp [InBounds]

theorem InBounds.error {α β : Type} (inBounds : InBounds (.error fault : Except Fault α)) :
    InBounds (.error fault : Except Fault β) := by
  simpa [InBounds] using inBounds

theorem InBounds.map {α β : Type} {done : Except Fault α} (inBounds : InBounds done) (f : α → β) :
    InBounds (done.map f) := by
  cases done with
  | ok result => exact inBounds_ok _
  | error fault => exact inBounds.error

theorem executeCommand_returns {state : HandlerState} {fd : Fd} {send : Bool} {args : List Bytes}
    {cmd : Bytes} (complete : Complete args)
    (named : cmd = args.headD [] ∨ cmd = toUpper (args.headD [])) :
    Returns send (executeCommand state fd send args cmd) := by
  unfold executeCommand
  split
  · exact returns_ok _
  rename_i command found
  split
  · exact returns_ok _
  rename_i enough
  rw [Nat.not_lt] at enough
  refine Command.handler_returns enough ?_
  rintro rfl
  have name : toUpper (args.headD []) = ascii "ZADD" := by
    rcases named with same | upper
    · rw [← same, lookup_name found]
      exact Command.toUpper_name .zadd
    · rw [← upper, lookup_name found]
      rfl
  exact complete.2 name enough

namespace CommandContext

variable {ctx : CommandContext} {fd : Fd} {send : Bool} {args : List Bytes} {cmd : Bytes}

theorem execute_returns (complete : Complete args)
    (named : cmd = args.headD [] ∨ cmd = toUpper (args.headD [])) :
    Returns send (ctx.execute fd send args cmd) := by
  have handled := @executeCommand_returns ctx.toHandlerState fd send args cmd complete named
  unfold execute
  split
  · rename_i fault failed
    rw [failed] at handled
    exact handled.error
  · exact returns_ok _

theorem execQueued_returns {queue : List (List Bytes)} (complete : ∀ args ∈ queue, Complete args) :
    Returns send (execQueued fd send queue ctx) := by
  induction queue generalizing ctx with
  | nil => exact returns_ok _
  | cons args queue ih =>
    have here := complete args List.mem_cons_self
    have later := fun other member => complete other (List.mem_cons_of_mem args member)
    cases args with
    | nil => exact absurd rfl here.1
    | cons name rest =>
      have returns := @execute_returns ctx fd send (name :: rest) name here (.inl rfl)
      unfold execQueued
      split
      · rename_i fault failed
        rw [failed] at returns
        exact returns.error
      · rename_i outcome _
        have behind := @ih outcome.ctx later
        split
        · rename_i fault failed
          rw [failed] at behind
          exact behind.error
        · exact returns_ok _

theorem exec_returns (queued : ctx.AllQueued Complete) : Returns send (ctx.exec fd send) := by
  have returns := @execQueued_returns ctx fd send _ (queued fd)
  unfold exec
  repeat' split
  · exact returns_ok _
  · exact returns_ok _
  · rename_i fault failed
    rw [failed] at returns
    exact returns.error
  · exact returns_ok _

theorem processSingleCommand_fault (queued : ctx.AllQueued Complete) (complete : Complete args)
    (named : cmd = args.headD [] ∨ cmd = toUpper (args.headD []))
    (failed : ctx.processSingleCommand fd send args cmd = .error fault) :
    (send = false ∧ fault = .emptyCallback) ∨
      (ctx.hasConnection fd = false ∧ fault = .missingConnection) := by
  rw [processSingleCommand, if_neg complete.1] at failed
  split at failed
  · rename_i stopped
    cases failed
    right
    unfold gate at stopped
    split at stopped
    · cases stopped
    split at stopped
    · rename_i outside
      cases stopped
      exact ⟨outside, rfl⟩
    · repeat' split at stopped
      all_goals cases stopped
  · cases failed
  · rename_i admitted passed
    left
    have kept : admitted.AllQueued Complete :=
      allQueued_of_tx queued fun other => .inl (gate_tx passed other)
    unfold processAdmitted at failed
    repeat' split at failed
    · cases failed
    · exact exec_returns kept fault failed
    · cases failed
    · cases failed
    · cases failed
    · cases failed
    · exact execute_returns complete named fault failed

theorem step_fault (queued : ctx.AllQueued Complete) (complete : Complete args)
    (failed : ctx.step fd send args raw = .error fault) :
    (send = false ∧ fault = .emptyCallback) ∨
      (ctx.hasConnection fd = false ∧ fault = .missingConnection) := by
  cases args with
  | nil => exact absurd rfl complete.1
  | cons name rest =>
    simp only [step] at failed
    split at failed
    · rename_i stopped
      cases failed
      exact processSingleCommand_fault queued complete (.inr rfl) stopped
    · cases failed

theorem step_inBounds {raw : Bytes} (queued : ctx.AllQueued Complete) (complete : Complete args) :
    InBounds (ctx.step fd send args raw) := by
  intro failed
  rcases step_fault queued complete failed with ⟨-, other⟩ | ⟨-, other⟩
  · cases other
  · cases other

theorem step_allQueued {state : ProcessState} {effect : Effect} (queued : ctx.AllQueued Complete)
    (complete : Complete args) (stepped : ctx.step fd send args raw = .ok (after, state, effect)) :
    after.AllQueued Complete := by
  obtain ⟨outcome, -, serves, rfl, -⟩ :=
    inputStep_ok (@inputStep_of_step fd ctx send ⟨fd, args, raw⟩ after state effect stepped)
  exact allQueued_of_tx (serves.allQueued queued fun _ _ _ _ => complete)
    fun other => .inl (logCommand_tx _ _ _ other)

theorem processLoop_inBounds {fuel : Nat} {input : Bytes} (queued : ctx.AllQueued Complete)
    (complete : ∀ args ∈ (readCommands parseOneInto fuel input).1, Complete args) :
    InBounds (processLoop fd send fuel ctx input) ∧
      ∀ outcome, processLoop fd send fuel ctx input = .ok outcome →
        outcome.ctx.AllQueued Complete := by
  induction fuel generalizing ctx input with
  | zero =>
    refine ⟨inBounds_ok _, fun outcome done => ?_⟩
    cases done
    exact queued
  | succ fuel ih =>
    unfold processLoop
    unfold readCommands at complete
    split
    · refine ⟨inBounds_ok _, fun outcome done => ?_⟩
      cases done
      exact queued
    · rename_i args length parsed
      simp only [parsed, List.mem_cons, forall_eq_or_imp] at complete
      have inBounds := @step_inBounds ctx fd send args (input.take length) queued complete.1
      split
      · rename_i fault failed
        rw [failed] at inBounds
        exact ⟨inBounds.error, fun outcome done => by cases done⟩
      · rename_i after effect stepped
        obtain ⟨rest, kept⟩ := ih (step_allQueued queued complete.1 stepped) complete.2
        split
        · rename_i fault failed
          rw [failed] at rest
          exact ⟨rest.error, fun outcome done => by cases done⟩
        · rename_i last looped
          refine ⟨inBounds_ok _, fun outcome done => ?_⟩
          cases done
          exact kept last looped
      · rename_i after state effect _ stepped
        refine ⟨inBounds_ok _, fun outcome done => ?_⟩
        cases done
        exact step_allQueued queued complete.1 stepped

theorem processWithFd_inBounds {input : Bytes} (queued : ctx.AllQueued Complete)
    (complete : ∀ args ∈ (readCommands parseOneInto input.length input).1, Complete args) :
    InBounds (ctx.processWithFd fd send input) ∧
      ∀ outcome, ctx.processWithFd fd send input = .ok outcome →
        outcome.ctx.AllQueued Complete := by
  have fetched : InBounds (ctx.fetchOutput fd send) := by
    unfold fetchOutput
    repeat' split
    all_goals simp [InBounds]
  unfold processWithFd
  split
  · rename_i fault failed
    rw [failed] at fetched
    exact ⟨fetched.error, fun outcome done => by cases done⟩
  · rename_i marked done
    have kept := allQueued_of_tx queued fun other => .inl ((fetchOutput_ok done).tx other)
    exact processLoop_inBounds kept complete

end CommandContext

inductive Arrival
  | input (fd : Fd) (send : Bool) (bytes : Bytes)
  | connect (fd : Fd)
  | disconnect (fd : Fd)
  | timeouts (now : Time) (status : AofManager.ChildStatus)

def Arrival.commands : Arrival → List (List Bytes)
  | .input _ _ bytes => (readCommands parseOneInto bytes.length bytes).1
  | _ => []

namespace CommandContext

def arrive (ctx : CommandContext) : Arrival → Except Fault (CommandContext × List Effect)
  | .input fd send bytes =>
    (ctx.processWithFd fd send bytes).map fun outcome => (outcome.ctx, outcome.effects)
  | .connect fd => .ok (ctx.addConnection fd, [])
  | .disconnect fd => .ok (ctx.dropConnection fd, [])
  | .timeouts now status => .ok (ctx.settle now status, [])

theorem arrive_inBounds (queued : ctx.AllQueued Complete)
    (complete : ∀ args ∈ arrival.commands, Complete args) : InBounds (ctx.arrive arrival) := by
  cases arrival with
  | input fd send bytes => exact (processWithFd_inBounds queued complete).1.map _
  | connect fd => exact inBounds_ok _
  | disconnect fd => exact inBounds_ok _
  | timeouts now status => exact inBounds_ok _

theorem arrive_allQueued {next : CommandContext} {effects : List Effect}
    (queued : ctx.AllQueued Complete) (complete : ∀ args ∈ arrival.commands, Complete args)
    (done : ctx.arrive arrival = .ok (next, effects)) : next.AllQueued Complete := by
  cases arrival with
  | input fd send bytes =>
    have kept := (@processWithFd_inBounds ctx fd send bytes queued complete).2
    cases called : ctx.processWithFd fd send bytes with
    | error fault =>
      rw [arrive, called] at done
      cases done
    | ok outcome =>
      rw [arrive, called] at done
      cases done
      exact kept outcome called
  | connect fd =>
    cases done
    exact allQueued_of_tx queued (tx_addConnection_or ctx fd)
  | disconnect fd =>
    cases done
    exact allQueued_of_tx queued (tx_dropConnection_or ctx fd)
  | timeouts now status =>
    cases done
    exact allQueued_of_tx queued fun _ => .inl rfl

theorem run_inBounds {arrivals : List Arrival} (queued : ctx.AllQueued Complete)
    (complete : ∀ arrival ∈ arrivals, ∀ args ∈ arrival.commands, Complete args) :
    InBounds (Run.run arrive ctx arrivals) :=
  Run.run_avoids (AllQueued Complete)
    (fun _ _ _ _ queued complete done => arrive_allQueued queued complete done)
    (fun _ _ queued complete => arrive_inBounds queued complete) queued
    (@Run.along_of_forall _ _ _ _ arrive
      (fun arrival => ∀ args ∈ arrival.commands, Complete args) arrivals complete ctx)

theorem zaddPairs_dangling {key : Key} {pairs : List Bytes} {store : Store} {added : Int}
    (dangling : danglingScore pairs = true) :
    zaddPairs now key pairs store added = .error .argumentIndex := by
  fun_induction zaddPairs now key pairs store added with
  | case1 => cases dangling
  | case2 store added score unread => simp [danglingScore, unread] at dangling
  | case3 => rfl
  | case4 store added score member rest unread => simp [danglingScore, unread] at dangling
  | case5 store added score member rest number parsed after count stored ih =>
    exact ih (by simpa [danglingScore, parsed] using dangling)

theorem handleZadd_dangling (enough : 4 ≤ args.length)
    (dangling : danglingScore (args.drop 2) = true) :
    handleZadd Store.empty now args = .error .argumentIndex := by
  rcases args with _ | ⟨name, _ | ⟨key, _ | ⟨score, _ | ⟨member, rest⟩⟩⟩⟩ <;> simp at enough
  simp only [List.drop_succ_cons, List.drop_zero, danglingScore, Bool.and_eq_true] at dangling
  obtain ⟨number, parsed⟩ := Option.isSome_iff_exists.mp dangling.1
  simp only [handleZadd, parsed]
  exact zaddPairs_dangling dangling.2

theorem step_dangling {admitted : CommandContext}
    (passed : ctx.gate fd (ascii "ZADD") = .ok (.admitted admitted))
    (outside : ctx.txInMulti fd = false) (bare : ctx.store = Store.empty)
    (name : toUpper (args.headD []) = ascii "ZADD") (enough : 4 ≤ args.length)
    (dangling : danglingScore (args.drop 2) = true) :
    ctx.step fd send args raw = .error .argumentIndex := by
  have named : args ≠ [] := by
    rintro rfl
    cases enough
  have read : (Command.zadd.handler (admitted.toHandlerState.tick)
      (admitted.clock admitted.ticks) (admitted.forks admitted.ticks) fd send args) =
      .error .argumentIndex := by
    rw [gate_toHandlerState passed]
    simp only [Command.handler, HandlerState.tick, bare, handleZadd_dangling enough dangling]
    rfl
  have table : ctx.processSingleCommand fd send args (ascii "ZADD") =
      admitted.execute fd send args (ascii "ZADD") := by
    rw [process_of_gate named passed]
    have quiet : admitted.txInMulti fd = false := by rwa [txInMulti, gate_tx passed]
    simp only [processAdmitted, quiet]
    rfl
  have found : Command.lookup (ascii "ZADD") = some .zadd := by decide
  cases args with
  | nil => exact absurd rfl named
  | cons first rest =>
    simp only [List.headD_cons] at name
    simp only [step, name, table, execute, executeCommand, found,
      if_neg (Nat.not_lt.mpr (show Command.zadd.minArgs ≤ _ from enough))]
    rw [show (Command.zadd.readsClock) = true from rfl, if_pos rfl, read]

theorem processLoop_first (fits : Encodable args)
    (failed : ∀ raw, ctx.step fd send args raw = .error fault) :
    processLoop fd send (encodeArray args).length ctx (encodeArray args) = .error fault := by
  have read := parseCommand_encodeArray args [] fits.1 fits.2
  rw [List.append_nil] at read
  obtain ⟨fuel, length⟩ : ∃ fuel, (encodeArray args).length = fuel + 1 :=
    Nat.exists_eq_succ_of_ne_zero (by simp [encodeArray, arrayHeader])
  rw [length, processLoop, parseOneInto, read]
  simp only [failed]

theorem wired_opens (config : ServerConfig) (aof : AofManager) (clock : Nat → Instant)
    (forks : Nat → Bool) (replicas : Nat) :
    ∃ opened,
      ((wired config aof clock forks replicas).addConnection 5).fetchOutput 5 true = .ok opened ∧
      opened.Admits 5 ∧ opened.store = Store.empty ∧
      opened.blockingManager = some BlockingManager.empty ∧ opened.tx 5 = none :=
  ⟨_, rfl, ⟨rfl, .inr rfl, rfl, rfl⟩, rfl, rfl, rfl⟩

theorem step_incomplete {ctx : CommandContext} {fd : Fd} {send : Bool} {args : List Bytes}
    {raw : Bytes} (admits : ctx.Admits fd) (bare : ctx.store = Store.empty)
    (broken : ¬ Complete args) : ctx.step fd send args raw = .error .argumentIndex := by
  by_cases named : args = []
  · rw [named]
    rfl
  simp only [Complete, ne_eq, named, not_false_eq_true, true_and, Classical.not_imp,
    Bool.not_eq_false] at broken
  obtain ⟨name, enough, dangling⟩ := broken
  obtain ⟨admitted, passed⟩ := gate_admits (ascii "ZADD") admits
  exact step_dangling passed admits.outside bare name enough dangling

theorem processWithFd_incomplete {opened : CommandContext}
    (fetched : ctx.fetchOutput fd send = .ok opened) (admits : opened.Admits fd)
    (bare : opened.store = Store.empty) (fits : Encodable args) (broken : ¬ Complete args) :
    ctx.processWithFd fd send (encodeArray args) = .error .argumentIndex := by
  rw [processWithFd, fetched]
  exact processLoop_first fits fun raw => step_incomplete admits bare broken

theorem run_incomplete (config : ServerConfig) (aof : AofManager) (clock : Nat → Instant)
    (forks : Nat → Bool) (replicas : Nat) {args : List Bytes} (fits : Encodable args)
    (broken : ¬ Complete args) :
    Run.run arrive (wired config aof clock forks replicas)
      [.connect 5, .input 5 true (encodeArray args)] = .error .argumentIndex := by
  obtain ⟨opened, fetched, admits, bare, -, -⟩ := wired_opens config aof clock forks replicas
  simp only [Run.run, arrive, processWithFd_incomplete fetched admits bare fits broken]
  rfl

end CommandContext

/-- From a keyspace without content no arrival makes the handler index behind an
argument vector, exactly when all commands that may arrive are complete. -/
theorem arguments_indexed_iff (config : ServerConfig) (aof : AofManager) (clock : Nat → Instant)
    (forks : Nat → Bool) (replicas : Nat) (allowed : List Bytes → Prop) :
    (∀ arrivals : List Arrival,
        (∀ arrival ∈ arrivals, ∀ args ∈ arrival.commands, allowed args) →
        InBounds (Run.run CommandContext.arrive
          (CommandContext.wired config aof clock forks replicas) arrivals)) ↔
      ∀ args, Encodable args → allowed args → Complete args := by
  constructor
  · intro safe args fits permitted
    by_contra broken
    refine safe _ ?_ (run_incomplete config aof clock forks replicas fits broken)
    have read := @readCommands_encodeArray [args] (encodeArray args).length
      (by simpa using fits) (by simp [encodeArray, arrayHeader])
    rw [List.flatMap_singleton] at read
    simp [Arrival.commands, read, permitted]
  · intro complete arrivals permitted
    have idle : ∀ fd, (CommandContext.wired config aof clock forks replicas).tx fd = none := by
      intro fd
      rfl
    refine run_inBounds ?_ fun arrival member args read => ?_
    · intro fd args member
      simp [txGet, idle, TransactionState.fresh] at member
    · refine complete args ?_ (permitted arrival member args read)
      cases arrival with
      | input fd send bytes => exact readCommands_encodable args read
      | connect fd => cases read
      | disconnect fd => cases read
      | timeouts now status => cases read

/-- An array without elements, and a score without a member. -/
theorem empty_array_and_dangling_score_fault :
    Run.run CommandContext.arrive
        (CommandContext.wired ⟨none, [], [], []⟩ AofManager.initial (fun _ => ⟨0, 0⟩)
          (fun _ => false) 0)
        [.connect 5, .input 5 true (ascii "*0" ++ crlf)] = .error .argumentIndex ∧
    Run.run CommandContext.arrive
        (CommandContext.wired ⟨none, [], [], []⟩ AofManager.initial (fun _ => ⟨0, 0⟩)
          (fun _ => false) 0)
        [.connect 5, .input 5 true
          (encodeArray [ascii "ZADD", ascii "k", ascii "1", ascii "a", ascii "2"])] =
      .error .argumentIndex :=
  ⟨@run_incomplete _ _ _ _ _ [] (by decide +kernel) (by decide +kernel),
    run_incomplete _ _ _ _ _ (by decide +kernel) (by decide +kernel)⟩

end Credis
