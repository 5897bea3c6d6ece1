import Credis.OutputChecks
import Credis.ReferenceChecks
import Credis.RejectionChecks

/-! Transactions as their clients see them. A client that knows its own commands and
the replies knows what its queue holds, whatever the other connections do meanwhile;
only EXEC runs the queue, and all of it. -/

namespace Credis

open ByteString

variable {fd : Fd} {output : Option Observation} {event : Event} {ctx : CommandContext}

variable {after next : CommandContext} {reply : Bytes}

def Execution.queuedReply (execution : Execution) : Bytes :=
  if execution.outcome.result = .normal then execution.outcome.reply
  else CommandContext.notAllowedReply

namespace CommandContext

/-- What a client knows of its transaction: the commands since its MULTI, if it is in
one. A connection in the pool starts and ends without a transaction. -/
def scriptStep (pooled : Bool) (fd : Fd) (script : Option (List (List Bytes))) :
    Event × Option Observation → Option (List (List Bytes))
  | (.connect other, _) | (.disconnect other, _) =>
    if pooled = true ∧ other = fd then none else script
  | (.timeouts _ _, _) => script
  | (.request request, output) =>
    if request.fd ≠ fd then script
    else
      match script with
      | none =>
        if request.name = ascii "MULTI" ∧
            output.any (fun seen => seen.effect.reply == respOk) = true then some []
        else none
      | some queue =>
        if request.name = ascii "EXEC" ∨ request.name = ascii "DISCARD" then none
        else if request.name ∈ controlCommands then some queue
        else some (queue ++ [request.args])

def scriptOf (pooled : Bool) (fd : Fd) (events : List Event)
    (observations : List (Option Observation)) : Option (List (List Bytes)) :=
  (events.zip observations).foldl (scriptStep pooled fd) none

def script (ctx : CommandContext) (fd : Fd) : Option (List (List Bytes)) :=
  if ctx.txInMulti fd = true then some (ctx.txGet fd).queuedCommands else none

theorem script_congr {left right : CommandContext} (same : left.tx fd = right.tx fd) :
    left.script fd = right.script fd := by
  rw [script, script, txInMulti, txInMulti, txGet, txGet, same]

theorem script_of_tx {tx : TransactionState} (found : ctx.tx fd = some tx) :
    ctx.script fd = if tx.inMulti = true then some tx.queuedCommands else none := by
  rw [script, txInMulti, txGet, found]
  rfl

theorem script_tx_ite {ends : Prop} [Decidable ends]
    (tx : next.tx fd = if ends then none else ctx.tx fd) :
    next.script fd = if ends then none else ctx.script fd := by
  split at tx
  · rename_i ended
    rw [if_pos ended, script, txInMulti, tx]
    rfl
  · rename_i going
    rw [if_neg going, script_congr tx]

/-- Behind the gates everything but the log is as it was: the keyspace, who waits and
who listens. -/
def Untouched (before after : CommandContext) : Prop :=
  ∃ aof, after.toHandlerState = { before.toHandlerState with aofManager := aof }

structure Insulated (ctx : CommandContext) : Prop where
  tidy : ctx.Tidy
  known : ctx.MultiKnown
  deaf : ∀ fd, ctx.txInMulti fd = true → ctx.isSubscribed fd = false

theorem insulated_of_none (idle : ∀ fd, ctx.tx fd = none) : ctx.Insulated := by
  have outside : ∀ fd, ctx.txInMulti fd = false := by
    intro fd
    rw [txInMulti, idle fd]
    rfl
  refine ⟨tidy_of_none idle, fun fd inside => ?_, fun fd inside => ?_⟩
  · rw [outside fd] at inside
    cases inside
  · rw [outside fd] at inside
    cases inside

theorem hasConnection_of_txInMulti (inside : ctx.txInMulti fd = true) :
    ctx.hasConnection fd = true := by
  unfold txInMulti tx at inside
  unfold hasConnection
  cases found : ctx.connPool with
  | none => rfl
  | some pool =>
    simp only [found] at inside
    rw [Option.all_some, ConnectionPool.contains]
    cases there : pool.find fd with
    | none =>
      rw [there] at inside
      cases inside
    | some connection => rfl

theorem Insulated.gate (insulated : ctx.Insulated) (inside : ctx.txInMulti fd = true)
    (cmd : Bytes) :
    ctx.gate fd cmd = .ok (.admitted ctx) := by
  rw [CommandContext.gate, if_neg (by simp [insulated.deaf fd inside]),
    if_neg (by simp [hasConnection_of_txInMulti inside]),
    if_pos (.inr (insulated.known fd inside))]

theorem executeCommand_isSubscribed {state : HandlerState} {other : Fd} {send : Bool}
    {args : List Bytes} {cmd : Bytes} {outcome : Outcome}
    (done : executeCommand state fd send args cmd = .ok outcome) (different : other ≠ fd) :
    outcome.state.isSubscribed other = state.isSubscribed other := by
  unfold HandlerState.isSubscribed
  rcases executeCommand_pubsub done with same | ⟨manager, channel, found, joins | leaves⟩
  · rw [same]
  · rw [joins, found, Option.any_some, Option.any_some,
      PubSubManager.isSubscribed_subscribe different]
  · rw [leaves, found, Option.any_some, Option.any_some,
      PubSubManager.isSubscribed_unsubscribe different]

section Steps

variable {ctx next : CommandContext} {fd other : Fd} {send : Bool} {args : List Bytes}
  {cmd : Bytes} {outcome : CommandOutcome}

theorem Serves.isSubscribed (serves : Serves ctx fd send args cmd outcome)
    (different : other ≠ fd) : outcome.ctx.isSubscribed other = ctx.isSubscribed other :=
  @Serves.relates _ _ _ _ _ _
    (fun before after => after.isSubscribed other = before.isSubscribed other)
    (fun _ => rfl) (fun first second => second.trans first)
    (fun done => executeCommand_isSubscribed done different) serves

theorem Serves.deaf (serves : Serves ctx fd send args cmd outcome)
    (deaf : ctx.txInMulti fd = true → ctx.isSubscribed fd = false)
    (inside : outcome.ctx.txInMulti fd = true) : outcome.ctx.isSubscribed fd = false := by
  rcases serves.state_cases with idle | ⟨admitted, final, _, _, -, -, -, -, -, rfl⟩ |
    ⟨admitted, passed, -, outside, done⟩
  · rw [idle.state.1]
    have turn := serves.tx_step
    rw [txInMulti] at inside
    generalize outcome.ctx.tx fd = tx at turn inside
    cases turn with
    | same => exact deaf inside
    | begun passed name =>
      cases known : ctx.isSubscribed fd with
      | false => rfl
      | true =>
        have allowed := (gate_admitted passed).2.2.2 known
        rw [name] at allowed
        exact absurd allowed (by decide)
    | ended _ => cases inside
    | watched _ =>
      rw [Option.any_some, watchKeys_inMulti, ← txInMulti_eq] at inside
      exact deaf inside
    | unwatched _ =>
      rw [Option.any_some] at inside
      exact deaf (by rw [txInMulti_eq]; exact inside)
    | queued _ _ earlier => exact deaf earlier
  · rw [txInMulti, tx_clearTx] at inside
    cases inside
  · rw [txInMulti, execute_tx done, ← txInMulti, gate_txInMulti passed, outside] at inside
    cases inside

theorem Insulated.handle (insulated : ctx.Insulated)
    (handled : ctx.handle event = .ok (next, output)) : next.Insulated := by
  refine ⟨insulated.tidy.handle handled, handle_multiKnown insulated.known handled, ?_⟩
  intro fd inside
  cases event with
  | connect other =>
    cases handled
    rw [txInMulti] at inside
    rcases tx_addConnection_or ctx other fd with same | gone
    · rw [same] at inside
      exact insulated.deaf fd inside
    · rw [gone] at inside
      cases inside
  | disconnect other =>
    cases handled
    rw [txInMulti] at inside
    rcases tx_dropConnection_or ctx other fd with same | gone
    · rw [same] at inside
      have before := insulated.deaf fd inside
      unfold HandlerState.isSubscribed dropConnection at *
      cases found : ctx.pubsubManager with
      | none => rfl
      | some manager =>
        rw [found, Option.any_some] at before
        rw [Option.map_some, Option.any_some]
        by_cases same : fd = other
        · rw [same]
          exact PubSubManager.isSubscribed_unsubscribeAll manager other
        · rw [PubSubManager.isSubscribed_unsubscribeAll_ne manager same]
          exact before
    · rw [gone] at inside
      cases inside
  | timeouts now status =>
    cases handled
    exact insulated.deaf fd inside
  | request request =>
    obtain ⟨outcome, aof, serves, rfl⟩ := handle_served handled
    change outcome.ctx.txInMulti fd = true at inside
    change outcome.ctx.isSubscribed fd = false
    by_cases own : fd = request.fd
    · subst own
      exact serves.deaf (insulated.deaf _) inside
    · rw [serves.isSubscribed own]
      rw [txInMulti, serves.tx_other own] at inside
      exact insulated.deaf fd inside

theorem rejected_ne_respOk (refused : ctx.gate fd cmd = .ok (.rejected reply)) :
    reply ≠ respOk := by
  rcases gate_rejected refused with rfl | rfl
  · exact encodeError_ne_respOk _
  · exact encodeError_ne_respOk _

theorem Serves.script_outside (serves : Serves ctx fd send args cmd outcome) (tidy : ctx.Tidy)
    (outside : ctx.txInMulti fd = false) :
    outcome.ctx.script fd =
      if cmd = ascii "MULTI" ∧ outcome.reply = respOk then some [] else none := by
  have empty := tidy fd outside
  have known := outside
  rw [txInMulti_eq] at known
  have turn := serves.tx_step
  -- every other command leaves the connection outside
  have other : cmd ≠ ascii "MULTI" → outcome.ctx.script fd = none := by
    intro differs
    rw [script, txInMulti_eq, txGet]
    generalize outcome.ctx.tx fd = tx at turn
    cases turn with
    | same => rw [← txGet, known, if_neg Bool.false_ne_true]
    | begun _ name => exact absurd name differs
    | ended _ => rfl
    | watched _ => rw [Option.getD_some, watchKeys_inMulti, known, if_neg Bool.false_ne_true]
    | unwatched _ => rw [Option.getD_some, known, if_neg Bool.false_ne_true]
    | queued _ _ inside =>
      rw [outside] at inside
      cases inside
  by_cases name : cmd = ascii "MULTI"
  · have control : cmd ∈ controlCommands := by simp [name, controlCommands]
    cases serves with
    | rejected refused =>
      rw [if_neg fun both => rejected_ne_respOk refused both.2, replied, script, outside,
        if_neg Bool.false_ne_true]
    | multi passed =>
      rename_i admitted _
      rw [CommandContext.multi, gate_txInMulti passed, outside, if_neg Bool.false_ne_true,
        if_pos ⟨name, rfl⟩, replied,
        gate_txGet passed]
      have begun := tx_setTx admitted fd { ctx.txGet fd with inMulti := true }
        (gate_hasConnection passed)
      rw [script_of_tx begun, if_pos rfl]
      exact congrArg some empty
    | exec _ differs _ | discard _ differs | watch _ differs | unwatch _ differs =>
      exact absurd (name.symm.trans differs) (by decide)
    | queued _ table _ => exact absurd control table
    | executed _ table _ _ => exact absurd control table
  · rw [if_neg fun both => name both.1, other name]

theorem exec_ends (inside : ctx.txInMulti fd = true) (done : ctx.exec fd send = .ok outcome) :
    outcome.ctx.tx fd = none := by
  rcases exec_ok done with ⟨outside, -⟩ | ⟨-, rfl⟩ | ⟨final, _, _, -, -, -, rfl⟩
  · cases inside.symm.trans outside
  · exact tx_clearTx ctx fd
  · exact tx_clearTx final fd

theorem Serves.script_inside (serves : Serves ctx fd send args cmd outcome)
    (insulated : ctx.Insulated) (inside : ctx.txInMulti fd = true) :
    outcome.ctx.script fd =
      if cmd = ascii "EXEC" ∨ cmd = ascii "DISCARD" then none
      else if cmd ∈ controlCommands then some (ctx.txGet fd).queuedCommands
      else some ((ctx.txGet fd).queuedCommands ++ [args]) := by
  have passed := insulated.gate inside cmd
  have connected := hasConnection_of_txInMulti inside
  have begun := inside
  rw [txInMulti_eq] at begun
  have stays : ctx.script fd = some (ctx.txGet fd).queuedCommands := if_pos inside
  -- the remaining commands that deal with transactions
  have kept : cmd ∈ [ascii "MULTI", ascii "WATCH", ascii "UNWATCH"] →
      ¬ (cmd = ascii "EXEC" ∨ cmd = ascii "DISCARD") ∧ cmd ∈ controlCommands := by
    intro member
    simp only [List.mem_cons, List.not_mem_nil, or_false] at member
    rcases member with rfl | rfl | rfl <;> decide
  cases serves with
  | rejected refused =>
    rw [passed] at refused
    cases refused
  | multi gated name =>
    rw [passed] at gated
    cases gated
    obtain ⟨goes, control⟩ := kept (by simp [name])
    rw [if_neg goes, if_pos control, CommandContext.multi, inside, if_pos rfl, replied, stays]
  | exec gated name done =>
    rw [passed] at gated
    cases gated
    rw [if_pos (.inl name), script, txInMulti, exec_ends inside done]
    rfl
  | discard gated name =>
    rw [passed] at gated
    cases gated
    rw [if_pos (.inr name), CommandContext.discard, inside, if_neg (by decide), replied, script,
      txInMulti, tx_clearTx]
    rfl
  | watch gated name =>
    rw [passed] at gated
    cases gated
    have same : (ctx.watch fd args).ctx = ctx := by
      unfold CommandContext.watch
      rw [inside, if_pos rfl]
      split <;> rfl
    obtain ⟨goes, control⟩ := kept (by simp [name])
    rw [if_neg goes, if_pos control, same, stays]
  | unwatch gated name =>
    rw [passed] at gated
    cases gated
    obtain ⟨goes, control⟩ := kept (by simp [name])
    rw [if_neg goes, if_pos control, CommandContext.unwatch]
    split
    · rename_i tx found
      have known : ctx.txGet fd = tx := by rw [txGet, found, Option.getD_some]
      rw [known] at begun ⊢
      rw [replied, script_of_tx (tx_setTx ctx fd _ connected), if_pos begun]
    · rw [replied, stays]
  | queued gated table _ =>
    rw [passed] at gated
    cases gated
    have goes : ¬ (cmd = ascii "EXEC" ∨ cmd = ascii "DISCARD") := by
      rintro (rfl | rfl)
      · exact table (by decide)
      · exact table (by decide)
    rw [if_neg goes, if_neg table, queueCommand, replied,
      script_of_tx (tx_setTx ctx fd _ connected), if_pos begun]
  | executed gated _ outside _ =>
    rw [passed] at gated
    cases gated
    rw [inside] at outside
    cases outside

end Steps

theorem handle_script (fd : Fd) (insulated : ctx.Insulated)
    (handled : ctx.handle event = .ok (next, output)) :
    next.script fd = scriptStep ctx.connPool.isSome fd (ctx.script fd) (event, output) := by
  cases event with
  | connect other =>
    cases handled
    exact script_tx_ite (tx_addConnection ctx other fd)
  | disconnect other =>
    cases handled
    exact script_tx_ite (tx_dropConnection ctx other fd)
  | timeouts now status =>
    cases handled
    rfl
  | request request =>
    obtain ⟨observation, served, rfl⟩ := handle_request handled
    obtain ⟨outcome, -, serves, rfl, rfl⟩ := serve_ok served
    unfold scriptStep
    dsimp only
    rw [script_congr (logCommand_tx outcome.ctx request.name request.raw fd)]
    by_cases own : request.fd = fd
    · rw [if_neg (not_not_intro own)]
      subst own
      cases inside : ctx.txInMulti request.fd with
      | false =>
        rw [serves.script_outside insulated.tidy inside]
        simp [script, inside]
      | true =>
        rw [serves.script_inside insulated inside]
        simp [script, inside]
    · rw [if_pos own, script_congr (serves.tx_other (Ne.symm own))]

theorem handle_pooled (handled : ctx.handle event = .ok (next, output)) :
    next.connPool.isSome = ctx.connPool.isSome := by
  cases event with
  | connect other | disconnect other =>
    cases handled
    exact Option.isSome_map
  | timeouts now status =>
    cases handled
    rfl
  | request request =>
    obtain ⟨outcome, aof, serves, rfl⟩ := handle_served handled
    exact ((SameConnections.session _).serves serves).1

theorem run_script {last : CommandContext} {events : List Event}
    {observations : List (Option Observation)} (idle : ∀ fd, ctx.tx fd = none)
    (ran : Run.run handle ctx events = .ok (last, observations)) (fd : Fd) :
    last.Insulated ∧ last.script fd = scriptOf ctx.connPool.isSome fd events observations := by
  have start : ctx.script fd = none := by
    rw [script, txInMulti, idle fd]
    rfl
  have followed := @Run.run_simulates _ _ _ _ handle _ (scriptStep ctx.connPool.isSome fd)
    (fun known state => state.Insulated ∧ state.connPool.isSome = ctx.connPool.isSome ∧
      state.script fd = known) ?_ none _ _ _ _ ⟨insulated_of_none idle, rfl, start⟩ ran
  · exact ⟨followed.1, followed.2.2⟩
  · rintro known state event next output ⟨insulated, pooled, rfl⟩ handled
    refine ⟨insulated.handle handled, (handle_pooled handled).trans pooled, ?_⟩
    rw [handle_script fd insulated handled, pooled]

def OnlyAnswers (ctx : CommandContext) (request : Request) (reply : Bytes)
    (next : CommandContext) : Prop :=
  ∃ observation, ctx.serve request = .ok (next, observation) ∧
    observation.effect.reply = reply ∧ observation.effect.sends = [] ∧ ctx.Untouched next

/-- EXEC has run the queue, every command once, in order and under the name it was
queued with, and has put their replies into one array. -/
structure Committed (ctx : CommandContext) (request : Request) (queue : List (List Bytes))
    (next : CommandContext) (observation : Observation) : Prop where
  traced : Traced ctx.toHandlerState request.fd (queue.map fun args => (args, args.headD []))
    next.toHandlerState observation.effect.sends
  replies : ∃ replies, replies = (ctx.executions request).map Execution.queuedReply ∧
    replies.length = queue.length ∧ observation.effect.reply = encodeRawArray replies
  value : (∀ args ∈ queue, lineSafe (args.headD []) = true) →
    isValues 1 observation.effect.reply = true
  ended : next.tx request.fd = none

structure Inside (ctx : CommandContext) (request : Request) (queue : List (List Bytes)) :
    Prop where
  queued : request.name ∉ controlCommands → ∃ next, ctx.OnlyAnswers request respQueued next
  discarded : request.name = ascii "DISCARD" →
    ∃ next, ctx.OnlyAnswers request respOk next ∧ next.tx request.fd = none
  aborted : request.name = ascii "EXEC" → isDirty ctx.store (ctx.txGet request.fd) = true →
    ∃ next, ctx.OnlyAnswers request encodeNullArray next ∧ next.tx request.fd = none
  committed : request.name = ascii "EXEC" → isDirty ctx.store (ctx.txGet request.fd) = false →
    ∀ next observation, ctx.serve request = .ok (next, observation) →
      ctx.Committed request queue next observation
  returns : request.name = ascii "EXEC" → (∀ args ∈ queue, Complete args) →
    ∃ next observation, ctx.serve request = .ok (next, observation)

def Outside (ctx : CommandContext) (request : Request) : Prop :=
  request.name = ascii "EXEC" ∨ request.name = ascii "DISCARD" →
    ∀ next observation, ctx.serve request = .ok (next, observation) →
      ∃ text, ctx.OnlyAnswers request (encodeError text) next ∧
        next.tx request.fd = ctx.tx request.fd

theorem execQueued_replies {queue : List (List Bytes)} {replies : List Bytes}
    {sends : List (Fd × Bytes)}
    (done : execQueued fd true queue ctx = .ok (after, replies, sends)) :
    replies = (ctx.toHandlerState.executions fd
      (queue.map fun args => (args, args.headD []))).map Execution.queuedReply := by
  induction queue generalizing ctx replies sends with
  | nil =>
    cases done
    rfl
  | cons args queue ih =>
    obtain ⟨cmd, rest, rfl, outcome, final, later, others, executed, more, same⟩ :=
      execQueued_cons done
    cases same
    obtain ⟨handled, runs, state, -, result, reply, -⟩ := execute_ok executed
    rw [ih more, List.map_cons, List.headD_cons, HandlerState.executions, runs, state, result,
      reply]
    rfl

theorem logCommand_untouched (same : after.toHandlerState = ctx.toHandlerState) (cmd raw : Bytes) :
    ctx.Untouched (after.logCommand cmd raw) := by
  rw [Untouched, logCommand_eq, ← same]
  exact ⟨_, rfl⟩

section Requests

variable {ctx next : CommandContext} {request : Request} {observation : Observation}

theorem onlyAnswers_of_process (named : request.args ≠ [])
    (done : ctx.processSingleCommand request.fd true request.args request.name =
      .ok (after.replied reply)) (same : after.toHandlerState = ctx.toHandlerState) :
    ctx.OnlyAnswers request reply (after.logCommand request.name request.raw) :=
  ⟨_, serve_of_process named done, rfl, rfl, logCommand_untouched same _ _⟩

theorem Insulated.process (insulated : ctx.Insulated) (inside : ctx.txInMulti request.fd = true)
    (named : request.args ≠ []) :
    ctx.processSingleCommand request.fd true request.args request.name =
      ctx.processAdmitted request.fd true request.args request.name :=
  process_of_gate named (insulated.gate inside request.name)

theorem processAdmitted_exec (name : request.name = ascii "EXEC") :
    ctx.processAdmitted request.fd true request.args request.name = ctx.exec request.fd true := by
  rw [processAdmitted, if_neg (by rw [name]; decide), if_pos name]

theorem Insulated.committed (insulated : ctx.Insulated)
    (inside : ctx.txInMulti request.fd = true) (named : request.args ≠ [])
    (name : request.name = ascii "EXEC") (clean : isDirty ctx.store (ctx.txGet request.fd) = false)
    (served : ctx.serve request = .ok (next, observation)) :
    ctx.Committed request (ctx.txGet request.fd).queuedCommands next observation := by
  have commands := commandsOf_exec (insulated.gate inside request.name) name
  rw [if_pos ⟨inside, clean⟩] at commands
  obtain ⟨outcome, processed, serves, rfl, rfl⟩ := serve_ok served
  rw [insulated.process inside named, processAdmitted_exec name, exec, inside, clean,
    if_neg (by decide), if_neg (by decide)] at processed
  split at processed
  · cases processed
  rename_i final replies sends ran
  cases processed
  rw [name, logCommand, if_neg (by decide)]
  constructor
  · rw [clearTx_toHandlerState]
    exact execQueued_traced ran
  · refine ⟨replies, ?_, execQueued_length ran, rfl⟩
    rw [executions, commands]
    exact execQueued_replies ran
  · intro safe
    exact (proper_encodeRawArray (execQueued_values ran safe)).value.isValues
  · exact tx_clearTx final request.fd

theorem Insulated.exec_returns (insulated : ctx.Insulated)
    (inside : ctx.txInMulti request.fd = true) (named : request.args ≠ [])
    (name : request.name = ascii "EXEC")
    (complete : ∀ args ∈ (ctx.txGet request.fd).queuedCommands, Complete args) :
    ∃ next observation, ctx.serve request = .ok (next, observation) := by
  have processed : ∃ outcome, ctx.exec request.fd true = .ok outcome := by
    rw [exec, inside, if_neg (by decide)]
    split
    · exact ⟨_, rfl⟩
    split
    · rename_i fault failed
      exact absurd ((execQueued_returns complete) fault failed).1 (by decide)
    · exact ⟨_, rfl⟩
  obtain ⟨outcome, done⟩ := processed
  rw [← processAdmitted_exec name, ← insulated.process inside named] at done
  exact ⟨_, _, serve_of_process named done⟩

theorem Insulated.inside (insulated : ctx.Insulated) (inside : ctx.txInMulti request.fd = true)
    (named : request.args ≠ []) : ctx.Inside request (ctx.txGet request.fd).queuedCommands := by
  have process := insulated.process inside named
  constructor
  · intro table
    simp only [controlCommands, List.mem_cons, List.not_mem_nil, or_false, not_or] at table
    obtain ⟨multi, exec, discard, watch, unwatch⟩ := table
    rw [processAdmitted, if_neg multi, if_neg exec, if_neg discard, if_neg watch, if_neg unwatch,
      if_pos inside] at process
    exact ⟨_, onlyAnswers_of_process named process (setTx_toHandlerState _ _ _)⟩
  · intro name
    rw [processAdmitted, if_neg (by rw [name]; decide), if_neg (by rw [name]; decide),
      if_pos name, discard, inside, if_neg (by decide)] at process
    refine ⟨_, onlyAnswers_of_process named process (clearTx_toHandlerState _ _), ?_⟩
    rw [logCommand_tx, tx_clearTx]
  · intro name dirty
    rw [processAdmitted_exec name, exec, inside, dirty, if_neg (by decide), if_pos rfl] at process
    refine ⟨_, onlyAnswers_of_process named process (clearTx_toHandlerState _ _), ?_⟩
    rw [logCommand_tx, tx_clearTx]
  · intro name clean next observation served
    exact insulated.committed inside named name clean served
  · intro name complete
    exact insulated.exec_returns inside named name complete

theorem outside_of_not_inMulti (outside : ctx.txInMulti request.fd = false) :
    ctx.Outside request := by
  intro name next observation served
  obtain ⟨raw, words, args⟩ := args_of_serve served
  obtain ⟨outcome, processed, serves, rfl, -⟩ := serve_ok served
  have control : request.name ∈ controlCommands := by
    rcases name with name | name <;> simp [name, controlCommands]
  have refused : ∃ (after : CommandContext) (text : Bytes),
      outcome = after.replied (encodeError text) ∧ after.toHandlerState = ctx.toHandlerState ∧
        after.tx request.fd = ctx.tx request.fd := by
    cases serves with
    | rejected refused =>
      rcases gate_rejected refused with rfl | rfl
      · exact ⟨ctx, _, rfl, rfl, rfl⟩
      · exact ⟨ctx, _, rfl, rfl, rfl⟩
    | exec passed _ done =>
      rw [CommandContext.exec, gate_txInMulti passed, outside, if_pos rfl]
        at done
      cases done
      exact ⟨_, _, rfl, gate_toHandlerState passed, gate_tx passed _⟩
    | discard passed _ =>
      rw [CommandContext.discard, gate_txInMulti passed, outside, if_pos rfl]
      exact ⟨_, _, rfl, gate_toHandlerState passed, gate_tx passed _⟩
    | multi _ other | watch _ other | unwatch _ other =>
      rw [other] at name
      exact absurd name (by decide)
    | queued _ table | executed _ table => exact absurd control table
  obtain ⟨after, text, rfl, same, tx⟩ := refused
  refine ⟨text, onlyAnswers_of_process (by simp [args]) processed same, ?_⟩
  rw [logCommand_tx]
  exact tx

end Requests

/-- Whatever the connections send and in whatever order: the code keeps for each client
the script that the client can tell from its own commands and replies. While it is in
its transaction its commands are queued and do nothing else, DISCARD and an EXEC that
finds a watched key changed only end it, and every other EXEC runs all of the script. -/
theorem transactions_are_isolated {ctx state : CommandContext} {events : List Event}
    {observations : List (Option Observation)} {request : Request}
    (idle : ∀ fd, ctx.tx fd = none)
    (ran : Run.run handle ctx events = .ok (state, observations)) (named : request.args ≠ []) :
    state.script request.fd =
        scriptOf ctx.connPool.isSome request.fd events observations ∧
      (∀ queue, scriptOf ctx.connPool.isSome request.fd events observations = some queue →
        state.Inside request queue) ∧
      (scriptOf ctx.connPool.isSome request.fd events observations = none →
        state.Outside request) := by
  obtain ⟨insulated, followed⟩ := run_script idle ran request.fd
  refine ⟨followed, ?_, ?_⟩
  · rw [← followed]
    intro queue held
    unfold script at held
    split at held
    · rename_i inside
      cases held
      exact insulated.inside inside named
    · cases held
  · rw [← followed]
    intro absent
    unfold script at absent
    split at absent
    · cases absent
    · rename_i outside
      exact outside_of_not_inMulti (by simpa using outside)

def twoTransactions : List Event :=
  [.words 5 ["MULTI"], .words 6 ["MULTI"], .words 5 ["SET", "k", "1"], .words 6 ["GET", "k"],
    .words 5 ["GET", "k"]]

theorem interleaved_transactions :
    ∃ run, Run.run handle (twoClients 0) twoTransactions = .ok run ∧
      ∃ next observation, run.1.serve (.ofArgs 5 [ascii "EXEC"]) = .ok (next, observation) ∧
        run.1.Committed (.ofArgs 5 [ascii "EXEC"])
          [[ascii "SET", ascii "k", ascii "1"], [ascii "GET", ascii "k"]] next observation := by
  refine Run.of_checked (fun run => scriptOf true 5 twoTransactions run.2 =
      some [[ascii "SET", ascii "k", ascii "1"], [ascii "GET", ascii "k"]] ∧
    isDirty run.1.store (run.1.txGet 5) = false) (by decide +kernel) ?_
  rintro ⟨state, seen⟩ ran ⟨script, clean⟩
  have inside := (@transactions_are_isolated _ _ _ _ (.ofArgs 5 [ascii "EXEC"])
    (twoClients_tx 0) ran (by decide)).2.1 _ script
  obtain ⟨next, observation, served⟩ := inside.returns (by decide) (by decide)
  exact ⟨next, observation, served, inside.committed (by decide) clean _ _ served⟩

/-- Outside of a transaction EXEC and DISCARD leave the watched keys watched. Inside, a
name in lower case is unknown to EXEC, a name with a line end breaks the array, and a
score without a member is read behind the arguments. -/
theorem transactions_not_isolated :
    (∃ run, Run.run handle (twoClients 0) [.words 5 ["WATCH", "k"], .words 5 ["EXEC"]] = .ok run ∧
      (run.1.txGet 5).watchedKeys.keys = [ascii "k"]) ∧
    (∃ run, Run.run handle (twoClients 0)
        [.words 5 ["WATCH", "k"], .words 5 ["DISCARD"]] = .ok run ∧
      (run.1.txGet 5).watchedKeys.keys = [ascii "k"]) ∧
    (∃ run, Run.run handle (twoClients 0)
        [.words 5 ["MULTI"], .words 5 ["set", "k", "1"], .words 5 ["EXEC"]] = .ok run ∧
      (run.1.store.contents (ascii "k")).isNone ∧
      (run.2.map fun output => output.map fun seen => seen.effect.reply) =
        [some respOk, some respQueued, some (encodeRawArray [unknownReply (ascii "set")])]) ∧
    (∃ run, Run.run handle (twoClients 0)
        [.words 5 ["MULTI"], .words 5 ["NO\r\n+OK"], .words 5 ["EXEC"]] = .ok run ∧
      (run.2.map fun output => output.all fun seen => isValues 1 seen.effect.reply) =
        [true, true, false]) ∧
    ¬ Run.Succeeds (Run.run handle (twoClients 0)
      [.words 5 ["MULTI"], .words 5 ["ZADD", "z", "1", "m", "2"], .words 5 ["EXEC"]])
        fun _ => True :=
  ⟨Run.Succeeds.ok (by decide +kernel), Run.Succeeds.ok (by decide +kernel),
    Run.Succeeds.ok (by decide +kernel), Run.Succeeds.ok (by decide +kernel), by decide +kernel⟩

end CommandContext

end Credis
