import Credis.TransactionChecks

/-! A request as the commands it executes: itself, the queue of its transaction, or
nothing. Whatever holds of every single execution holds along the trace. -/

namespace Credis

open ByteString

variable {ctx next : CommandContext} {output : Option Observation}

structure Execution where
  before : HandlerState
  fd : Fd
  args : List Bytes
  cmd : Bytes
  outcome : Outcome

namespace Execution

variable (execution : Execution)

def after : HandlerState := execution.outcome.state

def now : Instant := execution.before.clock execution.before.ticks

def key : Key := execution.args.getD 1 []

def Runs : Prop :=
  executeCommand execution.before execution.fd true execution.args execution.cmd =
    .ok execution.outcome

/-- The handler of the command has been called on the state, with the clock one
reading further if it reads it. -/
def Calls (command : Command) : Prop :=
  command.handler (if command.readsClock then execution.before.tick else execution.before)
    (execution.before.clock execution.before.ticks) (execution.before.forks execution.before.ticks)
    execution.fd true execution.args = .ok execution.outcome

theorem Runs.named {execution : Execution} (runs : execution.Runs) {command : Command}
    (name : execution.cmd = command.name) :
    (execution.args.length < command.minArgs ∧
      execution.outcome = execution.before.replied (arityReply execution.cmd)) ∨
    (command.minArgs ≤ execution.args.length ∧ execution.Calls command) := by
  unfold Runs executeCommand at runs
  rw [name, command.lookup_name_self] at runs
  dsimp only at runs
  split at runs
  · rename_i short
    rw [name]
    exact .inl ⟨short, (Except.ok.inj runs).symm⟩
  · rename_i enough
    exact .inr ⟨by omega, runs⟩

theorem Runs.calls {execution : Execution} (runs : execution.Runs) {command : Command}
    (name : execution.cmd = command.name) (blocked : execution.outcome.result = .block) :
    execution.Calls command := by
  rcases runs.named name with ⟨-, replied⟩ | ⟨-, called⟩
  · rw [replied] at blocked
    cases blocked
  · exact called

theorem Runs.cases {execution : Execution} (runs : execution.Runs) :
    (∃ reply, execution.outcome = execution.before.replied reply) ∨
      ∃ command, execution.cmd = command.name ∧ command.minArgs ≤ execution.args.length ∧
        execution.Calls command := by
  cases found : Command.lookup execution.cmd with
  | none =>
    unfold Runs executeCommand at runs
    rw [found] at runs
    exact .inl ⟨_, (Except.ok.inj runs).symm⟩
  | some command =>
    have name := lookup_name found
    rcases runs.named name with ⟨-, replied⟩ | called
    · exact .inl ⟨_, replied⟩
    · exact .inr ⟨command, name, called⟩

end Execution

def HandlerState.executions (fd : Fd) : List (List Bytes × Bytes) → HandlerState → List Execution
  | [], _ => []
  | (args, cmd) :: rest, state =>
    match executeCommand state fd true args cmd with
    | .error _ => []
    | .ok outcome => ⟨state, fd, args, cmd, outcome⟩ :: executions fd rest outcome.state

inductive Trace : HandlerState → List Execution → HandlerState → Prop
  | nil {state : HandlerState} : Trace state [] state
  | cons {execution : Execution} {rest : List Execution} {last : HandlerState} :
      execution.Runs → Trace execution.after rest last →
      Trace execution.before (execution :: rest) last

theorem HandlerState.executions_trace (fd : Fd) (commands : List (List Bytes × Bytes))
    (state : HandlerState) : ∃ last, Trace state (state.executions fd commands) last := by
  induction commands generalizing state with
  | nil => exact ⟨state, .nil⟩
  | cons command commands ih =>
    obtain ⟨args, cmd⟩ := command
    unfold executions
    split
    · exact ⟨state, .nil⟩
    · rename_i outcome runs
      obtain ⟨last, later⟩ := ih outcome.state
      exact ⟨last, @Trace.cons ⟨state, fd, args, cmd, outcome⟩ _ _ runs later⟩

theorem Trace.invariant {holds : HandlerState → Prop} {first last : HandlerState}
    {executions : List Execution} (trace : Trace first executions last)
    (kept : ∀ execution ∈ executions, execution.Runs → holds execution.before →
      holds execution.after) (start : holds first) :
    holds last ∧ ∀ execution ∈ executions, holds execution.before ∧ execution.Runs := by
  induction trace with
  | nil => exact ⟨start, fun _ member => (List.not_mem_nil member).elim⟩
  | cons runs _ ih =>
    obtain ⟨final, later⟩ := ih (fun other member => kept other (by simp [member]))
      (kept _ (by simp) runs start)
    refine ⟨final, fun execution member => ?_⟩
    rcases List.mem_cons.mp member with rfl | member
    · exact ⟨start, runs⟩
    · exact later execution member

variable {holds : List Execution → HandlerState → Prop}
  {condition : List Execution → Execution → Prop}
  (kept : ∀ past execution, execution.Runs → holds past execution.before →
    condition past execution → holds (past ++ [execution]) execution.after)

include kept in
theorem Trace.inOrder {first last : HandlerState} {executions past : List Execution}
    (trace : Trace first executions last) (start : holds past first)
    (meets : Run.InOrder condition past executions) :
    holds (past ++ executions) last ∧
      Run.InOrder (fun past execution => holds past execution.before ∧ execution.Runs) past
        executions := by
  induction trace generalizing past with
  | nil => exact ⟨by rwa [List.append_nil], trivial⟩
  | cons runs _ ih =>
    obtain ⟨final, later⟩ := ih (kept past _ runs start meets.1) meets.2
    rw [List.append_assoc, List.singleton_append] at final
    exact ⟨final, ⟨start, runs⟩, later⟩

/-- What can happen between two commands: connections come and go, waits run out. -/
structure HandlerState.Between (before after : HandlerState) : Prop where
  store : after.store = before.store
  clock : after.clock = before.clock
  waiting : after.blockingManager = before.blockingManager ∨
    (∃ fd, after.blockingManager =
      before.blockingManager.map fun manager => manager.unblockClient fd) ∨
    ∃ now, after.blockingManager =
      before.blockingManager.map fun manager => (manager.getExpiredClients now).1

namespace CommandContext

def commandsOf (ctx : CommandContext) (request : Request) : List (List Bytes × Bytes) :=
  match ctx.gate request.fd request.name with
  | .ok (.admitted _) =>
    if request.name = ascii "EXEC" then
      if ctx.txInMulti request.fd = true ∧ isDirty ctx.store (ctx.txGet request.fd) = false then
        (ctx.txGet request.fd).queuedCommands.map fun args => (args, args.headD [])
      else []
    else if request.name ∈ controlCommands ∨ ctx.txInMulti request.fd = true then []
    else [(request.args, request.name)]
  | _ => []

def executions (ctx : CommandContext) (request : Request) : List Execution :=
  ctx.toHandlerState.executions request.fd (ctx.commandsOf request)

structure Traced (state : HandlerState) (fd : Fd) (commands : List (List Bytes × Bytes))
    (last : HandlerState) (sends : List (Fd × Bytes)) : Prop where
  trace : Trace state (state.executions fd commands) last
  complete : (state.executions fd commands).map (fun execution =>
    (execution.args, execution.cmd)) = commands
  sends : sends = (state.executions fd commands).flatMap fun execution => execution.outcome.sends

theorem Traced.nil (state : HandlerState) (fd : Fd) : Traced state fd [] state [] :=
  ⟨.nil, rfl, rfl⟩

theorem Traced.cons {state last : HandlerState} {fd : Fd} {args : List Bytes} {cmd : Bytes}
    {rest : List (List Bytes × Bytes)} {outcome : Outcome} {sends : List (Fd × Bytes)}
    (runs : executeCommand state fd true args cmd = .ok outcome)
    (later : Traced outcome.state fd rest last sends) :
    Traced state fd ((args, cmd) :: rest) last (outcome.sends ++ sends) := by
  have parts : state.executions fd ((args, cmd) :: rest) =
      ⟨state, fd, args, cmd, outcome⟩ :: outcome.state.executions fd rest := by
    rw [HandlerState.executions, runs]
  constructor
  · rw [parts]
    exact @Trace.cons ⟨state, fd, args, cmd, outcome⟩ _ _ runs later.trace
  · rw [parts, List.map_cons, later.complete]
  · rw [parts, List.flatMap_cons, later.sends]

theorem execQueued_traced {fd : Fd} {queue : List (List Bytes)} {after : CommandContext}
    {replies : List Bytes} {sends : List (Fd × Bytes)}
    (done : execQueued fd true queue ctx = .ok (after, replies, sends)) :
    Traced ctx.toHandlerState fd (queue.map fun args => (args, args.headD []))
      after.toHandlerState sends := by
  induction queue generalizing ctx replies sends with
  | nil =>
    cases done
    exact .nil _ _
  | cons args queue ih =>
    obtain ⟨cmd, rest, rfl, outcome, final, later, others, executed, more, same⟩ :=
      execQueued_cons done
    cases same
    obtain ⟨handled, runs, state, -, -, -, sent⟩ := execute_ok executed
    have following := ih more
    rw [state] at following
    rw [sent]
    exact .cons runs following

section Requests

variable {ctx admitted : CommandContext} {request : Request} {outcome : CommandOutcome}

theorem commandsOf_sessionOnly (alone : ctx.SessionOnly request.fd request.name outcome) :
    ctx.commandsOf request = [] := by
  unfold commandsOf
  cases alone with
  | rejected refused => rw [refused]
  | settled passed silent aborted _ =>
    rw [passed]
    dsimp only
    by_cases name : request.name = ascii "EXEC"
    · rw [if_pos name, if_neg fun both => by simp [aborted name both.1] at both]
    · rw [if_neg name, if_pos silent]

theorem commandsOf_direct (passed : ctx.gate request.fd request.name = .ok (.admitted admitted))
    (table : request.name ∉ controlCommands) (outside : ctx.txInMulti request.fd = false) :
    ctx.commandsOf request = [(request.args, request.name)] := by
  have other : request.name ≠ ascii "EXEC" := fun name => table (by simp [name, controlCommands])
  rw [commandsOf, passed]
  dsimp only
  rw [if_neg other, if_neg (by simp [table, outside])]

theorem commandsOf_exec (passed : ctx.gate request.fd request.name = .ok (.admitted admitted))
    (name : request.name = ascii "EXEC") :
    ctx.commandsOf request =
      if ctx.txInMulti request.fd = true ∧ isDirty ctx.store (ctx.txGet request.fd) = false then
        (ctx.txGet request.fd).queuedCommands.map fun args => (args, args.headD [])
      else [] := by
  rw [commandsOf, passed]
  dsimp only
  rw [if_pos name]

theorem Serves.traced
    (serves : Serves ctx request.fd true request.args request.name outcome) :
    Traced ctx.toHandlerState request.fd (ctx.commandsOf request) outcome.ctx.toHandlerState
      outcome.sends := by
  rcases serves.state_cases with alone |
    ⟨admitted, final, _, _, passed, name, inside, clean, ran, rfl⟩ |
    ⟨admitted, passed, table, outside, done⟩
  · rw [commandsOf_sessionOnly alone, alone.state.1, alone.state.2]
    exact .nil _ _
  · rw [commandsOf_exec passed name, if_pos ⟨inside, clean⟩, clearTx_toHandlerState,
      ← gate_toHandlerState passed]
    exact execQueued_traced ran
  · obtain ⟨handled, runs, state, -, -, -, sent⟩ := execute_ok done
    rw [gate_toHandlerState passed] at runs
    rw [commandsOf_direct passed table outside, state, sent, ← List.append_nil handled.sends]
    exact .cons runs (.nil _ _)

end Requests

def executionsOf (ctx : CommandContext) : Event → List Execution
  | .request request => ctx.executions request
  | _ => []

def history (ctx : CommandContext) : List Event → List Execution
  | [] => []
  | event :: events =>
    ctx.executionsOf event ++
      match ctx.handle event with
      | .error _ => []
      | .ok (next, _) => next.history events

theorem handle_request_traced {request : Request}
    (handled : ctx.handle (.request request) = .ok (next, output)) :
    ∃ last observation, output = some observation ∧
      Traced ctx.toHandlerState request.fd (ctx.commandsOf request) last
        observation.effect.sends ∧
      ∃ aof, next.toHandlerState = { last with aofManager := aof } := by
  obtain ⟨observation, served, rfl⟩ := handle_request handled
  obtain ⟨outcome, -, serves, rfl, rfl⟩ := serve_ok served
  refine ⟨_, _, rfl, serves.traced, ?_⟩
  unfold logCommand
  split
  · exact ⟨_, rfl⟩
  · exact ⟨_, rfl⟩

theorem handle_traced {event : Event} (handled : ctx.handle event = .ok (next, output)) :
    ∃ last, Trace ctx.toHandlerState (ctx.executionsOf event) last ∧
      last.Between next.toHandlerState := by
  cases event with
  | connect fd =>
    cases handled
    exact ⟨_, .nil, rfl, rfl, .inl rfl⟩
  | disconnect fd =>
    cases handled
    exact ⟨_, .nil, rfl, rfl, .inr (.inl ⟨fd, rfl⟩)⟩
  | timeouts now status =>
    cases handled
    exact ⟨_, .nil, rfl, rfl, .inr (.inr ⟨now, rfl⟩)⟩
  | request request =>
    obtain ⟨last, _, -, traced, aof, state⟩ := handle_request_traced handled
    refine ⟨last, traced.trace, ?_⟩
    rw [state]
    exact ⟨rfl, rfl, .inl rfl⟩

include kept in
theorem history_inOrder
    (between : ∀ past before after, HandlerState.Between before after → holds past before →
      holds past after)
    {ctx last : CommandContext} {events : List Event} {observations : List (Option Observation)}
    {past : List Execution} (ran : Run.run handle ctx events = .ok (last, observations))
    (start : holds past ctx.toHandlerState)
    (meets : Run.InOrder condition past (ctx.history events)) :
    holds (past ++ ctx.history events) last.toHandlerState ∧
      Run.InOrder (fun past execution => holds past execution.before ∧ execution.Runs) past
        (ctx.history events) := by
  induction events generalizing ctx observations past with
  | nil =>
    cases ran
    exact ⟨by rwa [history, List.append_nil], trivial⟩
  | cons event events ih =>
    obtain ⟨next, output, later, handled, rest, -⟩ := Run.run_cons ran
    obtain ⟨middle, trace, pause⟩ := handle_traced handled
    have parts : ctx.history (event :: events) =
        ctx.executionsOf event ++ next.history events := by
      rw [history, handled]
    rw [parts, Run.inOrder_append] at meets
    obtain ⟨here, early⟩ := trace.inOrder kept start meets.1
    obtain ⟨final, late⟩ := ih rest (between _ _ _ pause here) meets.2
    rw [parts, Run.inOrder_append, ← List.append_assoc]
    exact ⟨final, early, late⟩

theorem history_invariant
    (kept : ∀ past execution, execution.Runs → holds past execution.before →
      holds (past ++ [execution]) execution.after)
    (between : ∀ past before after, HandlerState.Between before after → holds past before →
      holds past after)
    {ctx last : CommandContext} {events : List Event} {observations : List (Option Observation)}
    (ran : Run.run handle ctx events = .ok (last, observations))
    (start : holds [] ctx.toHandlerState) :
    holds (ctx.history events) last.toHandlerState ∧
      Run.InOrder (fun past execution => holds past execution.before ∧ execution.Runs) []
        (ctx.history events) :=
  history_inOrder (fun past execution runs before _ => kept past execution runs before) between
    ran start (@Run.inOrder_forall _ _ _ (fun _ => True) |>.mpr fun _ _ => trivial)

include kept in
theorem requests_inOrder
    (logged : ∀ past (state : HandlerState) aof, holds past state →
      holds past { state with aofManager := aof })
    {ctx : CommandContext} {requests : List Request} {past : List Execution}
    (start : holds past ctx.toHandlerState)
    (meets : Run.InOrder condition past (ctx.history (requests.map .request))) :
    Run.InOrder (fun past execution => holds past execution.before ∧ execution.Runs) past
      (ctx.history (requests.map .request)) := by
  induction requests generalizing ctx past with
  | nil => trivial
  | cons request requests ih =>
    rw [List.map_cons] at meets ⊢
    cases handled : ctx.handle (.request request) with
    | error fault =>
      have parts : ctx.history (.request request :: requests.map .request) =
          ctx.executions request := by
        rw [history, handled, List.append_nil, executionsOf]
      rw [parts] at meets ⊢
      obtain ⟨last, trace⟩ := HandlerState.executions_trace request.fd
        (ctx.commandsOf request) ctx.toHandlerState
      exact (trace.inOrder kept start meets).2
    | ok result =>
      obtain ⟨next, output⟩ := result
      have parts : ctx.history (.request request :: requests.map .request) =
          ctx.executions request ++ next.history (requests.map .request) := by
        rw [history, handled, executionsOf]
      obtain ⟨last, _, -, traced, aof, state⟩ := handle_request_traced handled
      rw [parts, Run.inOrder_append] at meets ⊢
      obtain ⟨here, early⟩ := traced.trace.inOrder kept start meets.1
      refine ⟨early, ih ?_ meets.2⟩
      rw [state]
      exact logged _ last aof here

end CommandContext

end Credis
