import Credis.EndingChecks
import Credis.FlushChecks
import Credis.ReadChecks

/-! What a turn of the event loop leaves in the input buffers. A call of
`process_with_fd` that a command ends early leaves the commands behind it, and nothing
but more input of the same client looks at them again. -/

namespace Credis

open ByteString ConnectionPool

variable {fd : Fd} {data incoming : Bytes}

variable {pool : ConnectionPool} {outcome : CommandContext.CallOutcome} {now : Time} {fuel : Nat}
  {ready : Readiness} {ctx : CommandContext} {input : Bytes}

def HasCommand (input : Bytes) : Prop := (parseOneInto input).isOk = true

instance (input : Bytes) : Decidable (HasCommand input) := inferInstanceAs (Decidable (_ = _))

theorem not_hasCommand_of_error {failure : Error} (read : parseOneInto input = .error failure) :
    ¬ HasCommand input := by
  rw [HasCommand, read]
  simp [Except.isOk, Except.toBool]

theorem not_hasCommand_nil : ¬ HasCommand [] := by decide

namespace CommandContext

/-- The request is going to end the call: it is executed at once, by a command that does. -/
def willEnd (ctx : CommandContext) (request : Request) : Bool :=
  ctx.passes request && !controlCommands.contains request.name && !ctx.txInMulti request.fd &&
    ctx.toHandlerState.willEnd request.name request.args

theorem serve_normal_iff {next : CommandContext} {request : Request} {observation : Observation}
    (served : ctx.serve request = .ok (next, observation)) :
    observation.state = .normal ↔ ctx.willEnd request = false := by
  obtain ⟨outcome, -, serves, -, rfl⟩ := serve_ok served
  rcases serves.state_cases with idle | ⟨_, _, _, _, -, name, -, -, -, rfl⟩ |
    ⟨admitted, passed, table, outside, done⟩
  · cases idle with
    | rejected refused => exact iff_of_true rfl (by simp [willEnd, passes, refused])
    | settled _ silent _ settles =>
      refine iff_of_true ?_ ?_
      · cases settles <;> rfl
      · rcases silent with control | inside
        · simp [willEnd, control]
        · simp [willEnd, inside]
  · exact iff_of_true rfl (by simp [willEnd, name, controlCommands])
  · obtain ⟨handled, ran, -, -, same, -, -⟩ := execute_ok done
    rw [gate_toHandlerState passed] at ran
    have runs : Execution.Runs ⟨ctx.toHandlerState, request.fd, request.args, request.name,
      handled⟩ := ran
    have told : ctx.willEnd request = ctx.toHandlerState.willEnd request.name request.args := by
      simp [willEnd, passes, passed, table, outside]
    rw [told, same]
    exact runs.normal_iff

/-- A command of some input, with the context that it meets and the bytes behind it. -/
structure Met where
  ctx : CommandContext
  request : Request
  behind : Bytes

def commandsIn (fd : Fd) : Nat → CommandContext → Bytes → List Met
  | 0, _, _ => []
  | fuel + 1, ctx, input =>
    match parseOneInto input with
    | .error _ => []
    | .ok (args, length) =>
      match ctx.serve ⟨fd, args, input.take length⟩ with
      | .error _ => []
      | .ok (next, _) =>
        ⟨ctx, ⟨fd, args, input.take length⟩, input.drop length⟩ ::
          commandsIn fd fuel next (input.drop length)

/-- A command that is going to end the call is the last one of the input. -/
def Met.EndsLast (met : Met) : Prop :=
  met.ctx.willEnd met.request = true → ¬ HasCommand met.behind

instance (met : Met) : Decidable met.EndsLast := inferInstanceAs (Decidable (_ → _))

theorem processLoop_rest (enough : input.length ≤ fuel)
    (last : ∀ met ∈ commandsIn fd fuel ctx input, met.EndsLast)
    (done : processLoop fd true fuel ctx input = .ok outcome) :
    ¬ HasCommand (input.drop outcome.consumed) := by
  induction fuel generalizing ctx input outcome with
  | zero =>
    cases List.eq_nil_of_length_eq_zero (Nat.le_zero.mp enough)
    cases done
    exact not_hasCommand_nil
  | succ fuel ih =>
    unfold processLoop at done
    split at done
    · rename_i failed
      cases done
      exact not_hasCommand_of_error failed
    · rename_i args length parsed
      have positive := List.length_pos_iff.mpr (parseCommand_consumes parsed).1
      have moves := (parseCommand_consumes parsed).2
      have met {next : CommandContext} {observation : Observation}
          (served : ctx.serve ⟨fd, args, input.take length⟩ = .ok (next, observation)) :
          commandsIn fd (fuel + 1) ctx input =
            ⟨ctx, ⟨fd, args, input.take length⟩, input.drop length⟩ ::
              commandsIn fd fuel next (input.drop length) := by
        simp only [commandsIn, parsed, served]
      split at done
      · cases done
      · rename_i stepped
        rw [met (@serve_of_step ctx ⟨fd, args, input.take length⟩ _ _ _ stepped)] at last
        split at done
        · cases done
        · rename_i later looped
          cases done
          have rest := ih (by rw [List.length_drop]; omega)
            (fun item member => last item (List.mem_cons_of_mem _ member)) looped
          rwa [List.drop_drop] at rest
      · rename_i stops stepped
        cases done
        have served := @serve_of_step ctx ⟨fd, args, input.take length⟩ _ _ _ stepped
        rw [met served] at last
        refine last _ List.mem_cons_self ?_
        rw [← Bool.not_eq_false, ← serve_normal_iff served]
        exact stops

end CommandContext

theorem ReplicaManager.ackLoop_rest (enough : data.length ≤ fuel) :
    ¬ HasCommand (data.drop (ackLoop fuel data).2) := by
  induction fuel generalizing data with
  | zero =>
    cases List.eq_nil_of_length_eq_zero (Nat.le_zero.mp enough)
    exact not_hasCommand_nil
  | succ fuel ih =>
    cases parsed : parseCommand data with
    | error failure =>
      have failed : parseOne data = .error failure := by rw [parseOne, parsed]; rfl
      simp only [ackLoop, failed, List.drop_zero]
      exact not_hasCommand_of_error parsed
    | ok result =>
      have read : parseOne data = .ok ⟨result.1, result.2⟩ := by rw [parseOne, parsed]; rfl
      have positive := List.length_pos_iff.mpr (parseCommand_consumes parsed).1
      have moves := (parseCommand_consumes parsed).2
      have rest := @ih (data.drop result.2) (by rw [List.length_drop]; omega)
      rw [List.drop_drop] at rest
      simpa only [ackLoop, read] using rest

theorem Connection.handleRead_data {connection after : Connection}
    (read : connection.handleRead incoming = .ok (after, some data)) :
    after.buffer = data ∧ after.readPos = 0 := by
  unfold handleRead at read
  split at read
  · cases read
  rename_i compacted compacting
  have front : compacted.readPos = 0 := by
    unfold compact at compacting
    split at compacting
    · cases compacting
      assumption
    split at compacting
    · cases compacting
    · cases compacting
      rfl
  dsimp only at read
  generalize (if compacted.buffer.length = compacted.capacity ∧
    compacted.capacity < maxBufferSize then compacted.capacity * 2
    else compacted.capacity) = capacity at read
  split at read
  · cases read
  · cases read
    exact ⟨by rw [front]; rfl, front⟩

namespace ConnectionPool

def unread (pool : ConnectionPool) (fd : Fd) : Bytes :=
  ((pool.find fd).map Connection.unread).getD []

theorem unread_eq (pool : ConnectionPool) (fd : Fd) :
    pool.unread fd = ((pool.window fd).map fun view => view.1.drop view.2.2).getD [] := by
  rw [unread, window, Option.map_map]
  rfl

theorem unread_congr {other : ConnectionPool} (same : pool.window fd = other.window fd) :
    pool.unread fd = other.unread fd := by
  rw [unread_eq, unread_eq, same]

theorem unread_add (pool : ConnectionPool) (fd other : Fd) :
    (pool.add fd).unread other = if other = fd then [] else pool.unread other := by
  rw [unread, find_add]
  split <;> rfl

theorem window_flushAll (pool : ConnectionPool) (fd : Fd) :
    pool.flushAll.1.window fd = pool.window fd := by
  refine @foldl_kept _ _ (fun pool => pool.window fd) _ (fun state other => ?_) pool.dirtyFds
    (pool, [])
  unfold flushStep
  split
  · rfl
  · refine window_modify _ _ _ fun connection => ?_
    unfold Connection.flush
    split <;> rfl

theorem unread_readFrom {after : ConnectionPool} {other : Fd} {data : Option Bytes}
    (read : pool.readFrom fd incoming = .ok (after, data)) (different : other ≠ fd) :
    after.unread other = pool.unread other := by
  unfold readFrom at read
  split at read
  · cases read
    rfl
  split at read
  · cases read
  · cases read
    rw [unread, find, AList.lookup_insert_ne different]
    rfl

theorem readFrom_window {after : ConnectionPool}
    (read : pool.readFrom fd incoming = .ok (after, some data)) :
    ∃ capacity, after.window fd = some (data, capacity, 0) := by
  unfold readFrom at read
  split at read
  · cases read
  split at read
  · cases read
  rename_i held given handled
  cases read
  obtain ⟨rfl, front⟩ := Connection.handleRead_data handled
  rw [window, find, AList.lookup_insert, Option.map_some, Connection.window, front]
  exact ⟨_, rfl⟩

end ConnectionPool

namespace ServerState

open CommandContext

def Stranded (server : ServerState) (fd : Fd) : Prop := HasCommand (server.pool.unread fd)

def Idle (server : ServerState) (fd : Fd) : Prop :=
  (∀ manager ∈ server.handler.blockingManager, manager.isBlocked fd = false) ∧
    ∀ wait ∈ server.replicaMgr.waitState, wait.clientFd ≠ fd

instance (server : ServerState) (fd : Fd) : Decidable (server.Stranded fd) :=
  inferInstanceAs (Decidable (HasCommand _))

instance (server : ServerState) (fd : Fd) : Decidable (server.Idle fd) :=
  inferInstanceAs (Decidable (_ ∧ _))

instance (server : ServerState) (fd : Fd) : Decidable (server.IsClient fd) :=
  inferInstanceAs (Decidable ((∀ connector ∈ server.replicaConn, fd ≠ connector.fd) ∧ _))

/-- The whole commands of the data that the turn hands to `process_with_fd`, each with the
context that it meets. -/
def commandsRead (server : ServerState) : Turn → List Met
  | .timeouts _ _ => []
  | .ready _ fd ready =>
    if server.IsClient fd then
      match server.pool.readFrom fd ready.incoming with
      | .ok (pool, some data) =>
        match ({ server with pool := pool } : ServerState).context.fetchOutput fd true with
        | .ok ctx => commandsIn fd data.length ctx data
        | .error _ => []
      | _ => []
    else []

def EndsLast (server : ServerState) (turn : Turn) : Prop :=
  ∀ met ∈ server.commandsRead turn, met.EndsLast

instance (server : ServerState) (turn : Turn) : Decidable (server.EndsLast turn) :=
  inferInstanceAs (Decidable (∀ met ∈ _, _))

section Turns

variable {server after : ServerState} {fd : Fd} {actions : List Action}

def Drains (server after : ServerState) : Prop :=
  ∀ fd, after.pool.unread fd = server.pool.unread fd ∨ ¬ after.Stranded fd

theorem drains_of_remove {data : Option Bytes}
    (read : server.pool.readFrom fd incoming = .ok (pool, data))
    (removed : after.pool = pool.remove fd) : server.Drains after := by
  intro other
  rw [Stranded, removed, unread, find_remove]
  split
  · exact .inr not_hasCommand_nil
  · rename_i different
    exact .inl (unread_readFrom read different)

theorem dispatchInput_unread (read : server.pool.readFrom fd incoming = .ok (pool, some data))
    (called : ({ server with pool := pool } : ServerState).context.processWithFd fd true data =
      .ok outcome) (done : ({ server with pool := pool } : ServerState).dispatchInput now fd data =
      .ok (after, actions)) :
    after.pool.unread fd = data.drop outcome.consumed ∧
      ∀ other, other ≠ fd → after.pool.unread other = server.pool.unread other := by
  have view := dispatchInput_window called done
  obtain ⟨capacity, front⟩ := readFrom_window read
  constructor
  · rw [unread_eq, view fd, if_pos rfl, front]
    simp
  · intro other different
    have same := view other
    rw [if_neg different] at same
    rw [unread_congr same, unread_readFrom read different]

theorem processWithFd_rest (client : server.IsClient fd)
    (read : server.pool.readFrom fd ready.incoming = .ok (pool, some data))
    (called : ({ server with pool := pool } : ServerState).context.processWithFd fd true data =
      .ok outcome) (last : server.EndsLast (.ready now fd ready)) :
    ¬ HasCommand (data.drop outcome.consumed) := by
  unfold processWithFd at called
  split at called
  · cases called
  rename_i opened fetched
  refine processLoop_rest (Nat.le_refl _) (fun met member => last met ?_) called
  simpa only [commandsRead, if_pos client, read, fetched] using member

theorem dispatchInput_drains (client : server.IsClient fd)
    (read : server.pool.readFrom fd ready.incoming = .ok (pool, some data))
    (called : ({ server with pool := pool } : ServerState).context.processWithFd fd true data =
      .ok outcome) (done : ({ server with pool := pool } : ServerState).dispatchInput now fd data =
      .ok (after, actions)) (last : server.EndsLast (.ready now fd ready)) :
    server.Drains after := by
  obtain ⟨own, others⟩ := dispatchInput_unread read called done
  intro other
  by_cases same : other = fd
  · rw [same, Stranded, own]
    exact .inr (processWithFd_rest client read called last)
  · exact .inl (others other same)

theorem processAck_drains {manager : ReplicaManager} {result : AckResult}
    (known : server.replicaMgr.contains fd = true)
    (read : server.pool.readFrom fd incoming = .ok (pool, some data))
    (acked : server.replicaMgr.processAck fd data = (manager, result))
    (performed : after.pool = perform (pool.consume fd result.consumed) actions) :
    server.Drains after := by
  have consumed : result.consumed = (ReplicaManager.ackLoop data.length data).2 := by
    rw [← congrArg (fun acked => acked.2.consumed) acked]
    simp only [ReplicaManager.processAck, known, if_true]
  obtain ⟨capacity, front⟩ := readFrom_window read
  intro other
  have view : after.pool.window other = _ :=
    (congrArg (ConnectionPool.window · other) performed).trans ((window_sendAll _ _ other).trans
      (window_consume pool fd other result.consumed))
  by_cases same : other = fd
  · subst same
    refine .inr ?_
    rw [if_pos rfl, front] at view
    rw [Stranded, unread_eq, view, Option.map_some, Option.map_some,
      Option.getD_some, Nat.zero_add, consumed]
    exact ReplicaManager.ackLoop_rest (Nat.le_refl _)
  · rw [if_neg same] at view
    exact .inl ((unread_congr view).trans
      (unread_readFrom read same))

theorem processAll_unread {commands : List Bytes}
    (done : processAll commands server.context = .ok ctx) (fd : Fd) :
    (server.withContext ctx).pool.unread fd = server.pool.unread fd := by
  have kept : ctx.window fd = server.context.window fd :=
    @processAll_relates _ (fun before after => after.window fd = before.window fd)
      (fun _ => rfl) (fun left right => right.trans left) (processWithFd_window fd) _ _ done
  obtain ⟨attached, pooled, -⟩ := (processAll_connections done).pool rfl
  rw [CommandContext.window, pooled] at kept
  rw [withContext, pooled, Option.getD_some]
  exact unread_congr kept

theorem turn_drains {turn : Turn} (last : server.EndsLast turn)
    (done : server.turn turn = .ok (after, actions)) : server.Drains after := by
  cases turn_cases done with
  | timeouts now status =>
    refine fun fd => .inl (unread_congr ?_)
    simp only [settleTimeouts, perform, window_flushAll, window_sendAll]
  | masterGone | idle => exact fun _ => .inl rfl
  | master _ processed => exact fun fd => .inl (processAll_unread processed fd)
  | replicaGone _ _ read | clientGone _ read => exact drains_of_remove read rfl
  | replica known read acked => exact processAck_drains known read acked rfl
  | accepted =>
    intro other
    rw [Stranded, unread_add]
    split
    · exact .inr not_hasCommand_nil
    · exact .inl rfl
  | client client read called done => exact dispatchInput_drains client read called done last

end Turns

/-- If in every turn a command that is going to end the call is the last one of the data, then
no client that is neither blocked nor waiting is left with a whole command in its buffer. -/
theorem no_stranded_commands {start last : ServerState} {turns : List Turn}
    {outputs : List (List Action)} (nobody : start.pool = .empty)
    (ends : Run.Along turn EndsLast start turns)
    (ran : Run.run turn start turns = .ok (last, outputs)) (fd : Fd) :
    last.Idle fd → ¬ last.Stranded fd := by
  have clear : ∀ fd, ¬ start.Stranded fd := by
    intro fd
    rw [Stranded, nobody]
    exact not_hasCommand_nil
  refine fun _ => Run.run_invariant (fun server => ∀ fd, ¬ server.Stranded fd) ?_ clear ends ran fd
  intro server turn after actions clear last done fd
  rcases turn_drains last done fd with same | gone
  · rw [Stranded, same]
    exact clear fd
  · exact gone

theorem woken_client_goes_on :
    ∃ result, Run.run turn plain [.accept 3 5, .accept 3 6, .input 5 [["BLPOP", "k", "0"]],
        .input 6 [["RPUSH", "k", "v"]], .input 5 [["PING"]]] = .ok result ∧
      result.1.Idle 5 ∧ ¬ result.1.Stranded 5 :=
  Run.of_checked (fun result => result.1.Idle 5) (by decide +kernel) fun _ ran idle =>
    ⟨idle, no_stranded_commands rfl (by decide +kernel) ran 5 idle⟩

/-- A `PING` behind a `BLPOP` stays in the buffer when the client is woken, and one behind
a `WAIT` when that is answered at once. -/
theorem pipelined_ping_is_stranded :
    Run.Succeeds (Run.run turn plain [.accept 3 5, .accept 3 6,
        .input 5 [["BLPOP", "k", "0"], ["PING"]], .input 6 [["RPUSH", "k", "v"]]])
      (fun result => result.1.Idle 5 ∧ result.1.Stranded 5 ∧
        (result.1.pool.find 5).map Connection.pendingWrite =
          some (encodeArray [ascii "k", ascii "v"])) ∧
    Run.Succeeds (Run.run turn plain [.accept 3 5, .input 5 [["WAIT", "0", "0"], ["PING"]]])
      (fun result => result.1.Idle 5 ∧ result.1.Stranded 5 ∧
        (result.1.pool.find 5).map Connection.pendingWrite = some (encodeInteger 0)) := by
  decide +kernel

end ServerState

end Credis
