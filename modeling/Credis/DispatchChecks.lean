import Credis.SystemCore
import Credis.RespChecks
import Credis.HandlerChecks
import Credis.Run

/-! How a command reaches its handler: the state of each connection, what one
step can do, and the commands of one input as steps behind each other. -/

namespace Credis

open ByteString ConnectionPool CommandContext

variable {fd : Fd} {ctx admitted : CommandContext} {cmd : Bytes} {send : Bool} {args : List Bytes}
  {outcome : CommandOutcome} {request : Request}

variable {after : CommandContext} {observation : Observation} {state : HandlerState}

namespace ConnectionPool

theorem find_modify (pool : ConnectionPool) (fd other : Fd) (change : Connection → Connection) :
    (pool.modify fd change).find other =
      if other = fd then (pool.find fd).map change else pool.find other := by
  unfold modify
  cases found : pool.find fd with
  | none =>
    by_cases same : other = fd
    · simp [same, found]
    · simp [same]
  | some connection =>
    by_cases same : other = fd
    · subst same
      simp [find]
    · simp [same, find, AList.lookup_insert_ne same]

@[simp] theorem contains_modify (pool : ConnectionPool) (fd other : Fd)
    (change : Connection → Connection) :
    (pool.modify fd change).contains other = pool.contains other := by
  rw [contains, contains, find_modify]
  split
  · rename_i same
    rw [same, Option.isSome_map]
  · rfl

theorem find_markDirty (pool : ConnectionPool) (fd other : Fd) :
    ∃ dirty : Connection → Bool, (pool.markDirty fd).find other =
      (pool.find other).map fun connection => { connection with dirty := dirty connection } := by
  unfold markDirty
  split
  · exact ⟨Connection.dirty, by simp⟩
  rename_i connection found
  split
  · exact ⟨Connection.dirty, by simp⟩
  have marked := find_modify pool fd other fun connection => { connection with dirty := true }
  by_cases same : other = fd
  · rw [if_pos same] at marked
    exact ⟨fun _ => true, by rw [same] at marked ⊢; exact marked⟩
  · rw [if_neg same] at marked
    exact ⟨Connection.dirty, marked.trans (by simp)⟩

end ConnectionPool

def AofManager.appendAll (manager : AofManager) (entries : List Bytes) : AofManager :=
  entries.foldl (fun manager raw => (manager.append raw).appendToRewriteBuffer raw) manager

namespace CommandContext

section Accessors

variable (ctx : CommandContext) (fd other : Fd) (tx : TransactionState)

@[simp] theorem setTx_toHandlerState : (ctx.setTx fd tx).toHandlerState = ctx.toHandlerState := by
  unfold setTx
  split <;> rfl

@[simp] theorem clearTx_toHandlerState : (ctx.clearTx fd).toHandlerState = ctx.toHandlerState := by
  unfold clearTx
  split <;> rfl

@[simp] theorem setAuthenticated_toHandlerState :
    (ctx.setAuthenticated fd).toHandlerState = ctx.toHandlerState := by
  unfold setAuthenticated
  split <;> rfl

@[simp] theorem setTx_hasConnection :
    (ctx.setTx fd tx).hasConnection other = ctx.hasConnection other := by
  unfold setTx hasConnection
  split
  · rename_i pool found
    simp [found]
  · rename_i found
    simp [found]

@[simp] theorem clearTx_hasConnection :
    (ctx.clearTx fd).hasConnection other = ctx.hasConnection other := by
  unfold clearTx hasConnection
  split
  · rename_i pool found
    simp [found]
  · rename_i found
    simp [found]

@[simp] theorem markConnection_hasConnection :
    (ctx.markConnection fd).hasConnection other = ctx.hasConnection other := by
  unfold markConnection hasConnection
  cases ctx.connPool with
  | none => rfl
  | some pool => simp

@[simp] theorem setAuthenticated_hasConnection :
    (ctx.setAuthenticated fd).hasConnection other = ctx.hasConnection other := by
  unfold setAuthenticated
  split
  · exact markConnection_hasConnection ctx fd other
  · rfl

theorem tx_setTx (connected : ctx.hasConnection fd = true) : (ctx.setTx fd tx).tx fd = some tx := by
  unfold setTx CommandContext.tx
  cases found : ctx.connPool with
  | none => simp
  | some pool =>
    simp only [hasConnection, found, Option.all_some, ConnectionPool.contains] at connected
    obtain ⟨connection, present⟩ := Option.isSome_iff_exists.mp connected
    simp [find_modify, present]

theorem tx_setTx_ne (different : other ≠ fd) : (ctx.setTx fd tx).tx other = ctx.tx other := by
  unfold setTx CommandContext.tx
  cases ctx.connPool with
  | none => exact AList.lookup_insert_ne different
  | some pool => simp [find_modify, different]

@[simp] theorem tx_clearTx : (ctx.clearTx fd).tx fd = none := by
  unfold clearTx tx
  cases ctx.connPool with
  | none => exact AList.lookup_erase _ _
  | some pool =>
    simp only [find_modify, if_true]
    cases pool.find fd <;> rfl

theorem tx_clearTx_ne (different : other ≠ fd) : (ctx.clearTx fd).tx other = ctx.tx other := by
  unfold clearTx tx
  cases ctx.connPool with
  | none => exact AList.lookup_erase_ne different
  | some pool => simp [find_modify, different]

@[simp] theorem tx_markConnection : (ctx.markConnection fd).tx other = ctx.tx other := by
  unfold markConnection tx
  cases ctx.connPool with
  | none => rfl
  | some pool =>
    simp only [Option.map_some, find_modify]
    split
    · rename_i same
      rw [same]
      cases pool.find fd <;> rfl
    · rfl

@[simp] theorem tx_setAuthenticated : (ctx.setAuthenticated fd).tx other = ctx.tx other := by
  unfold setAuthenticated
  split
  · exact tx_markConnection ctx fd other
  · rename_i found
    simp [tx, found]

@[simp] theorem isAuthenticated_setTx :
    (ctx.setTx fd tx).isAuthenticated other = ctx.isAuthenticated other := by
  unfold setTx isAuthenticated
  cases found : ctx.connPool with
  | none => simp
  | some pool =>
    simp only [find_modify]
    split
    · rename_i same
      rw [same]
      cases pool.find fd <;> rfl
    · rfl

@[simp] theorem isAuthenticated_clearTx :
    (ctx.clearTx fd).isAuthenticated other = ctx.isAuthenticated other := by
  unfold clearTx isAuthenticated
  cases found : ctx.connPool with
  | none => simp
  | some pool =>
    simp only [find_modify]
    split
    · rename_i same
      rw [same]
      cases pool.find fd <;> rfl
    · rfl

theorem isAuthenticated_markConnection (marked : ctx.isAuthenticated other = true) :
    (ctx.markConnection fd).isAuthenticated other = true := by
  unfold markConnection isAuthenticated at *
  cases found : ctx.connPool with
  | none =>
    rw [found] at marked
    exact marked
  | some pool =>
    simp only [found] at marked
    simp only [Option.map_some, find_modify]
    split
    · rename_i same
      rw [same] at marked
      cases present : pool.find fd with
      | none => simp [present] at marked
      | some connection => rfl
    · exact marked

theorem isAuthenticated_setAuthenticated_mono (marked : ctx.isAuthenticated other = true) :
    (ctx.setAuthenticated fd).isAuthenticated other = true := by
  unfold setAuthenticated
  split
  · exact isAuthenticated_markConnection ctx fd other marked
  · rename_i found
    simp only [isAuthenticated, found, decide_eq_true_eq] at marked ⊢
    exact List.mem_insert_of_mem marked

theorem isAuthenticated_setAuthenticated (connected : ctx.hasConnection fd = true) :
    (ctx.setAuthenticated fd).isAuthenticated fd = true := by
  unfold setAuthenticated
  split
  · rename_i pool found
    simp only [hasConnection, found, Option.all_some, ConnectionPool.contains] at connected
    obtain ⟨connection, present⟩ := Option.isSome_iff_exists.mp connected
    simp [markConnection, isAuthenticated, found, find_modify, present]
  · rename_i found
    simp [isAuthenticated, found]

end Accessors

theorem gate_admitted (passed : ctx.gate fd cmd = .ok (.admitted admitted)) :
    (admitted = ctx ∨ admitted = ctx.setAuthenticated fd) ∧ ctx.hasConnection fd = true ∧
      (cmd = ascii "AUTH" ∨ admitted.isAuthenticated fd = true) ∧
      (ctx.isSubscribed fd = true → cmd ∈ subscribedAllowed) := by
  unfold gate at passed
  split at passed
  · cases passed
  rename_i free
  have allowed : ctx.isSubscribed fd = true → cmd ∈ subscribedAllowed := by
    intro subscribed
    by_contra refused
    exact free ⟨subscribed, refused⟩
  split at passed
  · cases passed
  rename_i present
  have connected : ctx.hasConnection fd = true := by simpa using present
  split at passed
  · rename_i known
    cases passed
    exact ⟨.inl rfl, connected, known, allowed⟩
  · split at passed
    · cases passed
      exact ⟨.inr rfl, connected, .inr (isAuthenticated_setAuthenticated ctx fd connected),
        allowed⟩
    · cases passed

theorem gate_rejected {reply : Bytes} (refused : ctx.gate fd cmd = .ok (.rejected reply)) :
    reply = subscribedReply cmd ∨ reply = noauthReply := by
  unfold gate at refused
  split at refused
  · cases refused
    exact .inl rfl
  split at refused
  · cases refused
  split at refused
  · cases refused
  · split at refused <;> cases refused
    exact .inr rfl

theorem gate_toHandlerState (passed : ctx.gate fd cmd = .ok (.admitted admitted)) :
    admitted.toHandlerState = ctx.toHandlerState := by
  rcases (gate_admitted passed).1 with rfl | rfl <;> simp

theorem gate_tx (passed : ctx.gate fd cmd = .ok (.admitted admitted)) (other : Fd) :
    admitted.tx other = ctx.tx other := by
  rcases (gate_admitted passed).1 with rfl | rfl <;> simp

def controlCommands : List Bytes :=
  [ascii "MULTI", ascii "EXEC", ascii "DISCARD", ascii "WATCH", ascii "UNWATCH"]

inductive Serves (ctx : CommandContext) (fd : Fd) (send : Bool) (args : List Bytes)
    (cmd : Bytes) : CommandOutcome → Prop
  | rejected {reply : Bytes} : ctx.gate fd cmd = .ok (.rejected reply) →
      Serves ctx fd send args cmd (ctx.replied reply)
  | multi {admitted : CommandContext} : ctx.gate fd cmd = .ok (.admitted admitted) →
      cmd = ascii "MULTI" → Serves ctx fd send args cmd (admitted.multi fd)
  | exec {admitted : CommandContext} {outcome : CommandOutcome} :
      ctx.gate fd cmd = .ok (.admitted admitted) → cmd = ascii "EXEC" →
      admitted.exec fd send = .ok outcome → Serves ctx fd send args cmd outcome
  | discard {admitted : CommandContext} : ctx.gate fd cmd = .ok (.admitted admitted) →
      cmd = ascii "DISCARD" → Serves ctx fd send args cmd (admitted.discard fd)
  | watch {admitted : CommandContext} : ctx.gate fd cmd = .ok (.admitted admitted) →
      cmd = ascii "WATCH" → Serves ctx fd send args cmd (admitted.watch fd args)
  | unwatch {admitted : CommandContext} : ctx.gate fd cmd = .ok (.admitted admitted) →
      cmd = ascii "UNWATCH" → Serves ctx fd send args cmd (admitted.unwatch fd)
  | queued {admitted : CommandContext} : ctx.gate fd cmd = .ok (.admitted admitted) →
      cmd ∉ controlCommands → admitted.txInMulti fd = true →
      Serves ctx fd send args cmd (admitted.queueCommand fd args)
  | executed {admitted : CommandContext} {outcome : CommandOutcome} :
      ctx.gate fd cmd = .ok (.admitted admitted) → cmd ∉ controlCommands →
      admitted.txInMulti fd = false → admitted.execute fd send args cmd = .ok outcome →
      Serves ctx fd send args cmd outcome

theorem processSingleCommand_serves (named : args ≠ [])
    (done : ctx.processSingleCommand fd send args cmd = .ok outcome) :
    Serves ctx fd send args cmd outcome := by
  rw [processSingleCommand, if_neg named] at done
  split at done
  · cases done
  · rename_i rejected
    cases done
    exact .rejected rejected
  · rename_i admitted passed
    unfold processAdmitted at done
    split at done
    · rename_i multi
      cases done
      exact .multi passed multi
    · rename_i notMulti
      split at done
      · rename_i exec
        exact .exec passed exec done
      rename_i notExec
      split at done
      · rename_i discard
        cases done
        exact .discard passed discard
      · rename_i notDiscard
        split at done
        · rename_i watch
          cases done
          exact .watch passed watch
        · rename_i notWatch
          split at done
          · rename_i unwatch
            cases done
            exact .unwatch passed unwatch
          · rename_i notUnwatch
            have table : cmd ∉ controlCommands := by
              simp only [controlCommands, List.mem_cons, List.not_mem_nil, or_false, not_or]
              exact ⟨notMulti, notExec, notDiscard, notWatch, notUnwatch⟩
            split at done
            · rename_i inside
              cases done
              exact .queued passed table inside
            · rename_i outside
              exact .executed passed table (by simpa using outside) done

def inputStep (fd : Fd) (send : Bool) (ctx : CommandContext) (request : Request) :
    Except Fault (CommandContext × Observation) :=
  match ctx.step fd send request.args request.raw with
  | .error fault => .error fault
  | .ok (after, state, effect) => .ok (after, ⟨state, effect⟩)

theorem inputStep_of_step {after : CommandContext} {state : ProcessState} {effect : Effect}
    (stepped : ctx.step fd send request.args request.raw = .ok (after, state, effect)) :
    inputStep fd send ctx request = .ok (after, ⟨state, effect⟩) := by
  rw [inputStep, stepped]

theorem step_of_inputStep (done : inputStep fd send ctx request = .ok (after, observation)) :
    ctx.step fd send request.args request.raw =
      .ok (after, observation.state, observation.effect) := by
  unfold inputStep at done
  split at done
  · cases done
  · rename_i stepped
    cases done
    exact stepped

theorem serve_of_step {state : ProcessState} {effect : Effect}
    (stepped : ctx.step request.fd true request.args request.raw = .ok (after, state, effect)) :
    ctx.serve request = .ok (after, ⟨state, effect⟩) :=
  inputStep_of_step stepped

theorem serve_of_process (named : request.args ≠ [])
    (done : ctx.processSingleCommand request.fd true request.args request.name = .ok outcome) :
    ctx.serve request = .ok (outcome.ctx.logCommand request.name request.raw,
      ⟨outcome.result, ⟨outcome.ctx.propagatedCommands request.name request.raw,
        outcome.ctx.loggedBytes request.name request.raw, outcome.reply, outcome.sends⟩⟩) := by
  apply serve_of_step
  cases args : request.args with
  | nil => exact absurd args named
  | cons name rest =>
    have same : toUpper name = request.name := by rw [Request.name, args]; rfl
    rw [args] at done
    rw [step, same, done]

theorem Request.args_ne_nil {name : Bytes} (naming : request.name = name)
    (other : name ≠ toUpper []) : request.args ≠ [] := by
  intro absent
  rw [Request.name, absent] at naming
  exact other naming.symm

theorem process_of_gate (named : args ≠ []) (passed : ctx.gate fd cmd = .ok (.admitted admitted)) :
    ctx.processSingleCommand fd send args cmd = admitted.processAdmitted fd send args cmd := by
  rw [processSingleCommand, if_neg named, passed]

theorem inputStep_ok (done : inputStep fd send ctx request = .ok (after, observation)) :
    ∃ outcome, ctx.processSingleCommand fd send request.args request.name = .ok outcome ∧
      Serves ctx fd send request.args request.name outcome ∧
      after = outcome.ctx.logCommand request.name request.raw ∧
      observation = ⟨outcome.result,
        ⟨outcome.ctx.propagatedCommands request.name request.raw,
          outcome.ctx.loggedBytes request.name request.raw, outcome.reply, outcome.sends⟩⟩ := by
  unfold inputStep step at done
  cases args : request.args with
  | nil => simp [args] at done
  | cons name rest =>
    have same : request.name = toUpper name := by simp [Request.name, args]
    rw [args] at done
    dsimp only at done
    cases processed : ctx.processSingleCommand fd send (name :: rest) (toUpper name) with
    | error fault => simp [processed] at done
    | ok outcome =>
      simp only [processed, Except.ok.injEq, Prod.mk.injEq] at done
      obtain ⟨rfl, rfl⟩ := done
      rw [same]
      exact ⟨outcome, processed, processSingleCommand_serves (by simp) processed, rfl, rfl⟩

theorem serve_ok (done : ctx.serve request = .ok (after, observation)) :
    ∃ outcome, ctx.processSingleCommand request.fd true request.args request.name = .ok outcome ∧
      Serves ctx request.fd true request.args request.name outcome ∧
      after = outcome.ctx.logCommand request.name request.raw ∧
      observation = ⟨outcome.result,
        ⟨outcome.ctx.propagatedCommands request.name request.raw,
          outcome.ctx.loggedBytes request.name request.raw, outcome.reply, outcome.sends⟩⟩ :=
  inputStep_ok done

theorem execute_ok (done : ctx.execute fd send args cmd = .ok outcome) :
    ∃ handled, executeCommand ctx.toHandlerState fd send args cmd = .ok handled ∧
      outcome.ctx.toHandlerState = handled.state ∧
      (outcome.ctx = { ctx with toHandlerState := handled.state } ∨
        outcome.ctx = { ctx with toHandlerState := handled.state }.markConnection fd) ∧
      outcome.result = handled.result ∧ outcome.reply = handled.reply ∧
      outcome.sends = handled.sends := by
  unfold execute at done
  split at done
  · cases done
  rename_i handled success
  cases done
  refine ⟨handled, success, ?_, ?_, rfl, rfl, rfl⟩
  · dsimp only
    split <;> rfl
  · dsimp only
    split
    · exact .inr rfl
    · exact .inl rfl

theorem executeCommand_works {outcome : Outcome}
    (done : executeCommand state fd send args cmd = .ok outcome) :
    Store.Works (fun operation => operation.touchless none = false ∧
        ∃ command, Command.lookup cmd = some command ∧ command.Uses args operation)
      (state.clock state.ticks) state.store outcome.state.store := by
  rcases executeCommand_ok done with ⟨reply, rfl⟩ | ⟨command, ticks, found, handled⟩
  · exact .refl
  refine @handler_calls _ { state with ticks := ticks } _ _ _ _ _ _ _ (fun operation used => ?_)
    handled
  cases passes : operation.touchless none with
  | true => exact .inl rfl
  | false => exact .inr ⟨rfl, command, found, used⟩

theorem executeCommand_wiring {outcome : Outcome}
    (done : executeCommand state fd send args cmd = .ok outcome) :
    SameWiring state outcome.state := by
  rcases executeCommand_ok done with ⟨reply, rfl⟩ | ⟨command, ticks, -, handled⟩
  · exact .refl _
  · have wiring := (handler_wiring command handled).1
    exact ⟨wiring.config, wiring.logging, wiring.replicas, wiring.offset, wiring.clock,
      wiring.forks⟩

theorem execute_tx {other : Fd} (done : ctx.execute fd send args cmd = .ok outcome) :
    outcome.ctx.tx other = ctx.tx other := by
  obtain ⟨handled, -, -, same | marked, -⟩ := execute_ok done
  · rw [same]
    rfl
  · rw [marked, tx_markConnection]
    rfl

structure Fetched (ctx opened : CommandContext) : Prop where
  state : opened.toHandlerState = ctx.toHandlerState
  pooled : opened.connPool.isSome = ctx.connPool.isSome
  connected : ∀ fd, opened.hasConnection fd = ctx.hasConnection fd
  known : ∀ fd, opened.isAuthenticated fd = ctx.isAuthenticated fd
  tx : ∀ fd, opened.tx fd = ctx.tx fd

theorem Fetched.refl (ctx : CommandContext) : Fetched ctx ctx :=
  ⟨rfl, rfl, fun _ => rfl, fun _ => rfl, fun _ => rfl⟩

theorem fetched_markDirty {pool : ConnectionPool} (found : ctx.connPool = some pool) (fd : Fd) :
    Fetched ctx { ctx with connPool := some (pool.markDirty fd) } := by
  refine ⟨rfl, by rw [found]; rfl, fun other => ?_, fun other => ?_, fun other => ?_⟩
  all_goals obtain ⟨dirty, marked⟩ := pool.find_markDirty fd other
  · simp only [hasConnection, found, Option.all_some, ConnectionPool.contains, marked,
      Option.isSome_map]
  · simp only [isAuthenticated, found, marked, Option.any_map]
  · simp only [tx, found, marked]
    cases pool.find other <;> rfl

theorem fetchOutput_ok {opened : CommandContext} (fetched : ctx.fetchOutput fd send = .ok opened) :
    Fetched ctx opened := by
  unfold fetchOutput at fetched
  split at fetched
  · split at fetched
    · cases fetched
      exact .refl ctx
    · rename_i pool found
      split at fetched
      · cases fetched
        exact fetched_markDirty found fd
      · cases fetched
  · cases fetched
    exact .refl ctx

theorem fetchOutput_open (send : Bool) (connected : ctx.hasConnection fd = true) :
    ∃ opened, ctx.fetchOutput fd send = .ok opened := by
  unfold fetchOutput
  split
  · split
    · exact ⟨ctx, rfl⟩
    · rename_i pool found
      have present : pool.contains fd = true := by simpa [hasConnection, found] using connected
      rw [if_pos present]
      exact ⟨_, rfl⟩
  · exact ⟨ctx, rfl⟩

theorem processLoop_whole {last : CommandContext} {requests : List Request}
    {observations : List Observation} {fuel : Nat} (whole : ∀ request ∈ requests, request.Whole)
    (done : Run.run (inputStep fd send) ctx requests = .ok (last, observations))
    (normal : ∀ observation ∈ observations, observation.state = .normal)
    (enough : requests.length ≤ fuel) :
    processLoop fd send fuel ctx (requests.flatMap Request.raw) =
      .ok ⟨last, .normal, (requests.flatMap Request.raw).length,
        observations.map Observation.effect⟩ := by
  induction requests generalizing ctx observations fuel with
  | nil =>
    cases done
    cases fuel with
    | zero => rfl
    | succ fuel => simp [processLoop, parseOneInto, parseCommand]
  | cons request requests ih =>
    obtain ⟨next, observation, later, taken, rest, rfl⟩ := Run.run_cons done
    cases fuel with
    | zero => simp at enough
    | succ fuel =>
      have read := parseCommand_append request.raw (requests.flatMap Request.raw) _ _
        (whole request (by simp))
      have here := step_of_inputStep taken
      rw [normal observation (by simp)] at here
      have there := ih (fun other member => whole other (by simp [member])) rest
        (fun other member => normal other (by simp [member]))
        (by simpa using enough)
      simp only [List.flatMap_cons, processLoop, parseOneInto, read, List.take_left,
        List.drop_left, here, there, List.length_append, List.map_cons]

/-- What is appended to the log behind a command is what its effect names as logged. -/
theorem logCommand_eq (ctx : CommandContext) (cmd raw : Bytes) :
    ctx.logCommand cmd raw = { ctx with
      aofManager := ctx.aofManager.map (AofManager.appendAll · (ctx.loggedBytes cmd raw)) } := by
  by_cases write : isWriteCommand cmd = true
  · cases log : ctx.aofManager <;> simp [logCommand, loggedBytes, write, log, AofManager.appendAll]
  · simp [logCommand, loggedBytes, write, AofManager.appendAll]

@[simp] theorem logCommand_tx (ctx : CommandContext) (cmd raw : Bytes) (fd : Fd) :
    (ctx.logCommand cmd raw).tx fd = ctx.tx fd := by
  rw [logCommand_eq]
  rfl

@[simp] theorem logCommand_store (ctx : CommandContext) (cmd raw : Bytes) :
    (ctx.logCommand cmd raw).store = ctx.store := by
  rw [logCommand_eq]

/-- A server that keeps a log, with the descriptors 5 and 6 connected. The example runs of
the modules that follow start from it. -/
def twoClients (replicas : Nat) : CommandContext :=
  ((wired ⟨none, [], [], []⟩ { AofManager.initial with appendonly := ascii "yes" }
    (fun _ => ⟨0, 0⟩) (fun _ => false) replicas).addConnection 5).addConnection 6

end CommandContext

end Credis
