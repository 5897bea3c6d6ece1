import Credis.BlockingChecks
import Credis.ReplayChecks
import Credis.TransactionChecks

/-! Transactions against the log. The log entry of a command is written when the
command arrives, so a write that is only queued is logged too early, and the
command that commits it logs nothing. Entries stand where they belong exactly
when no write is ever queued. -/

namespace Credis

open ByteString Request

variable {ctx : CommandContext} {observations : List (Option Observation)}

variable {condition : List Bytes → Prop} {event : Event} {before after : CommandContext}
  {cmd : Bytes} {request : Request} {output : Option Observation} {fd : Fd}

def isWrite (args : List Bytes) : Bool := isWriteCommand (toUpper (args.headD []))

namespace CommandContext

def queues (ctx : CommandContext) (request : Request) : Bool :=
  ctx.passes request && !controlCommands.contains request.name && ctx.txInMulti request.fd

def commits (ctx : CommandContext) (request : Request) : Bool :=
  ctx.passes request && request.name == ascii "EXEC" && ctx.txInMulti request.fd &&
    !isDirty ctx.store (ctx.txGet request.fd)

/-- The writes that take place at this step: none for a queued command, those of
the queue for a commit, and otherwise the command itself. -/
def owed (ctx : CommandContext) (request : Request) : List Bytes :=
  if ctx.queues request then []
  else if ctx.commits request then
    ((ctx.txGet request.fd).queuedCommands.filter isWrite).map encodeArray
  else if isWriteCommand request.name then [request.raw]
  else []

def Logs (ctx : CommandContext) (request : Request) (entries : List Bytes) : Prop :=
  ∀ after observation, ctx.serve request = .ok (after, observation) →
    ∃ outcome, ctx.processSingleCommand request.fd true request.args request.name = .ok outcome ∧
      after.aofManager = outcome.ctx.aofManager.map (AofManager.appendAll · entries) ∧
      observation.effect.logged = (if ctx.aofManager.isSome then entries else []) ∧
      observation.effect.propagated = if ctx.replicaCount.any (0 < ·) then entries else []

def LogsOwed (ctx : CommandContext) : Event → Prop
  | .request request => ctx.Logs request (ctx.owed request)
  | _ => True

def QueuesNoWrite (ctx : CommandContext) : Event → Prop
  | .request request => ctx.queues request = true → isWriteCommand request.name = false
  | _ => True

instance (ctx : CommandContext) (event : Event) : Decidable (ctx.QueuesNoWrite event) :=
  match event with
  | .request request =>
    inferInstanceAs (Decidable (ctx.queues request = true → isWriteCommand request.name = false))
  | .connect _ | .disconnect _ | .timeouts _ _ => inferInstanceAs (Decidable True)

def AllQueued (condition : List Bytes → Prop) (ctx : CommandContext) : Prop :=
  ∀ fd, ∀ args ∈ (ctx.txGet fd).queuedCommands, condition args

section Steps

variable {ctx next : CommandContext} {request : Request}

theorem serve_logs (ctx : CommandContext) (request : Request) :
    ctx.Logs request (if isWriteCommand request.name then [request.raw] else []) := by
  intro after observation served
  obtain ⟨outcome, processed, serves, rfl, rfl⟩ := serve_ok served
  have wiring := serves.wiring
  refine ⟨outcome, processed, ?_, ?_, ?_⟩
  · rw [logCommand_eq]
    cases log : outcome.ctx.aofManager <;> simp [loggedBytes, log]
  · simp only [loggedBytes, wiring.logging]
    by_cases write : isWriteCommand request.name = true <;> simp [write]
  · simp only [propagatedCommands, wiring.replicas]
    by_cases write : isWriteCommand request.name = true <;> simp [write]

theorem serve_queued (queued : ctx.queues request = true) (named : request.args ≠ []) :
    ∃ after observation, ctx.serve request = .ok (after, observation) := by
  simp only [queues, passes, Bool.and_eq_true, Bool.not_eq_true', List.contains_eq_mem,
    decide_eq_false_iff_not] at queued
  obtain ⟨⟨gated, table⟩, inside⟩ := queued
  split at gated
  · rename_i admitted passed
    rw [← gate_txInMulti passed] at inside
    simp only [controlCommands, List.mem_cons, List.not_mem_nil, or_false, not_or] at table
    cases args : request.args with
    | nil => exact absurd args named
    | cons name rest =>
      have same : request.name = toUpper name := by simp [Request.name, args]
      rw [same] at passed table
      simp only [serve, step, args, processSingleCommand, passed, processAdmitted, table, inside]
      exact ⟨_, _, rfl⟩
  · cases gated

theorem owed_eq (quiet : ctx.AllQueued fun args => isWrite args = false)
    (free : ctx.queues request = true → isWriteCommand request.name = false) :
    ctx.owed request = if isWriteCommand request.name then [request.raw] else [] := by
  unfold owed
  split
  · rename_i queued
    simp [free queued]
  split
  · rename_i committing
    have name : request.name = ascii "EXEC" := by
      simp only [commits, Bool.and_eq_true, beq_iff_eq] at committing
      exact committing.1.1.2
    have vacant : (ctx.txGet request.fd).queuedCommands.filter isWrite = [] := by
      rw [List.filter_eq_nil_iff]
      intro args member
      simp [quiet request.fd args member]
    have read : isWriteCommand (ascii "EXEC") = false := by decide
    simp [vacant, name, read]
  · rfl

theorem allQueued_of_tx (held : ctx.AllQueued condition)
    (fewer : ∀ fd, next.tx fd = ctx.tx fd ∨ next.tx fd = none) : next.AllQueued condition := by
  intro fd args member
  rw [txGet] at member
  rcases fewer fd with same | absent
  · rw [same] at member
    exact held fd args member
  · simp [absent, TransactionState.fresh] at member

theorem Serves.allQueued {send : Bool} {args : List Bytes} {outcome : CommandOutcome}
    (serves : Serves ctx fd send args cmd outcome) (held : ctx.AllQueued condition)
    (new : ∀ admitted, ctx.gate fd cmd = .ok (.admitted admitted) → cmd ∉ controlCommands →
      ctx.txInMulti fd = true → condition args) : outcome.ctx.AllQueued condition := by
  intro other queued member
  rw [txGet] at member
  by_cases different : other = fd
  · subst different
    have turn := serves.tx_step
    generalize outcome.ctx.tx other = tx at turn member
    cases turn with
    | same => exact held other queued member
    | begun _ _ => exact held other queued member
    | ended _ => simp [TransactionState.fresh] at member
    | watched _ =>
      rw [Option.getD_some, watchKeys_queuedCommands] at member
      exact held other queued member
    | unwatched _ => exact held other queued member
    | queued passed table inside =>
      rcases List.mem_append.mp member with before | added
      · exact held other queued before
      · rw [List.mem_singleton.mp added]
        exact new _ passed table inside
  · rw [serves.tx_other different] at member
    exact held other queued member

theorem handle_allQueued (handled : ctx.handle event = .ok (next, output))
    (held : ctx.AllQueued condition)
    (new : ∀ request, event = .request request → ctx.queues request = true →
      condition request.args) : next.AllQueued condition := by
  cases event with
  | connect fd =>
    cases handled
    exact allQueued_of_tx held (tx_addConnection_or ctx fd)
  | disconnect fd =>
    cases handled
    exact allQueued_of_tx held (tx_dropConnection_or ctx fd)
  | timeouts now status =>
    cases handled
    exact allQueued_of_tx held fun _ => .inl rfl
  | request request =>
    obtain ⟨outcome, aof, serves, rfl⟩ := handle_served handled
    refine allQueued_of_tx (serves.allQueued held fun admitted passed table inside => ?_)
      fun fd => .inl rfl
    exact new request rfl (by simp [queues, passes, passed, table, inside])

end Steps

theorem logsOwed_iff {events : List Event} (logging : ctx.aofManager.isSome = true)
    (quiet : ctx.AllQueued fun args => isWrite args = false) :
    Run.Along handle LogsOwed ctx events ↔ Run.Along handle QueuesNoWrite ctx events := by
  induction events generalizing ctx with
  | nil => exact Iff.rfl
  | cons event events ih =>
    have here : ctx.LogsOwed event ↔ ctx.QueuesNoWrite event := by
      cases event with
      | request request =>
        refine ⟨fun logs queued => ?_, fun free => ?_⟩
        · by_contra write
          have named : request.args ≠ [] := by
            intro empty
            simp only [name, empty] at write
            exact write (by decide)
          obtain ⟨after, observation, served⟩ := serve_queued queued named
          obtain ⟨-, -, -, nothing, -⟩ := logs after observation served
          obtain ⟨-, -, -, entry, -⟩ := serve_logs ctx request after observation served
          rw [nothing, owed, if_pos queued] at entry
          simp [logging, write] at entry
        · have same := owed_eq quiet free
          rw [LogsOwed, same]
          exact serve_logs ctx request
      | connect _ | disconnect _ | timeouts _ _ => exact Iff.rfl
    unfold Run.Along
    rw [here]
    refine and_congr_right fun free => ?_
    split
    · exact Iff.rfl
    rename_i next output handled
    refine ih ?_ (handle_allQueued handled quiet ?_)
    · rw [(handle_wiring handled).logging]
      exact logging
    · rintro request rfl queued
      exact free queued

def Fits (ctx : CommandContext) : Event → Prop
  | .request request =>
    request.Whole ∧ ctx.passes request = true ∧
      (request.name ∈ controlCommands ∨ isReplayable request.args = true)
  | _ => True

instance (ctx : CommandContext) (event : Event) : Decidable (ctx.Fits event) :=
  match event with
  | .request _ => inferInstanceAs (Decidable (_ ∧ _ ∧ _))
  | .connect _ | .disconnect _ | .timeouts _ _ => inferInstanceAs (Decidable True)

/-- The log so far rebuilds the keyspace, and will do so behind further steps. -/
structure Rebuilds (ctx : CommandContext) (observations : List (Option Observation)) : Prop where
  logging : ctx.aofManager.isSome = true
  unblocked : ctx.NobodyBlocked
  steady : ctx.store.NoExpiry
  queued : ctx.AllQueued fun args => isReplayable args = true ∧ isWrite args = false
  rebuilt : ∃ requests : List Request,
    (∀ request ∈ requests, request.Whole ∧ isReplayable request.args = true) ∧
    logOf observations = requests.flatMap raw ∧
    ctx.store = (requests.map args).foldl applied Store.empty

theorem execute_reads (fd : Fd) {rest : List Bytes} (fits : isReplayable (cmd :: rest) = true)
    (read : isWrite (cmd :: rest) = false) (steady : ctx.store.NoExpiry)
    (unblocked : ctx.NobodyBlocked) :
    ∃ outcome, ctx.execute fd true (cmd :: rest) cmd = .ok outcome ∧
      outcome.ctx.store = ctx.store ∧ outcome.ctx.blockingManager = ctx.blockingManager := by
  cases found : Command.lookup cmd with
  | none =>
    simp only [execute, executeCommand, found]
    exact ⟨_, rfl, rfl, rfl⟩
  | some command =>
    -- the names of the table are upper case, so the queued name is the normalised one
    have upper : toUpper cmd = cmd := by
      rw [lookup_name found, command.toUpper_name]
    obtain ⟨-, unchanged, runs⟩ :=
      executeCommand_applied ctx.toHandlerState fits steady (unblocked.freeFor _)
    obtain ⟨ticks, reply, result⟩ := runs fd true
    rw [List.headD_cons, upper] at result
    simp only [execute, result]
    exact ⟨_, rfl, unchanged read, rfl⟩

theorem execQueued_reads {queue : List (List Bytes)}
    (reads : ∀ args ∈ queue, isReplayable args = true ∧ isWrite args = false)
    (steady : ctx.store.NoExpiry) (unblocked : ctx.NobodyBlocked) :
    ∃ after replies sends, execQueued fd true queue ctx = .ok (after, replies, sends) ∧
      after.store = ctx.store ∧ after.blockingManager = ctx.blockingManager := by
  induction queue generalizing ctx with
  | nil => exact ⟨ctx, [], [], rfl, rfl, rfl⟩
  | cons args queue ih =>
    obtain ⟨fits, read⟩ := reads args (by simp)
    cases args with
    | nil => exact absurd fits (by decide)
    | cons cmd rest =>
      obtain ⟨outcome, executed, stored, blocked⟩ :=
        execute_reads fd fits read steady unblocked
      obtain ⟨after, replies, sends, more, same, waiting⟩ :=
        @ih outcome.ctx (fun other member => reads other (by simp [member]))
          (by rw [stored]; exact steady)
          (fun key manager found => unblocked key manager (by rw [← blocked]; exact found))
      simp only [execQueued, executed, more]
      exact ⟨_, _, _, rfl, same.trans stored, waiting.trans blocked⟩

structure Records (before after : CommandContext) (entries : List Bytes) : Prop where
  blocking : after.blockingManager = before.blockingManager
  steady : after.store.NoExpiry
  requests : ∃ added : List Request,
    (∀ request ∈ added, request.Whole ∧ isReplayable request.args = true) ∧
    entries.flatten = added.flatMap raw ∧
    after.store = (added.map args).foldl applied before.store

theorem Records.nothing (steady : before.store.NoExpiry) (stored : after.store = before.store)
    (blocked : after.blockingManager = before.blockingManager) : Records before after [] :=
  ⟨blocked, by rw [stored]; exact steady, [], by simp, rfl, stored⟩

theorem logCommand_blockingManager (ctx : CommandContext) (cmd raw : Bytes) :
    (ctx.logCommand cmd raw).blockingManager = ctx.blockingManager := by
  rw [logCommand_eq]

theorem controlCommands_read : ∀ cmd ∈ controlCommands, isWriteCommand cmd = false := by
  decide

theorem Rebuilds.serve {next : CommandContext} {observation : Observation}
    (holds : Rebuilds ctx observations) (fits : ctx.Fits (.request request))
    (free : ctx.QueuesNoWrite (.request request))
    (served : ctx.serve request = .ok (next, observation)) :
    Records ctx next observation.effect.logged := by
  obtain ⟨whole, passed, kind⟩ := fits
  obtain ⟨outcome, -, serves, rfl, rfl⟩ := serve_ok served
  obtain ⟨admitted, gated⟩ := passes_admitted passed
  -- a step that leaves the keyspace alone is not one that is logged
  have idle : isWriteCommand request.name = false → outcome.ctx.store = ctx.store →
      outcome.ctx.blockingManager = ctx.blockingManager →
      Records ctx (outcome.ctx.logCommand request.name request.raw)
        (outcome.ctx.loggedBytes request.name request.raw) := by
    intro read stored blocked
    rw [loggedBytes, if_neg (by simp [read])]
    exact .nothing holds.steady ((logCommand_store _ _ _).trans stored)
      ((logCommand_blockingManager _ _ _).trans blocked)
  rcases serves.state_cases with silent |
    ⟨_, final, _, _, gate, name, inside, -, ran, rfl⟩ | ⟨_, gate, table, -, done⟩
  · refine idle ?_ (by rw [silent.state.1]) (by rw [silent.state.1])
    cases silent with
    | rejected refused => cases gated.symm.trans refused
    | settled _ why =>
      by_cases control : request.name ∈ controlCommands
      · exact controlCommands_read _ control
      · exact free (by simp [queues, passed, control, why.resolve_left control])
  · have state := gate_toHandlerState gate
    obtain ⟨_, _, _, reads, stored, blocked⟩ := execQueued_reads (holds.queued request.fd)
      (by rw [state]; exact holds.steady)
      (fun key manager found => holds.unblocked key manager (by rw [← state]; exact found))
    rw [ran] at reads
    cases reads
    refine idle (by rw [name]; decide) ?_ ?_
    · rw [clearTx_toHandlerState, stored, state]
    · rw [clearTx_toHandlerState, blocked, state]
  · have replayable := kind.resolve_left table
    obtain ⟨handled, ran, after, -⟩ := execute_ok done
    obtain ⟨kept, unchanged, runs⟩ :=
      executeCommand_applied ctx.toHandlerState replayable holds.steady
        (holds.unblocked.freeFor _)
    obtain ⟨ticks, reply, result⟩ := runs request.fd true
    rw [gate_toHandlerState gate, name, result] at ran
    cases ran
    have stored : outcome.ctx.store = applied ctx.store request.args := by rw [after]
    have blocked : outcome.ctx.blockingManager = ctx.blockingManager := by rw [after]
    by_cases write : isWriteCommand request.name = true
    · have logged : outcome.ctx.aofManager.isSome = true := by
        rw [serves.wiring.logging]
        exact holds.logging
      rw [loggedBytes, if_pos ⟨write, logged⟩]
      refine ⟨(logCommand_blockingManager _ _ _).trans blocked, ?_, [request], ?_, ?_, ?_⟩
      · rw [logCommand_store, stored]
        exact kept
      · simpa using ⟨whole, replayable⟩
      · simp
      · exact (logCommand_store _ _ _).trans stored
    · have read : isWriteCommand request.name = false := by simpa using write
      exact idle read (stored.trans (unchanged read)) blocked

theorem Rebuilds.progress (holds : Rebuilds ctx observations) (fits : ctx.Fits event) :
    ∃ next output, ctx.handle event = .ok (next, output) := by
  cases event with
  | connect _ | disconnect _ | timeouts _ _ => exact ⟨_, _, rfl⟩
  | request request =>
    obtain ⟨-, passed, kind⟩ := fits
    obtain ⟨admitted, gated⟩ := passes_admitted passed
    have state := gate_toHandlerState gated
    have steady : admitted.store.NoExpiry := by
      rw [state]
      exact holds.steady
    have unblocked : admitted.NobodyBlocked := by
      intro key manager found
      exact holds.unblocked key manager (by rw [← state]; exact found)
    have processed : ∃ outcome,
        admitted.processAdmitted request.fd true request.args request.name = .ok outcome := by
      unfold processAdmitted
      split
      · exact ⟨_, rfl⟩
      rename_i notMulti
      split
      · unfold exec
        rw [gate_txGet gated]
        obtain ⟨_, _, _, ran, -⟩ := execQueued_reads (holds.queued request.fd) steady unblocked
        rw [ran]
        split
        · exact ⟨_, rfl⟩
        · split <;> exact ⟨_, rfl⟩
      rename_i notExec
      split
      · exact ⟨_, rfl⟩
      rename_i notDiscard
      split
      · exact ⟨_, rfl⟩
      rename_i notWatch
      split
      · exact ⟨_, rfl⟩
      rename_i notUnwatch
      split
      · exact ⟨_, rfl⟩
      have table : request.name ∉ controlCommands := by
        simp only [controlCommands, List.mem_cons, List.not_mem_nil, or_false, not_or]
        exact ⟨notMulti, notExec, notDiscard, notWatch, notUnwatch⟩
      obtain ⟨-, -, runs⟩ := executeCommand_applied admitted.toHandlerState
        (kind.resolve_left table) steady (unblocked.freeFor _)
      obtain ⟨ticks, reply, result⟩ := runs request.fd true
      simp only [execute, name, result]
      exact ⟨_, rfl⟩
    obtain ⟨outcome, done⟩ := processed
    cases args : request.args with
    | nil =>
      simp only [name, args] at kind
      exact absurd kind (by decide)
    | cons name rest =>
      have same : request.name = toUpper name := by simp [Request.name, args]
      rw [args, same] at done
      rw [same] at gated
      simp only [handle, CommandContext.serve, step, args, processSingleCommand, gated, done]
      exact ⟨_, _, rfl⟩

theorem nobodyBlocked_sublist (free : before.NobodyBlocked)
    (fewer : ∀ manager, after.blockingManager = some manager →
      ∃ earlier, before.blockingManager = some earlier ∧
        ∀ key, (manager.queue key).Sublist (earlier.queue key)) : after.NobodyBlocked := by
  intro key manager found
  obtain ⟨earlier, same, sublist⟩ := fewer manager found
  have shorter := sublist key
  rw [free key earlier same] at shorter
  exact List.sublist_nil.mp shorter

theorem Rebuilds.next {next : CommandContext} (holds : Rebuilds ctx observations)
    (fits : ctx.Fits event) (free : ctx.QueuesNoWrite event)
    (handled : ctx.handle event = .ok (next, output)) :
    Rebuilds next (observations ++ [output]) := by
  have logging := (handle_wiring handled).logging.trans holds.logging
  have queued := handle_allQueued handled holds.queued (by
    rintro request rfl queueing
    have read := free queueing
    simp only [queues, Bool.and_eq_true, Bool.not_eq_true', List.contains_eq_mem,
      decide_eq_false_iff_not] at queueing
    exact ⟨fits.2.2.resolve_left queueing.1.2, read⟩)
  cases event with
  | connect fd =>
    cases handled
    refine ⟨logging, holds.unblocked, holds.steady, queued, ?_⟩
    rw [logOf_append_none]
    exact holds.rebuilt
  | disconnect fd =>
    cases handled
    refine ⟨logging, nobodyBlocked_sublist holds.unblocked ?_, holds.steady, queued, ?_⟩
    · intro manager found
      obtain ⟨earlier, same, rfl⟩ := Option.map_eq_some_iff.mp found
      exact ⟨earlier, same, earlier.unblockClient_queue fd⟩
    · rw [logOf_append_none]
      exact holds.rebuilt
  | timeouts now status =>
    cases handled
    refine ⟨logging, nobodyBlocked_sublist holds.unblocked ?_, holds.steady, queued, ?_⟩
    · intro manager found
      obtain ⟨earlier, same, rfl⟩ := Option.map_eq_some_iff.mp found
      refine ⟨earlier, same, fun key => ?_⟩
      rw [earlier.getExpiredClients_queue]
      exact List.filter_sublist
    · rw [logOf_append_none]
      exact holds.rebuilt
  | request request =>
    obtain ⟨observation, served, rfl⟩ := handle_request handled
    obtain ⟨blocking, steady, added, replayable, logged, stored⟩ := holds.serve fits free served
    obtain ⟨requests, before, log, rebuilt⟩ := holds.rebuilt
    refine ⟨logging, ?_, steady, queued, requests ++ added, ?_, ?_, ?_⟩
    · intro key manager found
      exact holds.unblocked key manager (by rw [← blocking]; exact found)
    · exact List.forall_mem_append.mpr ⟨before, replayable⟩
    · rw [List.flatMap_append, ← log, ← logged]
      simp [logOf]
    · rw [stored, rebuilt, List.map_append, List.foldl_append]

theorem Rebuilds.replay (holds : Rebuilds ctx observations) (config : ServerConfig)
    (clock : Nat → Instant) (forks : Nat → Bool) :
    ∃ replayed response,
      (fresh Store.empty config clock forks).process (logOf observations) =
        .ok (replayed, response) ∧ replayed.store = ctx.store := by
  obtain ⟨requests, replayable, log, rebuilt⟩ := holds.rebuilt
  rw [log, rebuilt]
  exact fresh_process_applied (fun request member => (replayable request member).1)
    (fun request member => (replayable request member).2) config clock forks

/-- In every run the entries of the log stand where their writes take place
exactly when no write is queued, and then the log of a run from an empty keyspace
rebuilds the live one. -/
theorem log_follows_transactions (ctx : CommandContext) (events : List Event)
    (logging : ctx.aofManager.isSome = true)
    (start : ∀ fd, (ctx.txGet fd).queuedCommands = []) :
    (Run.Along handle LogsOwed ctx events ↔ Run.Along handle QueuesNoWrite ctx events) ∧
    (ctx.store = Store.empty → ctx.NobodyBlocked → Run.Along handle Fits ctx events →
      Run.Along handle QueuesNoWrite ctx events →
      ∀ config clock forks, ∃ live observations replayed response,
        Run.run handle ctx events = .ok (live, observations) ∧
        (fresh Store.empty config clock forks).process (logOf observations) =
          .ok (replayed, response) ∧
        replayed.store.contents = live.store.contents) := by
  have absent : ∀ condition, ctx.AllQueued condition := by
    intro condition fd args member
    simp [start fd] at member
  refine ⟨logsOwed_iff logging (absent _), fun empty unblocked fits free config clock forks => ?_⟩
  have first : Rebuilds ctx [] :=
    ⟨logging, unblocked, by rw [empty]; exact Store.empty_noExpiry, absent _, [], by simp, rfl,
      empty⟩
  obtain ⟨live, observations, ran, last⟩ := Run.run_progress Rebuilds
    (fun state event seen holds meets => by
      obtain ⟨next, output, handled⟩ := Rebuilds.progress holds meets.1
      exact ⟨next, output, handled, holds.next meets.1 meets.2 handled⟩) first (fits.and free)
  obtain ⟨replayed, response, done, same⟩ := last.replay config clock forks
  exact ⟨live, observations, replayed, response, ran, done, congrArg Store.contents same⟩

theorem log_follows_reading_transaction :
    ∃ live observations replayed response,
      Run.run handle (twoClients 1)
        [.words 5 ["MULTI"], .words 5 ["GET", "k"], .words 6 ["SET", "k", "1"], .words 5 ["EXEC"]] =
          .ok (live, observations) ∧
      (fresh Store.empty ⟨none, [], [], []⟩ (fun _ => ⟨0, 0⟩) fun _ => false).process
        (logOf observations) = .ok (replayed, response) ∧
      replayed.store.contents = live.store.contents :=
  (log_follows_transactions (twoClients 1) _ rfl
    fun fd => by rw [txGet, twoClients_tx]; rfl).2 rfl
    (twoClients_nobodyBlocked 1) (by decide +kernel) (by decide +kernel) _ _ _

/-- A write that is discarded is logged and replayed, and a write that is
committed is replayed in front of the one it should overwrite. -/
theorem log_records_queued_writes :
    (∃ run, Run.run handle (twoClients 1)
        [.words 5 ["MULTI"], .words 5 ["SET", "k", "1"], .words 5 ["DISCARD"]] = .ok run ∧
      (run.1.store.contents (ascii "k")).isNone ∧
      logOf run.2 = encodeArray [ascii "SET", ascii "k", ascii "1"] ∧
      propagationOf run.2 = [encodeArray [ascii "SET", ascii "k", ascii "1"]]) ∧
    (∃ run, Run.run handle (twoClients 1)
        [.words 5 ["MULTI"], .words 5 ["SET", "k", "1"], .words 6 ["SET", "k", "2"],
          .words 5 ["EXEC"]] = .ok run ∧
      (run.1.store.contents (ascii "k")).bind Value.string? = some (ascii "1") ∧
      logOf run.2 = encodeArray [ascii "SET", ascii "k", ascii "1"] ++
        encodeArray [ascii "SET", ascii "k", ascii "2"]) ∧
    ∃ replayed, (fresh Store.empty ⟨none, [], [], []⟩ (fun _ => ⟨0, 0⟩) fun _ => false).process
        (encodeArray [ascii "SET", ascii "k", ascii "1"] ++
          encodeArray [ascii "SET", ascii "k", ascii "2"]) = .ok replayed ∧
      (replayed.1.store.contents (ascii "k")).bind Value.string? = some (ascii "2") :=
  ⟨Run.Succeeds.ok (by decide +kernel), Run.Succeeds.ok (by decide +kernel),
    Run.Succeeds.ok (by decide +kernel)⟩

end CommandContext

end Credis
