import Credis.FramingChecks
import Credis.WaitChecks

/-! The input of a client under any cut of its stream: what a read hands to the
handler, how far the handler gets, and what stays in the buffer. No command touches
the input buffer of a connection. -/

namespace Credis

open ByteString ChunkedStream ConnectionPool

variable {connection : Connection} {send logging : Bool} {fuel : Nat} {args : List Bytes}
  {held chunk : Bytes} {server : ServerState}

variable {commands : List (List Bytes)} {outcome : CallOutcome} {outputs : List ReadEffect}
  {rest fresh later : List Bytes} {begun input buffer : Bytes} {capacity : Nat}
  {pool : ConnectionPool}

def Connection.window (connection : Connection) : Bytes × Nat × Nat :=
  (connection.buffer, connection.capacity, connection.readPos)

namespace ConnectionPool

def window (pool : ConnectionPool) (fd : Fd) : Option (Bytes × Nat × Nat) :=
  (pool.find fd).map Connection.window

theorem window_some {fd : Fd} {readPos : Nat}
    (found : pool.window fd = some (buffer, capacity, readPos)) :
    ∃ connection, pool.find fd = some connection ∧ connection.buffer = buffer ∧
      connection.capacity = capacity ∧ connection.readPos = readPos := by
  obtain ⟨connection, here, same⟩ := Option.map_eq_some_iff.mp found
  cases same
  exact ⟨connection, here, rfl, rfl, rfl⟩

theorem window_modify (pool : ConnectionPool) (fd other : Fd) {change : Connection → Connection}
    (same : ∀ connection, (change connection).window = connection.window) :
    (pool.modify fd change).window other = pool.window other := by
  rw [window, window, find_modify]
  split
  · rename_i here
    rw [here, Option.map_map]
    congr 1
    funext connection
    exact same connection
  · rfl

theorem window_markDirty (pool : ConnectionPool) (fd other : Fd) :
    (pool.markDirty fd).window other = pool.window other := by
  obtain ⟨dirty, found⟩ := find_markDirty pool fd other
  rw [window, window, found, Option.map_map]
  rfl

theorem window_sendTo (pool : ConnectionPool) (fd other : Fd) (response : Bytes) :
    (pool.sendTo fd response).window other = pool.window other := by
  rw [sendTo, window_markDirty]
  exact window_modify pool fd other fun _ => rfl

theorem window_consume (pool : ConnectionPool) (fd other : Fd) (count : Nat) :
    (pool.consume fd count).window other =
      if other = fd then (pool.window fd).map fun view => (view.1, view.2.1, view.2.2 + count)
      else pool.window other := by
  rw [window, consume, find_modify]
  split
  · rw [window, Option.map_map, Option.map_map]
    rfl
  · rfl

end ConnectionPool

namespace CommandContext

def window (ctx : CommandContext) (fd : Fd) : Option (Bytes × Nat × Nat) :=
  ctx.connPool.bind fun pool => pool.window fd

variable (ctx : CommandContext) (fd other : Fd)

@[simp] theorem window_setTx (tx : TransactionState) :
    (ctx.setTx fd tx).window other = ctx.window other := by
  unfold setTx
  split
  · rename_i pool attached
    rw [window, window, attached]
    exact pool.window_modify fd other fun _ => rfl
  · rfl

@[simp] theorem window_clearTx : (ctx.clearTx fd).window other = ctx.window other := by
  unfold clearTx
  split
  · rename_i pool attached
    rw [window, window, attached]
    exact pool.window_modify fd other fun _ => rfl
  · rfl

@[simp] theorem window_markConnection :
    (ctx.markConnection fd).window other = ctx.window other := by
  unfold markConnection window
  cases ctx.connPool with
  | none => rfl
  | some pool => exact pool.window_modify fd other fun _ => rfl

@[simp] theorem window_setAuthenticated :
    (ctx.setAuthenticated fd).window other = ctx.window other := by
  unfold setAuthenticated
  split
  · exact window_markConnection ctx fd other
  · rfl

theorem session_window :
    Session fd fun before after => after.window other = before.window other where
  refl := fun _ => rfl
  trans := fun left right => right.trans left
  setTx := fun ctx tx => window_setTx ctx fd other tx
  clearTx := fun ctx => window_clearTx ctx fd other
  marks := fun ctx => window_markConnection ctx fd other
  authenticates := fun ctx => window_setAuthenticated ctx fd other
  handles := fun _ _ => rfl

theorem processLoop_window {ctx : CommandContext} {fd : Fd}
    (done : processLoop fd send fuel ctx input = .ok outcome) :
    outcome.ctx.window other = ctx.window other := by
  obtain ⟨requests, _, observations, -, ran, -⟩ := processLoop_run done
  have session := session_window fd other
  exact @Run.run_relates _ _ _ _ _ (fun before after => after.window other = before.window other)
    session.refl session.trans session.inputStep _ _ _ _ ran

theorem fetchOutput_window {ctx opened : CommandContext} {fd : Fd}
    (fetched : ctx.fetchOutput fd send = .ok opened) : opened.window other = ctx.window other := by
  unfold fetchOutput at fetched
  split at fetched
  · split at fetched
    · cases fetched
      rfl
    · rename_i pool attached
      split at fetched
      · cases fetched
        rw [window, window, attached]
        exact pool.window_markDirty fd other
      · cases fetched
  · cases fetched
    rfl

theorem processWithFd_window {ctx : CommandContext} {fd : Fd}
    (done : ctx.processWithFd fd send input = .ok outcome) :
    outcome.ctx.window other = ctx.window other := by
  unfold processWithFd at done
  split at done
  · cases done
  · rename_i opened fetched
    rw [processLoop_window other done, fetchOutput_window other fetched]

end CommandContext

namespace CommandContext

def loggedOf (logging : Bool) (fd : Fd) (commands : List (List Bytes)) : List Bytes :=
  if logging then writesOf (commands.map (Request.ofArgs fd)) else []

theorem loggedOf_append (logging : Bool) (fd : Fd) (first second : List (List Bytes)) :
    loggedOf logging fd (first ++ second) =
      loggedOf logging fd first ++ loggedOf logging fd second := by
  unfold loggedOf
  split
  · simp [writesOf]
  · rfl

variable {fd : Fd} {ctx : CommandContext}

theorem processLoop_command {rest : Bytes} (fits : Encodable args)
    (done : processLoop fd send (fuel + 1) ctx (encodeArray args ++ rest) = .ok outcome)
    (normal : outcome.state = .normal) :
    ∃ next effect later,
      inputStep fd send ctx (Request.ofArgs fd args) = .ok (next, ⟨.normal, effect⟩) ∧
      processLoop fd send fuel next rest = .ok later ∧ later.state = .normal ∧
      outcome = ⟨later.ctx, later.state, (encodeArray args).length + later.consumed,
        effect :: later.effects⟩ := by
  rw [processLoop, parseOneInto, parseCommand_encodeArray args rest fits.1 fits.2] at done
  simp only [List.take_left, List.drop_left] at done
  split at done
  · cases done
  · rename_i next effect stepped
    split at done
    · cases done
    rename_i later looped
    cases done
    exact ⟨next, effect, later, @inputStep_of_step _ _ _ (Request.ofArgs fd args) _ _ _ stepped,
      looped, normal, rfl⟩
  · rename_i next state effect stops stepped
    cases done
    exact absurd normal stops

theorem inputStep_logged {after : CommandContext} {observation : Observation}
    (done : inputStep fd send ctx (Request.ofArgs fd args) = .ok (after, observation)) :
    observation.effect.logged = loggedOf ctx.aofManager.isSome fd [args] := by
  obtain ⟨outcome, -, serves, -, rfl⟩ := inputStep_ok done
  rw [loggedOf]
  simp only [loggedBytes, serves.wiring.logging]
  cases ctx.aofManager.isSome with
  | false => simp
  | true =>
    cases write : isWriteCommand (Request.ofArgs fd args).name <;> simp [writesOf, write]

theorem processLoop_commands (fits : ∀ args ∈ commands, Encodable args)
    (enough : ((commands.map encodeArray).flatten ++ held).length ≤ fuel)
    (done : processLoop fd send fuel ctx ((commands.map encodeArray).flatten ++ held) =
      .ok outcome) (normal : outcome.state = .normal) :
    ∃ middle left effects tail, processLoop fd send left middle held = .ok tail ∧
      held.length ≤ left ∧ outcome.ctx = tail.ctx ∧
      outcome.consumed = (commands.map encodeArray).flatten.length + tail.consumed ∧
      outcome.effects = effects ++ tail.effects ∧ effects.length = commands.length ∧
      effects.flatMap Effect.logged = loggedOf ctx.aofManager.isSome fd commands ∧
      middle.aofManager.isSome = ctx.aofManager.isSome := by
  induction commands generalizing fuel ctx outcome with
  | nil =>
    refine ⟨ctx, fuel, [], outcome, done, by simpa using enough, rfl, by simp, rfl, rfl, ?_, rfl⟩
    simp [loggedOf, writesOf]
  | cons args commands ih =>
    have positive : 0 < (encodeArray args).length := by simp [encodeArray, arrayHeader]
    simp only [List.map_cons, List.flatten_cons, List.append_assoc] at done enough ⊢
    rw [List.length_append] at enough
    cases fuel with
    | zero => omega
    | succ fuel =>
      obtain ⟨next, effect, later, stepped, looped, ends, rfl⟩ :=
        processLoop_command (fits args List.mem_cons_self) done normal
      obtain ⟨middle, left, effects, tail, behind, room, same, consumed, every, count, logged,
        logging⟩ := ih (fun other member => fits other (List.mem_cons_of_mem _ member))
          (by omega) looped ends
      have wiring := (inputStep_wiring stepped).logging
      refine ⟨middle, left, effect :: effects, tail, behind, room, same, ?_, ?_, ?_, ?_, ?_⟩
      · dsimp only
        rw [consumed, List.length_append]
        omega
      · rw [every, List.cons_append]
      · rw [List.length_cons, List.length_cons, count]
      · have first := inputStep_logged stepped
        dsimp only at first
        rw [List.flatMap_cons, first, logged, wiring, ← loggedOf_append, List.singleton_append]
      · rw [logging, wiring]

end CommandContext

namespace Connection

def unread (connection : Connection) : Bytes := connection.buffer.drop connection.readPos

def grown (connection : Connection) : Nat :=
  if connection.unread.length = connection.capacity ∧ connection.capacity < maxBufferSize then
    connection.capacity * 2
  else connection.capacity

def received (connection : Connection) (chunk : Bytes) : Connection :=
  { connection with
    buffer := connection.unread ++ chunk
    capacity := connection.grown
    readPos := 0 }

theorem handleRead_fits (inside : connection.readPos ≤ connection.buffer.length)
    (filled : chunk ≠ [])
    (fits : chunk.length ≤ connection.grown - connection.unread.length) :
    connection.handleRead chunk =
      .ok (connection.received chunk, .some (connection.unread ++ chunk)) := by
  have compacted : connection.compact =
      .ok { connection with buffer := connection.unread, readPos := 0 } := by
    unfold compact unread
    split
    · rename_i start
      rw [start, List.drop_zero, ← start]
    · rw [if_neg (by omega)]
  have whole : chunk.take (connection.grown - connection.unread.length) = chunk :=
    List.take_of_length_le fits
  rw [handleRead, compacted]
  dsimp only
  rw [← grown, whole, if_neg filled]
  rfl

end Connection

theorem ConnectionPool.readFrom_fits (found : pool.find fd = some connection)
    (inside : connection.readPos ≤ connection.buffer.length) (filled : chunk ≠ [])
    (fits : chunk.length ≤ connection.grown - connection.unread.length) :
    ∃ after, pool.readFrom fd chunk = .ok (after, .some (connection.unread ++ chunk)) ∧
      after.find fd = .some (connection.received chunk) := by
  refine ⟨{ pool with connections := pool.connections.insert fd (connection.received chunk) },
    ?_, AList.lookup_insert _⟩
  rw [readFrom, found]
  dsimp only
  rw [Connection.handleRead_fits inside filled fits]

namespace ServerState

open CommandContext

def Takes (server : ServerState) (fd : Fd) (chunk : Bytes) : Prop :=
  chunk ≠ [] ∧ (server.pool.find fd).all (fun connection =>
    decide (connection.buffer.length < connection.readPos ∨
      chunk.length ≤ connection.grown - connection.unread.length)) = true

def Finishes (server : ServerState) (fd : Fd) (chunk : Bytes) : Prop :=
  match server.opens fd chunk with
  | none => True
  | some (ctx, data) =>
    Run.Succeeds (processLoop fd true data.length ctx data) fun outcome =>
      outcome.state = .normal

structure ReadEffect where
  commands : List (List Bytes)
  logged : List Bytes

def readEffect (server : ServerState) (fd : Fd) (chunk : Bytes) : ReadEffect :=
  match server.opens fd chunk with
  | none => ⟨[], []⟩
  | some (ctx, data) =>
    match processLoop fd true data.length ctx data with
    | .error _ => ⟨[], []⟩
    | .ok outcome =>
      ⟨(readCommands parseOneInto outcome.effects.length data).1, outcome.logged⟩

def readTurn (fd : Fd) (server : ServerState) (read : Time × Bytes) :
    Except Fault (ServerState × ReadEffect) :=
  match server.dispatchEvent read.1 fd ⟨read.2, none⟩ with
  | .error fault => .error fault
  | .ok (after, _) => .ok (after, server.readEffect fd read.2)

theorem window_sendAll (pool : ConnectionPool) (messages : List (Fd × Bytes)) (fd : Fd) :
    (sendAll pool messages).window fd = pool.window fd := by
  unfold sendAll
  induction messages generalizing pool with
  | nil => rfl
  | cons message messages ih => rw [List.foldl_cons, ih, window_sendTo]

theorem contains_dispatchPropagate (commands : List Bytes) (manager : ReplicaManager) (fd : Fd) :
    (dispatchPropagate commands manager).1.contains fd = manager.contains fd := by
  induction commands generalizing manager with
  | nil => rfl
  | cons raw commands ih =>
    rw [dispatchPropagate]
    exact ih (manager.propagate raw)

theorem Takes.fits (takes : server.Takes fd chunk) (found : server.pool.find fd = some connection)
    (inside : connection.readPos ≤ connection.buffer.length) :
    chunk.length ≤ connection.grown - connection.unread.length := by
  have room := takes.2
  simp only [found, Option.all_some, decide_eq_true_eq] at room
  omega

theorem opens_fits (found : server.pool.find fd = some connection)
    (inside : connection.readPos ≤ connection.buffer.length) (takes : server.Takes fd chunk) :
    ∃ ctx, server.opens fd chunk = some (ctx, connection.unread ++ chunk) ∧
      ctx.window fd = some (connection.unread ++ chunk, connection.grown, 0) ∧
      ctx.toHandlerState = server.context.toHandlerState := by
  have fits := takes.fits found inside
  obtain ⟨pool, read, here⟩ := readFrom_fits found inside takes.1 fits
  have present : pool.contains fd = true := by
    rw [ConnectionPool.contains, here]
    rfl
  have fetched : ({ server with pool := pool } : ServerState).context.fetchOutput fd true =
      .ok { server.context with connPool := .some (pool.markDirty fd) } := by
    simp only [fetchOutput, context, if_true, present]
  refine ⟨{ server.context with connPool := .some (pool.markDirty fd) }, ?_, ?_, rfl⟩
  · rw [opens, read]
    dsimp only
    rw [fetched]
  · rw [CommandContext.window, Option.bind_some, window_markDirty,
      ConnectionPool.window, here]
    rfl

theorem dispatchInput_window {server after : ServerState} {now : Time} {data : Bytes}
    {actions : List Action} {outcome : CallOutcome}
    (called : server.context.processWithFd fd true data = .ok outcome)
    (done : server.dispatchInput now fd data = .ok (after, actions)) (other : Fd) :
    after.pool.window other = if other = fd then
        (server.pool.window fd).map fun view => (view.1, view.2.1, view.2.2 + outcome.consumed)
      else server.pool.window other := by
  obtain ⟨attached, pooled, kept⟩ : ∃ attached, outcome.ctx.connPool = some attached ∧
      ∀ other, attached.window other = server.pool.window other := by
    obtain ⟨attached, pooled, -⟩ := (SameConnections.processWithFd called).pool rfl
    refine ⟨attached, pooled, fun other => ?_⟩
    have same := processWithFd_window other called
    rwa [CommandContext.window, pooled] at same
  rw [dispatchInput, called] at done
  cases done
  simp only [perform, withContext, pooled, Option.getD_some, window_sendAll,
    window_consume, kept]

theorem dispatchEvent_normal {data : Bytes} (now : Time) (client : server.IsClient fd)
    (opened : server.opens fd chunk = some (ctx, data))
    (window : ctx.window fd = some (buffer, capacity, 0))
    (called : processLoop fd true data.length ctx data = .ok outcome)
    (normal : outcome.state = .normal) :
    ∃ after actions, server.dispatchEvent now fd ⟨chunk, none⟩ = .ok (after, actions) ∧
      after.IsClient fd ∧ after.handler.aofManager = outcome.ctx.aofManager ∧
      after.pool.window fd = some (buffer, capacity, outcome.consumed) := by
  obtain ⟨pool, reading, fetching⟩ := opens_some opened
  have call : ({ server with pool := pool } : ServerState).context.processWithFd fd true data =
      .ok outcome := by
    rw [processWithFd, fetching]
    exact called
  have held : pool.window fd = some (buffer, capacity, 0) :=
    (fetchOutput_window fd fetching).symm.trans window
  obtain ⟨master, replica, listener⟩ := client
  rw [dispatchEvent_client ⟨master, replica, listener⟩, dispatchClient, reading]
  have views := fun after actions => @dispatchInput_window fd { server with pool := pool } after
    now data actions outcome call
  simp only [dispatchInput, call, normal, dispatchState] at views ⊢
  refine ⟨_, _, rfl, ⟨master, ?_, listener⟩, rfl, ?_⟩
  · rw [contains_dispatchPropagate]
    exact replica
  · rw [views _ _ rfl, if_pos rfl, held, Option.map_some, Nat.zero_add]

def WithinBuffer (server : ServerState) (fd : Fd) : Prop :=
  ∃ connection, server.pool.find fd = some connection ∧
    connection.readPos ≤ connection.buffer.length ∧
    connection.buffer.length ≤ connection.capacity

/-- The client has executed some commands, and the beginning of the next is all
that it has not consumed. -/
structure Following (fd : Fd) (logging : Bool) (commands : List (List Bytes))
    (server : ServerState) (outputs : List ReadEffect) (begun : Bytes) (rest : List Bytes) :
    Prop where
  client : server.IsClient fd
  logs : server.handler.aofManager.isSome = logging
  window : ∃ connection, server.pool.find fd = some connection ∧
    connection.readPos ≤ connection.buffer.length ∧
    connection.buffer.length ≤ connection.capacity ∧ connection.unread = begun
  executed : ∃ done ahead, commands = done ++ ahead ∧ rest = ahead.map encodeArray ∧
    outputs.flatMap ReadEffect.commands = done ∧
    outputs.flatMap ReadEffect.logged = loggedOf logging fd done

theorem readCommands_front (fits : ∀ args ∈ commands, Encodable args) :
    (readCommands parseOneInto commands.length
      ((commands.map encodeArray).flatten ++ held)).1 = commands := by
  induction commands with
  | nil => rfl
  | cons args commands ih =>
    obtain ⟨count, sizes⟩ := fits args List.mem_cons_self
    have read := parseCommand_encodeArray args ((commands.map encodeArray).flatten ++ held)
      count sizes
    have later := ih fun other member => fits other (List.mem_cons_of_mem _ member)
    rw [List.map_cons, List.flatten_cons, List.append_assoc, List.length_cons, readCommands,
      parseOneInto, read]
    simp only [List.drop_left, later]

theorem Following.call (following : Following fd logging commands server outputs begun rest)
    (takes : server.Takes fd chunk) (finishes : server.Finishes fd chunk) :
    ∃ ctx capacity outcome, server.opens fd chunk = some (ctx, begun ++ chunk) ∧
      ctx.window fd = some (begun ++ chunk, capacity, 0) ∧
      (begun ++ chunk).length ≤ capacity ∧ ctx.aofManager.isSome = logging ∧
      processLoop fd true (begun ++ chunk).length ctx (begun ++ chunk) = .ok outcome ∧
      outcome.state = .normal := by
  obtain ⟨connection, found, inside, room, rfl⟩ := following.window
  obtain ⟨ctx, opened, window, same⟩ := opens_fits found inside takes
  rw [Finishes, opened] at finishes
  obtain ⟨outcome, called, normal⟩ := finishes.ok
  refine ⟨ctx, connection.grown, outcome, opened, window, ?_, ?_, called, normal⟩
  · have fits := takes.fits found inside
    have positive := List.length_pos_iff.mpr takes.1
    rw [List.length_append]
    omega
  · rw [same]
    exact following.logs

theorem processLoop_early {consumed : Nat} (accepted : parseCommand input = .ok (args, consumed))
    (enough : input.length ≤ fuel) (done : processLoop fd send fuel ctx input = .ok outcome) :
    consumed ≤ outcome.consumed := by
  have positive := List.length_pos_iff.mpr (parseCommand_consumes accepted).1
  cases fuel with
  | zero => omega
  | succ fuel =>
    rw [processLoop, parseOneInto, accepted] at done
    dsimp only at done
    split at done
    · cases done
    · split at done
      · cases done
      · cases done
        exact Nat.le_add_right _ _
    · cases done
      exact Nat.le_refl _

theorem split_commands {ahead : List (List Bytes)}
    (parts : ahead.map encodeArray = fresh ++ later) :
    ∃ here there, ahead = here ++ there ∧ fresh = here.map encodeArray ∧
      later = there.map encodeArray := by
  obtain ⟨here, there, rfl, first, second⟩ := List.map_eq_append_iff.mp parts
  exact ⟨here, there, rfl, first.symm, second.symm⟩

theorem Following.withinBuffer
    (following : Following fd logging commands server outputs begun rest) :
    server.WithinBuffer fd := by
  obtain ⟨connection, found, inside, room, -⟩ := following.window
  exact ⟨connection, found, inside, room⟩

section

variable {fd : Fd} {now : Time} (named : ∀ args ∈ commands, args ≠ [])
  (fits : ∀ args ∈ commands, Encodable args)
  (following : Following fd logging commands server outputs begun rest)
  (takes : server.Takes fd chunk) (finishes : server.Finishes fd chunk)
  (parts : rest = fresh ++ later) (arrived : begun ++ chunk = fresh.flatten ++ held)
  (begins : Begins held later)
include named fits following takes finishes parts arrived begins

theorem Following.read
    (cut : missing later held.length = 0 ∨ 2 < missing later held.length) :
    ∃ next output, readTurn fd server (now, chunk) = .ok (next, output) ∧
      Following fd logging commands next (outputs ++ [output]) held later := by
  obtain ⟨ctx, capacity, outcome, opened, window, room, logs, called, normal⟩ :=
    following.call takes finishes
  obtain ⟨done, ahead, rfl, rfl, executed, logged⟩ := following.executed
  obtain ⟨here, there, rfl, rfl, rfl⟩ := split_commands parts
  have effect : server.readEffect fd chunk =
      ⟨(readCommands parseOneInto outcome.effects.length (begun ++ chunk)).1, outcome.logged⟩ := by
    rw [readEffect, opened]
    dsimp only
    rw [called]
  obtain ⟨after, actions, dispatched, client, log, moved⟩ :=
    dispatchEvent_normal now following.client opened window called normal
  generalize begun ++ chunk = data at opened room called arrived effect moved
  subst arrived
  have ours : ∀ args ∈ here, Encodable args := fun args member => fits args (by simp [member])
  obtain ⟨middle, left, effects, tail, behind, -, same, consumed, every, count, log', kept⟩ :=
    processLoop_commands ours (Nat.le_refl _) called normal
  have texts : ∀ text ∈ there.map encodeArray, IsCommand text :=
    List.forall_mem_map.mpr fun args inside =>
      isCommand_encodeArray (named args (by simp [inside])) (fits args (by simp [inside]))
  rw [processLoop_waits (parse_waits texts begins cut)] at behind
  cases behind
  rw [show outcome.consumed = (here.map encodeArray).flatten.length from consumed] at moved
  rw [List.append_nil] at every
  rw [every, count, readCommands_front ours] at effect
  refine ⟨after, server.readEffect fd chunk, by rw [readTurn, dispatched], client, ?_, ?_, ?_⟩
  · rw [log, same, kept, logs]
  · obtain ⟨connection, found, buffer, size, position⟩ := window_some moved
    refine ⟨connection, found, ?_, ?_, ?_⟩
    · rw [position, buffer, List.length_append]
      omega
    · rw [buffer, size]
      exact room
    · rw [Connection.unread, buffer, position, List.drop_left]
  · refine ⟨done ++ here, there, by simp, rfl, ?_, ?_⟩
    · rw [List.flatMap_append, executed, effect, List.flatMap_singleton]
    · rw [List.flatMap_append, logged, effect, List.flatMap_singleton, CallOutcome.logged, every,
        log', logs, ← loggedOf_append]

variable (now) in
theorem Following.overrun (positive : 0 < missing later held.length)
    (few : missing later held.length ≤ 2) :
    ∃ next output, readTurn fd server (now, chunk) = .ok (next, output) ∧
      ¬ next.WithinBuffer fd := by
  obtain ⟨ctx, capacity, outcome, opened, window, -, -, called, normal⟩ :=
    following.call takes finishes
  obtain ⟨done, ahead, rfl, rfl, -, -⟩ := following.executed
  obtain ⟨here, there, rfl, rfl, rfl⟩ := split_commands parts
  obtain ⟨after, actions, dispatched, -, -, moved⟩ :=
    dispatchEvent_normal now following.client opened window called normal
  generalize begun ++ chunk = data at called arrived moved
  subst arrived
  obtain ⟨middle, left, effects, tail, behind, enough, -, consumed, -⟩ :=
    processLoop_commands (fun args member => fits args (by simp [member])) (Nat.le_refl _) called
      normal
  have texts : ∀ text ∈ there.map encodeArray, IsCommand text :=
    List.forall_mem_map.mpr fun args inside =>
      isCommand_encodeArray (named args (by simp [inside])) (fits args (by simp [inside]))
  obtain ⟨args, length, accepted, further⟩ := parse_early texts begins positive few
  have beyond := processLoop_early accepted enough behind
  refine ⟨after, server.readEffect fd chunk, by rw [readTurn, dispatched], ?_⟩
  rintro ⟨connection, found, inside, -⟩
  obtain ⟨same, found', buffer, -, position⟩ := window_some moved
  rw [found] at found'
  cases found'
  rw [buffer, position, consumed, List.length_append] at inside
  omega

end

theorem run_following {server : ServerState} {commands : List (List Bytes)}
    {reads : List (Time × Bytes)} {later : Bytes} (client : server.IsClient fd)
    (idle : ∃ connection, server.pool.find fd = some connection ∧
      connection.readPos = connection.buffer.length ∧
      connection.buffer.length ≤ connection.capacity) (named : ∀ args ∈ commands, args ≠ [])
    (fits : ∀ args ∈ commands, Encodable args)
    (stream : (reads.map Prod.snd).flatten ++ later = (commands.map encodeArray).flatten)
    (meets : Run.Along (readTurn fd)
      (fun server read => server.Takes fd read.2 ∧ server.Finishes fd read.2) server reads)
    (well : CutWell 2 (commands.map encodeArray) 0 (reads.map Prod.snd)) :
    ∃ last outputs fresh held ahead, Run.run (readTurn fd) server reads = .ok (last, outputs) ∧
      Following fd server.handler.aofManager.isSome commands last outputs held ahead ∧
      commands.map encodeArray = fresh ++ ahead ∧
      (reads.map Prod.snd).flatten = fresh.flatten ++ held ∧ Begins held ahead := by
  have start : Following fd server.handler.aofManager.isSome commands server [] []
      (commands.map encodeArray) := by
    obtain ⟨connection, found, finish, room⟩ := idle
    refine ⟨client, rfl, ⟨connection, found, Nat.le_of_eq finish, room, ?_⟩,
      [], commands, rfl, rfl, rfl, ?_⟩
    · rw [Connection.unread, finish, List.drop_length]
    · simp [loggedOf, writesOf]
  exact run_synced (Following fd server.handler.aofManager.isSome commands)
    (fun state outputs begun rest fresh read held ahead following condition parts arrived begins
        cut =>
      following.read named fits condition.1 condition.2 parts arrived begins cut)
    (encoded_ne_nil commands) start (begins_nil (encoded_ne_nil commands)) stream meets well

theorem run_encodable {last : ServerState} {reads : List (Time × Bytes)}
    (ran : Run.run (readTurn fd) server reads = .ok (last, outputs)) :
    ∀ args ∈ outputs.flatMap ReadEffect.commands, Encodable args := by
  induction reads generalizing server outputs with
  | nil =>
    cases ran
    simp
  | cons read reads ih =>
    obtain ⟨next, output, later, taken, rest, rfl⟩ := Run.run_cons ran
    intro args member
    rcases List.mem_append.mp member with here | there
    · unfold readTurn at taken
      split at taken
      · cases taken
      cases taken
      unfold readEffect at here
      split at here
      · cases here
      · split at here
        · cases here
        · exact readCommands_encodable args here
    · exact ih rest args there

/-- The stream of a client is executed command by command, and its buffer stays in
order, exactly when the parser can hold every count in an `int` and no read ends one
or two bytes before the end of a command. -/
theorem client_input_insensitive_iff {fd : Fd} {server : ServerState}
    {commands : List (List Bytes)} {reads : List (Time × Bytes)} (client : server.IsClient fd)
    (idle : ∃ connection, server.pool.find fd = some connection ∧
      connection.readPos = connection.buffer.length ∧
      connection.buffer.length ≤ connection.capacity)
    (named : ∀ args ∈ commands, args ≠ [])
    (stream : (reads.map Prod.snd).flatten = commands.flatMap encodeArray)
    (meets : Run.Along (readTurn fd)
      (fun server read => server.Takes fd read.2 ∧ server.Finishes fd read.2) server reads) :
    (∃ last outputs, Run.run (readTurn fd) server reads = .ok (last, outputs) ∧
        outputs.flatMap ReadEffect.commands = commands ∧
        outputs.flatMap ReadEffect.logged =
          loggedOf server.handler.aofManager.isSome fd commands ∧
        (∀ earlier later middle early, reads = earlier ++ later →
          Run.run (readTurn fd) server earlier = .ok (middle, early) → middle.WithinBuffer fd) ∧
        ∃ connection, last.pool.find fd = some connection ∧
          connection.readPos = connection.buffer.length) ↔
      (∀ args ∈ commands, Encodable args) ∧
        CutWell 2 (commands.map encodeArray) 0 (reads.map Prod.snd) := by
  rw [List.flatMap_def] at stream
  constructor
  · rintro ⟨last, outputs, ran, executed, -, bounded, -⟩
    have fits : ∀ args ∈ commands, Encodable args := by
      rw [← executed]
      exact run_encodable ran
    refine ⟨fits, ?_⟩
    by_contra bad
    -- up to the first bad cut the reads are in step, and there the position overruns
    obtain ⟨earlier, read, later, rfl, well, short, few⟩ := exists_badly_cut bad
    have cut : (earlier.map Prod.snd).flatten ++ (read.2 ++ (later.map Prod.snd).flatten) =
        (commands.map encodeArray).flatten := by
      rw [← stream]
      simp
    obtain ⟨middle, early, done, begun, rest, before, following, parts, sofar, -⟩ :=
      run_following client idle named fits cut meets.front well
    obtain ⟨takes, finishes⟩ := (meets.behind before).1
    obtain ⟨fresh, held, ahead, rfl, arrived, begins, -, left⟩ :=
      split_chunk (encoded_ne_nil commands) parts sofar cut
    rw [Nat.zero_add, List.map_append, List.map_cons, List.map_nil, List.flatten_concat,
      left] at short few
    obtain ⟨next, output, taken, outside⟩ := following.overrun read.1 named fits takes finishes
      rfl arrived begins short few
    have upto : Run.run (readTurn fd) middle [read] = .ok (next, [output]) := by
      simp only [Run.run, taken]
    exact outside (bounded (earlier ++ [read]) later next _ (by simp) (Run.run_join before upto))
  · rintro ⟨fits, well⟩
    obtain ⟨last, outputs, done, held, rest, ran, following, parts, arrived, begins⟩ :=
      @run_following _ _ _ _ [] client idle named fits (by rw [List.append_nil, stream]) meets well
    rw [stream, parts, List.flatten_append, List.append_cancel_left_eq] at arrived
    obtain ⟨rfl, rfl⟩ := begins.complete arrived.symm
    obtain ⟨throughout, nothing, complete, absent, executed, logged⟩ := following.executed
    cases List.map_eq_nil_iff.mp absent.symm
    rw [List.append_nil] at complete
    subst complete
    refine ⟨last, outputs, ran, executed, logged, ?_, ?_⟩
    · rintro earlier later middle early rfl before
      rw [List.map_append] at stream well
      obtain ⟨reached, seen, _, _, _, ran', upto, -⟩ :=
        @run_following _ _ _ earlier (later.map Prod.snd).flatten client idle named fits
          (by rw [← stream, List.flatten_append]) meets.front well.front
      cases before.symm.trans ran'
      exact upto.withinBuffer
    · obtain ⟨connection, found, inside, -, unread⟩ := following.window
      refine ⟨connection, found, Nat.le_antisymm inside ?_⟩
      exact List.drop_eq_nil_iff.mp unread

instance (server : ServerState) (fd : Fd) (chunk : Bytes) : Decidable (server.Takes fd chunk) :=
  inferInstanceAs (Decidable (_ ∧ _))

instance (server : ServerState) (fd : Fd) (chunk : Bytes) :
    Decidable (server.Finishes fd chunk) := by
  unfold Finishes
  split <;> infer_instance

def withClient : ServerState :=
  { plain with
    handler := { plain.handler with
      aofManager := some { AofManager.initial with appendonly := ascii "yes" } }
    pool := plain.pool.add 5 }

theorem client_sends_write_and_read :
    ∃ last outputs, Run.run (readTurn 5) withClient
        [(0, (encodeArray [ascii "SET", ascii "k", ascii "v"]).take 6),
          (1, (encodeArray [ascii "SET", ascii "k", ascii "v"]).drop 6),
          (2, encodeArray [ascii "GET", ascii "k"])] = .ok (last, outputs) ∧
      outputs.flatMap ReadEffect.commands =
        [[ascii "SET", ascii "k", ascii "v"], [ascii "GET", ascii "k"]] := by
  have client : withClient.IsClient 5 := by
    refine ⟨?_, by decide, by decide⟩
    intro connector attached
    cases attached
  obtain ⟨last, outputs, ran, executed, -⟩ :=
    (@client_input_insensitive_iff 5 withClient
      [[ascii "SET", ascii "k", ascii "v"], [ascii "GET", ascii "k"]]
      [(0, (encodeArray [ascii "SET", ascii "k", ascii "v"]).take 6),
        (1, (encodeArray [ascii "SET", ascii "k", ascii "v"]).drop 6),
        (2, encodeArray [ascii "GET", ascii "k"])] client
      ⟨Connection.fresh, rfl, rfl, by decide⟩ (by decide) (by decide +kernel)
      (by decide +kernel)).mpr ⟨by decide, by decide +kernel⟩
  exact ⟨last, outputs, ran, executed⟩

/-- The read ends inside the last line end: the read position is behind the data,
the log gets a torn command, and the next read underflows. -/
theorem read_inside_line_end_overruns :
    Run.Succeeds
      (withClient.readTurn 5 (0, (encodeArray [ascii "SET", ascii "k", ascii "v"]).dropLast))
      (fun result =>
        result.2.logged = [(encodeArray [ascii "SET", ascii "k", ascii "v"]).dropLast] ∧
        (result.1.pool.find 5).map (fun connection =>
          (connection.readPos, connection.buffer.length)) = some (27, 26) ∧
        (result.1.readTurn 5 (1, [10])).toOption.isNone = true) := by
  decide +kernel

end ServerState

end Credis
