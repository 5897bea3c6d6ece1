import Credis.CommandCore

/-! `CommandHandler`: the gates in front of a command, the transactions, and the
loop over the commands of one input. Replies are returned rather than written
into the output buffer of the connection, which no handler reads. -/

namespace Credis

open ByteString

structure CommandContext extends HandlerState where
  connPool : Option ConnectionPool
  transactions : AList fun _ : Fd => TransactionState
  authenticatedFds : List Fd

structure CommandOutcome where
  ctx : CommandContext
  result : ProcessState
  reply : Bytes
  sends : List (Fd × Bytes)

namespace CommandContext

variable (ctx : CommandContext) (fd : Fd) (send : Bool) (args : List Bytes)

def fresh (store : Store) (config : ServerConfig) (clock : Nat → Instant) (forks : Nat → Bool) :
    CommandContext where
  store := store
  config := config
  aofManager := none
  blockingManager := none
  pubsubManager := none
  aclManager := AclManager.initial
  replicaCount := none
  offset := none
  clock := clock
  forks := forks
  ticks := 0
  connPool := none
  transactions := ∅
  authenticatedFds := []

def replied (reply : Bytes) : CommandOutcome := ⟨ctx, .normal, reply, []⟩

/-! The state of one connection lives in the pool when there is one, and in the
context otherwise. -/

def hasConnection : Bool :=
  ctx.connPool.all fun pool => pool.contains fd

def isAuthenticated : Bool :=
  match ctx.connPool with
  | some pool => (pool.find fd).any Connection.authenticated
  | none => decide (fd ∈ ctx.authenticatedFds)

def markConnection : CommandContext :=
  { ctx with connPool := ctx.connPool.map fun pool =>
      pool.modify fd fun connection => { connection with authenticated := true } }

def setAuthenticated : CommandContext :=
  match ctx.connPool with
  | some _ => ctx.markConnection fd
  | none => { ctx with authenticatedFds := ctx.authenticatedFds.insert fd }

def tx : Option TransactionState :=
  match ctx.connPool with
  | some pool => (pool.find fd).bind Connection.tx
  | none => ctx.transactions.lookup fd

def setTx (tx : TransactionState) : CommandContext :=
  match ctx.connPool with
  | some pool =>
    { ctx with connPool := some (pool.modify fd fun connection =>
        { connection with tx := some tx }) }
  | none => { ctx with transactions := ctx.transactions.insert fd tx }

def clearTx : CommandContext :=
  match ctx.connPool with
  | some pool =>
    { ctx with connPool := some (pool.modify fd fun connection =>
        { connection with tx := none }) }
  | none => { ctx with transactions := ctx.transactions.erase fd }

def txInMulti : Bool := (ctx.tx fd).any TransactionState.inMulti

def txGet : TransactionState :=
  (ctx.tx fd).getD TransactionState.fresh

/-! The gates. -/

def subscribedAllowed : List Bytes :=
  [ascii "SUBSCRIBE", ascii "UNSUBSCRIBE", ascii "PSUBSCRIBE", ascii "PUNSUBSCRIBE",
    ascii "PING", ascii "QUIT", ascii "RESET"]

def subscribedReply (cmd : Bytes) : Bytes :=
  encodeError (ascii "ERR Can't execute '" ++ cmd ++ ascii "' in subscribed mode")

def noauthReply : Bytes := errorReply "NOAUTH Authentication required."

inductive Gate
  | rejected (reply : Bytes)
  | admitted (ctx : CommandContext)

def gate (cmd : Bytes) : Except Fault Gate :=
  if ctx.isSubscribed fd = true ∧ cmd ∉ subscribedAllowed then
    .ok (.rejected (subscribedReply cmd))
  else if ctx.hasConnection fd = false then .error .missingConnection
  else if cmd = ascii "AUTH" ∨ ctx.isAuthenticated fd = true then .ok (.admitted ctx)
  else if ctx.aclManager.defaultNopass then .ok (.admitted (ctx.setAuthenticated fd))
  else .ok (.rejected noauthReply)

def execute (cmd : Bytes) : Except Fault CommandOutcome :=
  match executeCommand ctx.toHandlerState fd send args cmd with
  | .error fault => .error fault
  | .ok outcome =>
    let handled : CommandContext := { ctx with toHandlerState := outcome.state }
    .ok ⟨if outcome.authenticated then handled.markConnection fd else handled,
      outcome.result, outcome.reply, outcome.sends⟩

/-! Transactions. -/

def multi : CommandOutcome :=
  if ctx.txInMulti fd then ctx.replied (errorReply "ERR MULTI calls can not be nested")
  else (ctx.setTx fd { ctx.txGet fd with inMulti := true }).replied respOk

def isDirty (store : Store) (tx : TransactionState) : Bool :=
  tx.watchedKeys.entries.any fun item => store.getKeyVersion item.1 != item.2

def notAllowedReply : Bytes := errorReply "ERR command in EXEC not allowed"

/-- The loop over the queued commands, with their replies and what they send.
The name of each is its first argument as it was queued. -/
def execQueued (fd : Fd) (send : Bool) :
    List (List Bytes) → CommandContext →
      Except Fault (CommandContext × List Bytes × List (Fd × Bytes))
  | [], ctx => .ok (ctx, [], [])
  | [] :: _, _ => .error .argumentIndex
  | (cmd :: args) :: rest, ctx =>
    match ctx.execute fd send (cmd :: args) cmd with
    | .error fault => .error fault
    | .ok outcome =>
      match execQueued fd send rest outcome.ctx with
      | .error fault => .error fault
      | .ok (ctx, replies, sends) =>
        .ok (ctx,
          (if outcome.result = .normal then outcome.reply else notAllowedReply) :: replies,
          outcome.sends ++ sends)

def exec : Except Fault CommandOutcome :=
  if ctx.txInMulti fd = false then .ok (ctx.replied (errorReply "ERR EXEC without MULTI"))
  else if isDirty ctx.store (ctx.txGet fd) then .ok ((ctx.clearTx fd).replied encodeNullArray)
  else
    match execQueued fd send (ctx.txGet fd).queuedCommands ctx with
    | .error fault => .error fault
    | .ok (ctx, replies, sends) =>
      .ok ⟨ctx.clearTx fd, .normal, encodeRawArray replies, sends⟩

def discard : CommandOutcome :=
  if ctx.txInMulti fd = false then ctx.replied (errorReply "ERR DISCARD without MULTI")
  else (ctx.clearTx fd).replied respOk

def watchKeys (store : Store) (tx : TransactionState) (keys : List Key) : TransactionState :=
  keys.foldl (fun tx key =>
    { tx with watchedKeys := tx.watchedKeys.insert key (store.getKeyVersion key) }) tx

def watch (ctx : CommandContext) (fd : Fd) (args : List Bytes) : CommandOutcome :=
  if args.length < 2 then
    ctx.replied (errorReply "ERR wrong number of arguments for 'watch' command")
  else if ctx.txInMulti fd then ctx.replied (errorReply "ERR WATCH inside MULTI is not allowed")
  else (ctx.setTx fd (watchKeys ctx.store (ctx.txGet fd) (args.drop 1))).replied respOk

def unwatch : CommandOutcome :=
  match ctx.tx fd with
  | some tx => (ctx.setTx fd { tx with watchedKeys := ∅ }).replied respOk
  | none => ctx.replied respOk

def queueCommand : CommandOutcome :=
  let tx := ctx.txGet fd
  (ctx.setTx fd { tx with queuedCommands := tx.queuedCommands ++ [args] }).replied respQueued

def processAdmitted (cmd : Bytes) : Except Fault CommandOutcome :=
  if cmd = ascii "MULTI" then .ok (ctx.multi fd)
  else if cmd = ascii "EXEC" then ctx.exec fd send
  else if cmd = ascii "DISCARD" then .ok (ctx.discard fd)
  else if cmd = ascii "WATCH" then .ok (ctx.watch fd args)
  else if cmd = ascii "UNWATCH" then .ok (ctx.unwatch fd)
  else if ctx.txInMulti fd then .ok (ctx.queueCommand fd args)
  else ctx.execute fd send args cmd

def processSingleCommand (cmd : Bytes) : Except Fault CommandOutcome :=
  if args = [] then .ok (ctx.replied (errorReply "ERR empty command"))
  else
    match ctx.gate fd cmd with
    | .error fault => .error fault
    | .ok (.rejected reply) => .ok (ctx.replied reply)
    | .ok (.admitted ctx) => ctx.processAdmitted fd send args cmd

/-! The loop over the input. -/

/-- What `process_with_fd` does behind a command: a command with the name of a
write is appended to the log as it stands in the input. -/
def logCommand (cmd raw : Bytes) : CommandContext :=
  if isWriteCommand cmd then
    { ctx with aofManager := ctx.aofManager.map fun manager =>
        (manager.append raw).appendToRewriteBuffer raw }
  else ctx

def loggedBytes (cmd raw : Bytes) : List Bytes :=
  if isWriteCommand cmd = true ∧ ctx.aofManager.isSome = true then [raw] else []

def propagatedCommands (cmd raw : Bytes) : List Bytes :=
  if isWriteCommand cmd = true ∧ ctx.replicaCount.any (0 < ·) = true then [raw] else []

structure Effect where
  propagated : List Bytes
  logged : List Bytes
  reply : Bytes
  sends : List (Fd × Bytes)

def step (raw : Bytes) : Except Fault (CommandContext × ProcessState × Effect) :=
  match args with
  | [] => .error .argumentIndex
  | name :: _ =>
    match ctx.processSingleCommand fd send args (toUpper name) with
    | .error fault => .error fault
    | .ok outcome =>
      .ok (outcome.ctx.logCommand (toUpper name) raw, outcome.result,
        ⟨outcome.ctx.propagatedCommands (toUpper name) raw,
          outcome.ctx.loggedBytes (toUpper name) raw, outcome.reply, outcome.sends⟩)

structure CallOutcome where
  ctx : CommandContext
  state : ProcessState
  consumed : Nat
  effects : List Effect

/-- The loop of `process_with_fd`. Every command takes at least one byte, so the
length of the input bounds the turns. -/
def processLoop (fd : Fd) (send : Bool) : Nat → CommandContext → Bytes → Except Fault CallOutcome
  | 0, ctx, _ => .ok ⟨ctx, .normal, 0, []⟩
  | fuel + 1, ctx, input =>
    match parseOneInto input with
    | .error _ => .ok ⟨ctx, .normal, 0, []⟩
    | .ok (args, length) =>
      match ctx.step fd send args (input.take length) with
      | .error fault => .error fault
      | .ok (ctx, .normal, effect) =>
        match processLoop fd send fuel ctx (input.drop length) with
        | .error fault => .error fault
        | .ok rest =>
          .ok ⟨rest.ctx, rest.state, length + rest.consumed, effect :: rest.effects⟩
      | .ok (ctx, state, effect) => .ok ⟨ctx, state, length, [effect]⟩

/-- With a callback and a pool the output buffer of the connection is fetched
first, which marks the connection. -/
def fetchOutput : Except Fault CommandContext :=
  if send then
    match ctx.connPool with
    | none => .ok ctx
    | some pool =>
      if pool.contains fd then .ok { ctx with connPool := some (pool.markDirty fd) }
      else .error .missingConnection
  else .ok ctx

def processWithFd (input : Bytes) : Except Fault CallOutcome :=
  match ctx.fetchOutput fd send with
  | .error fault => .error fault
  | .ok ctx => processLoop fd send input.length ctx input

def process (input : Bytes) : Except Fault (CommandContext × Bytes) :=
  (ctx.processWithFd (-1) false input).map fun outcome =>
    (outcome.ctx, outcome.effects.flatMap Effect.reply)

namespace CallOutcome

variable (outcome : CallOutcome)

def propagateCmds : List Bytes := outcome.effects.flatMap Effect.propagated

def logged : List Bytes := outcome.effects.flatMap Effect.logged

def replies : List Bytes := outcome.effects.map Effect.reply

/-- What the call sends, in order. With a pool each reply goes to the connection
at once, without one all replies go in one piece behind the rest. -/
def outputs (fd : Fd) : List (Fd × Bytes) :=
  match outcome.ctx.connPool with
  | some _ => outcome.effects.flatMap fun effect => effect.sends ++ [(fd, effect.reply)]
  | none =>
    let replies := outcome.effects.flatMap Effect.reply
    outcome.effects.flatMap Effect.sends ++ if replies = [] then [] else [(fd, replies)]

end CallOutcome

end CommandContext

end Credis
