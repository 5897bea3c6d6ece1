import Credis.DispatchChecks

/-! What a step does to the transactions of the connections. -/

namespace Credis

open ByteString ConnectionPool

variable {ctx admitted : CommandContext}

variable {next after live : CommandContext} {output : Option Observation}
  {queue : List (List Bytes)} {other fd : Fd} {request : Request} {replies : List Bytes}
  {events : List Event} {event : Event} {sends : List (Fd × Bytes)}
  {observations : List (Option Observation)}

namespace CommandContext

theorem execQueued_cons {send : Bool} {args : List Bytes}
    {result : CommandContext × List Bytes × List (Fd × Bytes)}
    (done : execQueued fd send (args :: queue) ctx = .ok result) :
    ∃ cmd rest, args = cmd :: rest ∧ ∃ outcome final replies sends,
      ctx.execute fd send (cmd :: rest) cmd = .ok outcome ∧
      execQueued fd send queue outcome.ctx = .ok (final, replies, sends) ∧
      result = (final,
        (if outcome.result = .normal then outcome.reply else notAllowedReply) :: replies,
        outcome.sends ++ sends) := by
  cases args with
  | nil => cases done
  | cons cmd rest =>
    unfold execQueued at done
    split at done
    · cases done
    rename_i outcome executed
    split at done
    · cases done
    · rename_i final later others more
      cases done
      exact ⟨cmd, rest, rfl, outcome, final, later, others, executed, more, rfl⟩

inductive Worked (clock : Nat → Instant) (before : Store) : Store → Prop
  | refl : Worked clock before before
  | works {middle after : Store} (tick : Nat) : Worked clock before middle →
      Store.Works (fun _ => True) (clock tick) middle after → Worked clock before after

theorem Worked.trans {clock : Nat → Instant} {first second third : Store}
    (left : Worked clock first second) (right : Worked clock second third) :
    Worked clock first third := by
  induction right with
  | refl => exact left
  | works tick _ works ih => exact .works tick ih works

@[simp] theorem watchKeys_queuedCommands (store : Store) (tx : TransactionState)
    (keys : List Key) : (watchKeys store tx keys).queuedCommands = tx.queuedCommands := by
  unfold watchKeys
  induction keys generalizing tx with
  | nil => rfl
  | cons key keys ih => rw [List.foldl_cons, ih]

@[simp] theorem watchKeys_inMulti (store : Store) (tx : TransactionState) (keys : List Key) :
    (watchKeys store tx keys).inMulti = tx.inMulti := by
  unfold watchKeys
  induction keys generalizing tx with
  | nil => rfl
  | cons key keys ih => rw [List.foldl_cons, ih]

def passes (ctx : CommandContext) (request : Request) : Bool :=
  match ctx.gate request.fd request.name with
  | .ok (.admitted _) => true
  | _ => false

theorem passes_admitted {ctx : CommandContext} {request : Request}
    (passed : ctx.passes request = true) :
    ∃ admitted, ctx.gate request.fd request.name = .ok (.admitted admitted) := by
  unfold passes at passed
  split at passed
  · rename_i admitted gated
    exact ⟨admitted, gated⟩
  · cases passed

inductive TxStep (ctx : CommandContext) (fd : Fd) (args : List Bytes) (cmd : Bytes) :
    Option TransactionState → Prop
  | same : TxStep ctx fd args cmd (ctx.tx fd)
  | begun {admitted : CommandContext} : ctx.gate fd cmd = .ok (.admitted admitted) →
      cmd = ascii "MULTI" →
      TxStep ctx fd args cmd (some { ctx.txGet fd with inMulti := true })
  | ended : cmd = ascii "EXEC" ∨ cmd = ascii "DISCARD" → TxStep ctx fd args cmd none
  | watched : cmd = ascii "WATCH" →
      TxStep ctx fd args cmd (some (watchKeys ctx.store (ctx.txGet fd) (args.drop 1)))
  | unwatched : cmd = ascii "UNWATCH" →
      TxStep ctx fd args cmd (some { ctx.txGet fd with watchedKeys := ∅ })
  | queued {admitted : CommandContext} : ctx.gate fd cmd = .ok (.admitted admitted) →
      cmd ∉ controlCommands → ctx.txInMulti fd = true →
      TxStep ctx fd args cmd
        (some { ctx.txGet fd with queuedCommands := (ctx.txGet fd).queuedCommands ++ [args] })

section Steps

variable {ctx : CommandContext} {fd : Fd} {send : Bool} {args : List Bytes} {cmd : Bytes}
  {outcome : CommandOutcome}

section

variable (passed : ctx.gate fd cmd = .ok (.admitted admitted))

include passed

theorem gate_txGet (other : Fd) : admitted.txGet other = ctx.txGet other := by
  rw [txGet, gate_tx passed, txGet]

theorem gate_txInMulti (other : Fd) : admitted.txInMulti other = ctx.txInMulti other := by
  rw [txInMulti, gate_tx passed, txInMulti]

theorem gate_store : admitted.store = ctx.store := by
  rw [gate_toHandlerState passed]

theorem gate_hasConnection : admitted.hasConnection fd = true := by
  obtain ⟨same | marked, connected, -⟩ := gate_admitted passed
  · rwa [same]
  · rwa [marked, setAuthenticated_hasConnection]

end

theorem exec_ok (done : ctx.exec fd send = .ok outcome) :
    (ctx.txInMulti fd = false ∧ outcome = ctx.replied (errorReply "ERR EXEC without MULTI")) ∨
      (isDirty ctx.store (ctx.txGet fd) = true ∧
        outcome = (ctx.clearTx fd).replied encodeNullArray) ∨
      ∃ final replies sends, ctx.txInMulti fd = true ∧
        isDirty ctx.store (ctx.txGet fd) = false ∧
        execQueued fd send (ctx.txGet fd).queuedCommands ctx = .ok (final, replies, sends) ∧
        outcome = ⟨final.clearTx fd, .normal, encodeRawArray replies, sends⟩ := by
  unfold exec at done
  split at done
  · rename_i outside
    cases done
    exact .inl ⟨outside, rfl⟩
  rename_i inside
  split at done
  · rename_i dirty
    cases done
    exact .inr (.inl ⟨dirty, rfl⟩)
  rename_i clean
  split at done
  · cases done
  rename_i ran
  cases done
  exact .inr (.inr ⟨_, _, _, by simpa using inside, by simpa using clean, ran, rfl⟩)

theorem Serves.tx_step (serves : Serves ctx fd send args cmd outcome) :
    TxStep ctx fd args cmd (outcome.ctx.tx fd) := by
  cases serves with
  | rejected _ => exact .same
  | multi passed name =>
    rename_i admitted
    unfold CommandContext.multi
    split
    · rw [replied, gate_tx passed]
      exact .same
    · rw [replied, tx_setTx _ _ _ (gate_hasConnection passed), gate_txGet passed]
      exact .begun passed name
  | exec passed name done =>
    rcases exec_ok done with ⟨-, rfl⟩ | ⟨-, rfl⟩ | ⟨final, _, _, -, -, -, rfl⟩
    · rw [replied, gate_tx passed]
      exact .same
    · rw [replied, tx_clearTx]
      exact .ended (.inl name)
    · rw [tx_clearTx]
      exact .ended (.inl name)
  | discard passed name =>
    unfold CommandContext.discard
    split
    · rw [replied, gate_tx passed]
      exact .same
    · rw [replied, tx_clearTx]
      exact .ended (.inr name)
  | watch passed name =>
    unfold CommandContext.watch
    split
    · rw [replied, gate_tx passed]
      exact .same
    split
    · rw [replied, gate_tx passed]
      exact .same
    · rw [replied, tx_setTx _ _ _ (gate_hasConnection passed), gate_txGet passed,
        gate_store passed]
      exact .watched name
  | unwatch passed name =>
    unfold CommandContext.unwatch
    split
    · rename_i tx found
      have known : ctx.txGet fd = tx := by
        rw [← gate_txGet passed, txGet, found, Option.getD_some]
      rw [replied, tx_setTx _ _ _ (gate_hasConnection passed), ← known]
      exact .unwatched name
    · rw [replied, gate_tx passed]
      exact .same
  | queued passed table inside =>
    rw [queueCommand, replied, tx_setTx _ _ _ (gate_hasConnection passed), gate_txGet passed]
    refine .queued passed table ?_
    rwa [gate_txInMulti passed] at inside
  | executed passed table outside done =>
    rw [execute_tx done, gate_tx passed]
    exact .same

def sessionReplies : List Bytes :=
  [respOk, respQueued, encodeNullArray, errorReply "ERR MULTI calls can not be nested",
    errorReply "ERR EXEC without MULTI", errorReply "ERR DISCARD without MULTI",
    errorReply "ERR wrong number of arguments for 'watch' command",
    errorReply "ERR WATCH inside MULTI is not allowed"]

inductive Settles (ctx : CommandContext) (fd : Fd) : CommandOutcome → Prop
  | kept {reply : Bytes} : reply ∈ sessionReplies → Settles ctx fd (ctx.replied reply)
  | set {reply : Bytes} (tx : TransactionState) : reply ∈ sessionReplies →
      Settles ctx fd ((ctx.setTx fd tx).replied reply)
  | cleared {reply : Bytes} : reply ∈ sessionReplies →
      Settles ctx fd ((ctx.clearTx fd).replied reply)

/-- The command is refused, or it deals with the session of its connection alone. -/
inductive SessionOnly (ctx : CommandContext) (fd : Fd) (cmd : Bytes) : CommandOutcome → Prop
  | rejected {reply : Bytes} : ctx.gate fd cmd = .ok (.rejected reply) →
      SessionOnly ctx fd cmd (ctx.replied reply)
  | settled {admitted : CommandContext} {outcome : CommandOutcome} :
      ctx.gate fd cmd = .ok (.admitted admitted) →
      cmd ∈ controlCommands ∨ ctx.txInMulti fd = true →
      (cmd = ascii "EXEC" → ctx.txInMulti fd = true →
        isDirty ctx.store (ctx.txGet fd) = true) →
      admitted.Settles fd outcome → SessionOnly ctx fd cmd outcome

theorem SessionOnly.state (alone : ctx.SessionOnly fd cmd outcome) :
    outcome.ctx.toHandlerState = ctx.toHandlerState ∧ outcome.sends = [] := by
  cases alone with
  | rejected _ => exact ⟨rfl, rfl⟩
  | settled passed _ _ settles =>
    rw [← gate_toHandlerState passed]
    cases settles with
    | kept => exact ⟨rfl, rfl⟩
    | set tx => exact ⟨setTx_toHandlerState _ _ _, rfl⟩
    | cleared => exact ⟨clearTx_toHandlerState _ _, rfl⟩

theorem Serves.state_cases (serves : Serves ctx fd send args cmd outcome) :
    ctx.SessionOnly fd cmd outcome ∨
    (∃ admitted final replies sends, ctx.gate fd cmd = .ok (.admitted admitted) ∧
      cmd = ascii "EXEC" ∧ ctx.txInMulti fd = true ∧ isDirty ctx.store (ctx.txGet fd) = false ∧
      execQueued fd send (ctx.txGet fd).queuedCommands admitted = .ok (final, replies, sends) ∧
      outcome = ⟨final.clearTx fd, .normal, encodeRawArray replies, sends⟩) ∨
    ∃ admitted, ctx.gate fd cmd = .ok (.admitted admitted) ∧ cmd ∉ controlCommands ∧
      ctx.txInMulti fd = false ∧ admitted.execute fd send args cmd = .ok outcome := by
  have control : ∀ {admitted : CommandContext} {outcome : CommandOutcome} {name : Bytes},
      ctx.gate fd cmd = .ok (.admitted admitted) → cmd = name → name ∈ controlCommands →
      name ≠ ascii "EXEC" → admitted.Settles fd outcome → ctx.SessionOnly fd cmd outcome := by
    rintro admitted outcome name passed rfl member other
    exact .settled passed (.inl member) fun name => absurd name other
  cases serves with
  | rejected refused => exact .inl (.rejected refused)
  | multi passed name =>
    refine .inl (control passed name (by decide) (by decide) ?_)
    unfold CommandContext.multi
    split
    · exact .kept (by simp [sessionReplies])
    · exact .set _ (by simp [sessionReplies])
  | exec passed name done =>
    have member : cmd ∈ controlCommands := by rw [name]; decide
    rcases exec_ok done with ⟨outside, rfl⟩ | ⟨dirty, rfl⟩ |
      ⟨final, replies, sends, inside, clean, ran, rfl⟩
    · rw [gate_txInMulti passed] at outside
      refine .inl (.settled passed (.inl member) (fun _ inside => ?_)
        (.kept (by simp [sessionReplies])))
      rw [outside] at inside
      cases inside
    · rw [gate_txGet passed, gate_store passed] at dirty
      exact .inl (.settled passed (.inl member) (fun _ _ => dirty)
        (.cleared (by simp [sessionReplies])))
    · rw [gate_txInMulti passed] at inside
      rw [gate_txGet passed, gate_store passed] at clean
      rw [gate_txGet passed] at ran
      exact .inr (.inl ⟨_, final, replies, sends, passed, name, inside, clean, ran, rfl⟩)
  | discard passed name =>
    refine .inl (control passed name (by decide) (by decide) ?_)
    unfold CommandContext.discard
    split
    · exact .kept (by simp [sessionReplies])
    · exact .cleared (by simp [sessionReplies])
  | watch passed name =>
    refine .inl (control passed name (by decide) (by decide) ?_)
    unfold CommandContext.watch
    split
    · exact .kept (by simp [sessionReplies])
    split
    · exact .kept (by simp [sessionReplies])
    · exact .set _ (by simp [sessionReplies])
  | unwatch passed name =>
    refine .inl (control passed name (by decide) (by decide) ?_)
    unfold CommandContext.unwatch
    split
    · exact .set _ (by simp [sessionReplies])
    · exact .kept (by simp [sessionReplies])
  | queued passed table inside =>
    rw [gate_txInMulti passed] at inside
    refine .inl (.settled passed (.inr inside) (fun name => ?_)
      (.set _ (by simp [sessionReplies])))
    exact absurd (by rw [name]; decide) table
  | executed passed table outside done =>
    rw [gate_txInMulti passed] at outside
    exact .inr (.inr ⟨_, passed, table, outside, done⟩)

section Relates

variable {related : HandlerState → HandlerState → Prop} (refl : ∀ state, related state state)
  (trans : ∀ {first second third}, related first second → related second third →
    related first third)
  (step : ∀ {state : HandlerState} {args : List Bytes} {cmd : Bytes} {outcome : Outcome},
    executeCommand state fd send args cmd = .ok outcome → related state outcome.state)
include refl trans step

theorem execQueued_relates (done : execQueued fd send queue ctx = .ok (after, replies, sends)) :
    related ctx.toHandlerState after.toHandlerState := by
  induction queue generalizing ctx replies sends with
  | nil =>
    cases done
    exact refl _
  | cons args queue ih =>
    obtain ⟨cmd, rest, rfl, outcome, final, later, others, executed, more, same⟩ :=
      execQueued_cons done
    cases same
    obtain ⟨handled, ran, state, -⟩ := execute_ok executed
    have first := step ran
    rw [← state] at first
    exact trans first (ih more)

theorem Serves.relates (serves : Serves ctx fd send args cmd outcome) :
    related ctx.toHandlerState outcome.ctx.toHandlerState := by
  rcases serves.state_cases with alone | ⟨admitted, final, _, _, passed, -, -, -, ran, rfl⟩ |
    ⟨admitted, passed, -, -, done⟩
  · rw [alone.state.1]
    exact refl _
  · rw [clearTx_toHandlerState, ← gate_toHandlerState passed]
    exact execQueued_relates refl trans step ran
  · obtain ⟨handled, ran, state, -⟩ := execute_ok done
    rw [state, ← gate_toHandlerState passed]
    exact step ran

end Relates

section

variable (serves : Serves ctx fd send args cmd outcome)

include serves

theorem Serves.wiring : SameWiring ctx.toHandlerState outcome.ctx.toHandlerState :=
  serves.relates .refl .trans executeCommand_wiring

theorem Serves.worked : Worked ctx.clock ctx.store outcome.ctx.store := by
  refine (@Serves.relates _ _ _ _ _ _ (fun before after => after.clock = before.clock ∧
    Worked before.clock before.store after.store) (fun _ => ⟨rfl, .refl⟩) ?_ ?_ serves).2
  · rintro first second third ⟨clock, left⟩ ⟨later, right⟩
    exact ⟨later.trans clock, left.trans (clock ▸ right)⟩
  · intro state args cmd outcome ran
    exact ⟨(executeCommand_wiring ran).clock,
      .works _ .refl ((executeCommand_works ran).mono fun _ _ => trivial)⟩

theorem Serves.gated :
    (∃ reply, outcome = ctx.replied reply) ∨
      ∃ admitted, ctx.gate fd cmd = .ok (.admitted admitted) := by
  cases serves with
  | rejected _ => exact .inl ⟨_, rfl⟩
  | multi gated _ | exec gated _ _ | discard gated _ | watch gated _ | unwatch gated _
  | queued gated _ _ | executed gated _ _ _ => exact .inr ⟨_, gated⟩

end

/-- A relation that holds across whatever a command of this connection does to the
sessions, and that does not look at the state of the handlers. -/
structure Session (fd : Fd) (related : CommandContext → CommandContext → Prop) : Prop where
  refl : ∀ ctx, related ctx ctx
  trans : ∀ {first second third}, related first second → related second third →
    related first third
  setTx : ∀ ctx tx, related ctx (ctx.setTx fd tx)
  clearTx : ∀ ctx, related ctx (ctx.clearTx fd)
  marks : ∀ ctx, related ctx (ctx.markConnection fd)
  authenticates : ∀ ctx, related ctx (ctx.setAuthenticated fd)
  handles : ∀ ctx state, related ctx { ctx with toHandlerState := state }

namespace Session

variable {related : CommandContext → CommandContext → Prop} (session : Session fd related)
include session

theorem execute (done : ctx.execute fd send args cmd = .ok outcome) : related ctx outcome.ctx := by
  obtain ⟨handled, -, -, same | marked, -⟩ := execute_ok done
  · rw [same]
    exact session.handles ctx _
  · rw [marked]
    exact session.trans (session.handles ctx _) (session.marks _)

theorem execQueued
    (done : CommandContext.execQueued fd send queue ctx = .ok (after, replies, sends)) :
    related ctx after := by
  induction queue generalizing ctx replies sends with
  | nil =>
    cases done
    exact session.refl _
  | cons args queue ih =>
    obtain ⟨cmd, rest, rfl, outcome, final, later, others, executed, more, same⟩ :=
      execQueued_cons done
    cases same
    exact session.trans (session.execute executed) (ih more)

theorem gate (passed : ctx.gate fd cmd = .ok (.admitted admitted)) : related ctx admitted := by
  rcases (gate_admitted passed).1 with rfl | rfl
  · exact session.refl _
  · exact session.authenticates _

theorem behind (serves : Serves ctx fd send args cmd outcome)
    (passed : ctx.gate fd cmd = .ok (.admitted admitted)) : related admitted outcome.ctx := by
  rcases serves.state_cases with alone | ⟨_, final, _, _, gated, -, -, -, ran, rfl⟩ |
    ⟨_, gated, -, -, done⟩
  · cases alone with
    | rejected refused => cases passed.symm.trans refused
    | settled gated _ _ settles =>
      cases passed.symm.trans gated
      cases settles with
      | kept => exact session.refl _
      | set tx => exact session.setTx _ tx
      | cleared => exact session.clearTx _
  · cases passed.symm.trans gated
    exact session.trans (session.execQueued ran) (session.clearTx _)
  · cases passed.symm.trans gated
    exact session.execute done

theorem serves (serves : Serves ctx fd send args cmd outcome) : related ctx outcome.ctx := by
  rcases serves.gated with ⟨reply, rfl⟩ | ⟨admitted, passed⟩
  · exact session.refl _
  · exact session.trans (session.gate passed) (session.behind serves passed)

theorem inputStep {observation : Observation}
    (done : CommandContext.inputStep fd send ctx request = .ok (after, observation)) :
    related ctx after := by
  obtain ⟨outcome, -, served, rfl, -⟩ := inputStep_ok done
  rw [logCommand_eq]
  exact session.trans (session.serves served) (session.handles outcome.ctx _)

end Session

theorem session_tx (fd : Fd) :
    Session fd fun before after => ∀ other, other ≠ fd → after.tx other = before.tx other where
  refl := fun _ _ _ => rfl
  trans := fun left right other different => (right other different).trans (left other different)
  setTx := fun ctx tx other different => tx_setTx_ne ctx fd other tx different
  clearTx := fun ctx other different => tx_clearTx_ne ctx fd other different
  marks := fun ctx other _ => tx_markConnection ctx fd other
  authenticates := fun ctx other _ => tx_setAuthenticated ctx fd other
  handles := fun _ _ _ _ => rfl

theorem Serves.tx_other (serves : Serves ctx fd send args cmd outcome) (different : other ≠ fd) :
    outcome.ctx.tx other = ctx.tx other :=
  (session_tx fd).serves serves other different

end Steps

section

variable (ctx : CommandContext)

theorem tx_addConnection (fd other : Fd) :
    (ctx.addConnection fd).tx other =
      if ctx.connPool.isSome = true ∧ fd = other then none else ctx.tx other := by
  unfold addConnection tx
  cases ctx.connPool with
  | none => rfl
  | some pool =>
    by_cases same : fd = other
    · simp [same, add, find, Connection.fresh]
    · simp [same, add, find, AList.lookup_insert_ne (Ne.symm same)]

theorem tx_dropConnection (fd other : Fd) :
    (ctx.dropConnection fd).tx other =
      if ctx.connPool.isSome = true ∧ fd = other then none else ctx.tx other := by
  unfold dropConnection tx
  cases ctx.connPool with
  | none => rfl
  | some pool =>
    by_cases same : fd = other
    · simp [same, remove, find]
    · simp [same, remove, find,
        AList.lookup_erase_ne (Ne.symm same)]

theorem tx_addConnection_ne (different : other ≠ fd) :
    (ctx.addConnection fd).tx other = ctx.tx other := by
  rw [tx_addConnection, if_neg fun both => different both.2.symm]

theorem tx_dropConnection_ne (different : other ≠ fd) :
    (ctx.dropConnection fd).tx other = ctx.tx other := by
  rw [tx_dropConnection, if_neg fun both => different both.2.symm]

theorem tx_addConnection_or (fd other : Fd) :
    (ctx.addConnection fd).tx other = ctx.tx other ∨ (ctx.addConnection fd).tx other = none := by
  rw [tx_addConnection]
  split
  · exact .inr rfl
  · exact .inl rfl

theorem tx_dropConnection_or (fd other : Fd) :
    (ctx.dropConnection fd).tx other = ctx.tx other ∨
      (ctx.dropConnection fd).tx other = none := by
  rw [tx_dropConnection]
  split
  · exact .inr rfl
  · exact .inl rfl

end

theorem twoClients_tx (replicas : Nat) (fd : Fd) : (twoClients replicas).tx fd = none := by
  have kept : ∀ (ctx : CommandContext) (other : Fd), ctx.tx fd = none →
      (ctx.addConnection other).tx fd = none := by
    intro ctx other absent
    rcases tx_addConnection_or ctx other fd with same | gone
    · exact same.trans absent
    · exact gone
  exact kept _ 6 (kept _ 5 rfl)

theorem handle_request (handled : ctx.handle (.request request) = .ok (next, output)) :
    ∃ observation, ctx.serve request = .ok (next, observation) ∧ output = some observation := by
  unfold handle at handled
  dsimp only at handled
  split at handled
  · cases handled
  · rename_i after observation served
    cases handled
    exact ⟨observation, served, rfl⟩

theorem handle_served (handled : ctx.handle (.request request) = .ok (next, output)) :
    ∃ outcome aof, Serves ctx request.fd true request.args request.name outcome ∧
      next = { outcome.ctx with aofManager := aof } := by
  obtain ⟨observation, served, -⟩ := handle_request handled
  obtain ⟨outcome, -, serves, rfl, -⟩ := serve_ok served
  exact ⟨outcome, _, serves, logCommand_eq _ _ _⟩

theorem logCommand_wiring (ctx : CommandContext) (cmd raw : Bytes) :
    SameWiring ctx.toHandlerState (ctx.logCommand cmd raw).toHandlerState := by
  rw [logCommand_eq]
  exact ⟨rfl, by simp, rfl, rfl, rfl, rfl⟩

theorem handle_wiring (handled : ctx.handle event = .ok (next, output)) :
    SameWiring ctx.toHandlerState next.toHandlerState := by
  cases event with
  | connect _ | disconnect _ =>
    cases handled
    exact ⟨rfl, rfl, rfl, rfl, rfl, rfl⟩
  | timeouts now status =>
    cases handled
    exact ⟨rfl, by simp [settle], rfl, rfl, rfl, rfl⟩
  | request request =>
    obtain ⟨observation, served, -⟩ := handle_request handled
    obtain ⟨outcome, -, serves, rfl, -⟩ := serve_ok served
    exact serves.wiring.trans (logCommand_wiring _ _ _)

theorem handle_worked (handled : ctx.handle event = .ok (next, output)) :
    Worked ctx.clock ctx.store next.store := by
  cases event with
  | connect _ | disconnect _ | timeouts _ _ =>
    cases handled
    exact .refl
  | request request =>
    obtain ⟨outcome, aof, serves, rfl⟩ := handle_served handled
    exact serves.worked

theorem run_worked (ran : Run.run handle ctx events = .ok (live, observations)) :
    Worked ctx.clock ctx.store live.store := by
  induction events generalizing ctx observations with
  | nil =>
    cases ran
    exact .refl
  | cons event events ih =>
    obtain ⟨next, output, later, handled, rest, -⟩ := Run.run_cons ran
    have second := ih rest
    rw [(handle_wiring handled).clock] at second
    exact (handle_worked handled).trans second

theorem run_wiring (ran : Run.run handle ctx events = .ok (live, observations)) :
    SameWiring ctx.toHandlerState live.toHandlerState := by
  induction events generalizing ctx observations with
  | nil =>
    cases ran
    exact .refl _
  | cons event events ih =>
    obtain ⟨next, output, later, handled, rest, -⟩ := Run.run_cons ran
    exact (handle_wiring handled).trans (ih rest)

theorem logOf_append_none (observations : List (Option Observation)) :
    logOf (observations ++ [none]) = logOf observations := by
  simp [logOf]

theorem propagationOf_append_none (observations : List (Option Observation)) :
    propagationOf (observations ++ [none]) = propagationOf observations := by
  simp [propagationOf]

end CommandContext

end Credis
