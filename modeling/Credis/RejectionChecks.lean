import Credis.TransactionChecks

/-! Connections that are refused. Their commands change nothing behind the gates,
but the log entry is written by the caller of the gates from the name alone. -/

namespace Credis

open ByteString ConnectionPool

variable {ctx next : CommandContext}

namespace CommandContext

def authSucceeds (ctx : CommandContext) (request : Request) : Bool :=
  request.name == ascii "AUTH" && (handleAuth ctx.aclManager request.args).1

/-- The connection has not authenticated itself and does not do so with this
command, or it is in subscribed mode and the command is not allowed there. -/
def refuses (ctx : CommandContext) (request : Request) : Bool :=
  (!ctx.aclManager.defaultNopass && !ctx.isAuthenticated request.fd &&
      !ctx.authSucceeds request) ||
    (ctx.isSubscribed request.fd && !subscribedAllowed.contains request.name)

def refusedEvent (ctx : CommandContext) : Event → Bool
  | .request request => ctx.refuses request
  | _ => false

def RefusesNoWrite (ctx : CommandContext) : Event → Prop
  | .request request => ctx.refuses request = true → isWriteCommand request.name = false
  | _ => True

instance (ctx : CommandContext) (event : Event) : Decidable (ctx.RefusesNoWrite event) :=
  match event with
  | .request request =>
    inferInstanceAs (Decidable (ctx.refuses request = true → isWriteCommand request.name = false))
  | .connect _ | .disconnect _ | .timeouts _ _ => inferInstanceAs (Decidable True)

def MultiKnown (ctx : CommandContext) : Prop :=
  ∀ fd, ctx.txInMulti fd = true → ctx.isAuthenticated fd = true

section Known

variable {ctx : CommandContext} {fd other : Fd} {send : Bool} {args : List Bytes} {cmd : Bytes}

theorem session_known (fd other : Fd) : Session fd fun before after =>
    before.isAuthenticated other = true → after.isAuthenticated other = true where
  refl := fun _ known => known
  trans := fun left right known => right (left known)
  setTx := fun ctx tx known => (isAuthenticated_setTx ctx fd other tx).trans known
  clearTx := fun ctx known => (isAuthenticated_clearTx ctx fd other).trans known
  marks := fun ctx known => isAuthenticated_markConnection ctx fd other known
  authenticates := fun ctx known => isAuthenticated_setAuthenticated_mono ctx fd other known
  handles := fun _ _ known => known

theorem Serves.multiKnown {outcome : CommandOutcome}
    (serves : Serves ctx fd send args cmd outcome) (held : ctx.MultiKnown) :
    outcome.ctx.MultiKnown := by
  intro other inside
  by_cases same : other = fd
  · subst same
    have before : ctx.txInMulti other = true → outcome.ctx.isAuthenticated other = true :=
      fun earlier => (session_known other other).serves serves (held other earlier)
    have turn := serves.tx_step
    rw [txInMulti] at inside
    generalize outcome.ctx.tx other = tx at turn inside
    have unchanged : (ctx.txGet other).inMulti = true → ctx.txInMulti other = true := by
      unfold txGet txInMulti
      cases ctx.tx other with
      | none => exact id
      | some tx => exact id
    cases turn with
    | same => exact before inside
    | begun passed name =>
      rcases (gate_admitted passed).2.2.1 with auth | known
      · rw [name] at auth
        exact absurd auth (by decide)
      · exact (session_known other other).behind serves passed known
    | ended _ => cases inside
    | watched _ =>
      rw [Option.any_some, watchKeys_inMulti] at inside
      exact before (unchanged inside)
    | unwatched _ => exact before (unchanged inside)
    | queued _ _ earlier => exact before earlier
  · rw [txInMulti, serves.tx_other same, ← txInMulti] at inside
    exact (session_known fd other).serves serves (held other inside)

end Known

theorem mapPool_multiKnown {change : ConnectionPool → ConnectionPool} (held : ctx.MultiKnown)
    (finds : ∀ pool other, (change pool).find other = pool.find other ∨
      ((change pool).find other).bind Connection.tx = none) :
    ({ ctx with connPool := ctx.connPool.map change } : CommandContext).MultiKnown := by
  intro other inside
  have before := held other
  cases found : ctx.connPool with
  | none =>
    simp only [txInMulti, tx, isAuthenticated, found, Option.map_none] at before inside ⊢
    exact before inside
  | some pool =>
    simp only [txInMulti, tx, isAuthenticated, found, Option.map_some] at before inside ⊢
    rcases finds pool other with same | absent
    · rw [same] at inside ⊢
      exact before inside
    · rw [absent] at inside
      cases inside

theorem handle_multiKnown {event : Event} {output : Option Observation} (held : ctx.MultiKnown)
    (handled : ctx.handle event = .ok (next, output)) : next.MultiKnown := by
  cases event with
  | connect fd =>
    cases handled
    refine mapPool_multiKnown held fun pool other => ?_
    by_cases same : other = fd
    · exact .inr (by rw [same, add, find, AList.lookup_insert]; rfl)
    · exact .inl (AList.lookup_insert_ne same)
  | disconnect fd =>
    cases handled
    refine mapPool_multiKnown held fun pool other => ?_
    by_cases same : other = fd
    · exact .inr (by rw [same, remove, find, AList.lookup_erase]; rfl)
    · exact .inl (AList.lookup_erase_ne same)
  | timeouts now status =>
    cases handled
    exact held
  | request request =>
    obtain ⟨outcome, aof, serves, rfl⟩ := handle_served handled
    exact serves.multiKnown held

section Refused

variable {ctx : CommandContext} {fd : Fd} {args : List Bytes} {cmd : Bytes}
  {outcome : CommandOutcome}

theorem Serves.of_rejected (serves : Serves ctx fd true args cmd outcome) (reply : Bytes)
    (refused : ctx.gate fd cmd = .ok (.rejected reply)) : outcome.ctx = ctx := by
  cases serves with
  | rejected _ => rfl
  | multi gated _ | exec gated _ _ | discard gated _ | watch gated _ | unwatch gated _
  | queued gated _ _ | executed gated _ _ _ =>
    rw [refused] at gated
    cases gated

theorem execute_auth_fails (failed : (handleAuth ctx.aclManager args).1 = false)
    (done : ctx.execute fd true args (ascii "AUTH") = .ok outcome) : outcome.ctx = ctx := by
  have found : Command.lookup (ascii "AUTH") = some .auth := by decide
  simp only [execute, executeCommand, found] at done
  split at done
  · cases done
  rename_i handled ran
  split at ran
  · cases ran
    cases done
    rfl
  · cases ran
    cases done
    exact if_neg fun succeeded => Bool.noConfusion (failed.symm.trans succeeded)

theorem gate_stranger {admitted : CommandContext} (stranger : ctx.isAuthenticated fd = false)
    (password : ctx.aclManager.defaultNopass = false)
    (passed : ctx.gate fd cmd = .ok (.admitted admitted)) :
    cmd = ascii "AUTH" ∧ admitted = ctx := by
  unfold gate at passed
  split at passed
  · cases passed
  split at passed
  · cases passed
  split at passed
  · rename_i known
    cases passed
    refine ⟨known.resolve_right ?_, rfl⟩
    simp [stranger]
  · rw [if_neg (by simp [password])] at passed
    cases passed

theorem Serves.refused (serves : Serves ctx fd true args cmd outcome) (held : ctx.MultiKnown)
    (stranger : ctx.isAuthenticated fd = false) (password : ctx.aclManager.defaultNopass = false)
    (failed : cmd = ascii "AUTH" → (handleAuth ctx.aclManager args).1 = false) :
    outcome.ctx = ctx := by
  cases serves with
  | rejected _ => rfl
  | multi gated name | discard gated name | watch gated name | unwatch gated name
  | exec gated name _ =>
    have auth := (gate_stranger stranger password gated).1
    rw [name] at auth
    exact absurd auth (by decide)
  | queued gated _ inside =>
    obtain ⟨-, rfl⟩ := gate_stranger stranger password gated
    rw [held fd inside] at stranger
    cases stranger
  | executed gated _ _ done =>
    obtain ⟨rfl, rfl⟩ := gate_stranger stranger password gated
    exact execute_auth_fails (failed rfl) done

end Refused

theorem serve_refused {request : Request} {observation : Observation} (held : ctx.MultiKnown)
    (refused : ctx.refuses request = true) (served : ctx.serve request = .ok (next, observation)) :
    next = ctx.logCommand request.name request.raw ∧
      observation.effect.propagated = ctx.propagatedCommands request.name request.raw := by
  obtain ⟨outcome, -, serves, rfl, rfl⟩ := serve_ok served
  have same : outcome.ctx = ctx := by
    simp only [refuses, authSucceeds, Bool.or_eq_true, Bool.and_eq_true, Bool.not_eq_true',
      List.contains_eq_mem, decide_eq_false_iff_not, Bool.and_eq_false_iff,
      beq_eq_false_iff_ne] at refused
    rcases refused with ⟨⟨password, stranger⟩, failed⟩ | ⟨subscribed, outside⟩
    · exact serves.refused held stranger password fun auth => failed.resolve_left (· auth)
    · refine serves.of_rejected (subscribedReply request.name) ?_
      rw [gate, if_pos ⟨subscribed, outside⟩]
  rw [same]
  exact ⟨rfl, rfl⟩

/-- Two runs from one state that differ in refused commands only: when none of
these has the name of a write, the runs end in the same state and give the same
commands to the replicas. -/
theorem refused_commands_change_nothing (ctx : CommandContext) (first second : List Event)
    (start : ctx.MultiKnown)
    (quiet : Run.Along handle RefusesNoWrite ctx first)
    (still : Run.Along handle RefusesNoWrite ctx second)
    (same : Run.kept handle refusedEvent ctx first = Run.kept handle refusedEvent ctx second)
    (live other : CommandContext) (seen noted : List (Option Observation))
    (ran : Run.run handle ctx first = .ok (live, seen))
    (passed : Run.run handle ctx second = .ok (other, noted)) :
    live.store = other.store ∧ live.aofManager = other.aofManager ∧
      live.blockingManager = other.blockingManager ∧ live.pubsubManager = other.pubsubManager ∧
      propagationOf seen = propagationOf noted := by
  have silent : ∀ (state : CommandContext) (event : Event) (next : CommandContext)
      (output : Option Observation), state.MultiKnown → state.RefusesNoWrite event →
      state.refusedEvent event = true → state.handle event = .ok (next, output) →
      next = state ∧ (output.map fun seen => seen.effect.propagated).getD [] = [] := by
    intro state event next output held quiet refused handled
    cases event with
    | request request =>
      obtain ⟨observation, served, rfl⟩ := handle_request handled
      obtain ⟨rfl, propagated⟩ := serve_refused held refused served
      have read := quiet refused
      refine ⟨by simp [logCommand, read], ?_⟩
      rw [Option.map_some, Option.getD_some, propagated]
      simp [propagatedCommands, read]
    | connect _ | disconnect _ | timeouts _ _ => cases refused
  obtain ⟨fewer, final, propagation⟩ := Run.run_kept MultiKnown _
    (fun _ _ _ _ => handle_multiKnown) silent start quiet ran
  obtain ⟨less, last, stream⟩ := Run.run_kept MultiKnown _
    (fun _ _ _ _ => handle_multiKnown) silent start still passed
  rw [same, last] at final
  cases final
  exact ⟨rfl, rfl, rfl, rfl, propagation.symm.trans stream⟩

theorem twoClients_multiKnown (replicas : Nat) : (twoClients replicas).MultiKnown := by
  intro fd inside
  rw [txInMulti, twoClients_tx] at inside
  cases inside

theorem refused_read_changes_nothing :
    ∃ live, Run.run handle (twoClients 1)
        [.words 5 ["SUBSCRIBE", "c"], .words 5 ["GET", "k"], .words 6 ["SET", "k", "1"]] =
          .ok live ∧
      ∃ other, Run.run handle (twoClients 1)
          [.words 5 ["SUBSCRIBE", "c"], .words 6 ["SET", "k", "1"]] = .ok other ∧
        live.1.store = other.1.store ∧ live.1.aofManager = other.1.aofManager ∧
        live.1.blockingManager = other.1.blockingManager ∧
        live.1.pubsubManager = other.1.pubsubManager ∧
        propagationOf live.2 = propagationOf other.2 := by
  refine Run.of_checked (fun _ => True) (by decide +kernel) fun live ran _ => ?_
  refine Run.of_checked (fun _ => True) (by decide +kernel) fun other passed _ => ?_
  exact refused_commands_change_nothing (twoClients 1) _ _ (twoClients_multiKnown 1)
    (by decide +kernel) (by decide +kernel) (by decide +kernel) _ _ _ _ ran passed

/-- A write that is refused, for lack of a password or in subscribed mode, is
logged and sent to the replicas all the same. -/
theorem refused_writes_are_logged :
    (∃ run, Run.run handle (twoClients 1)
        [.words 5 ["SUBSCRIBE", "c"], .words 5 ["SET", "k", "1"]] = .ok run ∧
      (run.1.store.contents (ascii "k")).isNone ∧
      logOf run.2 = encodeArray [ascii "SET", ascii "k", ascii "1"] ∧
      propagationOf run.2 = [encodeArray [ascii "SET", ascii "k", ascii "1"]]) ∧
    (∃ run, Run.run handle (twoClients 1)
        [.words 5 ["ACL", "SETUSER", "default", ">p"], .words 6 ["SET", "k", "1"]] = .ok run ∧
      (run.1.store.contents (ascii "k")).isNone ∧
      logOf run.2 = encodeArray [ascii "SET", ascii "k", ascii "1"] ∧
      propagationOf run.2 = [encodeArray [ascii "SET", ascii "k", ascii "1"]]) ∧
    ∃ run, Run.run handle (twoClients 1)
        [.words 5 ["ACL", "SETUSER", "default", ">p"]] = .ok run ∧
      logOf run.2 = [] ∧ propagationOf run.2 = [] :=
  ⟨Run.Succeeds.ok (by decide +kernel), Run.Succeeds.ok (by decide +kernel),
    Run.Succeeds.ok (by decide +kernel)⟩

end CommandContext

end Credis
