import Credis.TransactionChecks

/-! Watched keys. A transaction remembers the version of each key it watches, and
a command that changes the value of a key gives the key a new version. -/

namespace Credis

open ByteString

variable {key : Key} {fd : Fd} {ctx : CommandContext} {request : Request}
  {observation : Observation} {output : Option Observation}

variable {after : CommandContext} {event : Event} {send : Bool} {args : List Bytes} {cmd : Bytes}
  {outcome : CommandOutcome}

def HandlerState.Changes (before after : HandlerState) (key : Key) : Prop :=
  after.store.liveValue (before.clock before.ticks).steady key ≠
    before.store.liveValue (before.clock before.ticks).steady key

namespace CommandContext

section Executed

variable (relates : HandlerState → HandlerState → Prop)

def queueExecutes (fd : Fd) (send : Bool) : List (List Bytes) → CommandContext → Prop
  | [], _ => False
  | [] :: _, _ => False
  | (cmd :: args) :: rest, ctx =>
    match ctx.execute fd send (cmd :: args) cmd with
    | .error _ => False
    | .ok outcome =>
      relates ctx.toHandlerState outcome.ctx.toHandlerState ∨
        queueExecutes fd send rest outcome.ctx

/-- A command that the request executes, itself or out of a queue, relates the
states around it so. -/
def Executes (ctx : CommandContext) (request : Request) : Prop :=
  match ctx.gate request.fd request.name with
  | .ok (.admitted admitted) =>
    if request.name = ascii "EXEC" then
      ctx.txInMulti request.fd = true ∧ isDirty ctx.store (ctx.txGet request.fd) = false ∧
        queueExecutes relates request.fd true (ctx.txGet request.fd).queuedCommands admitted
    else if request.name ∈ controlCommands ∨ ctx.txInMulti request.fd = true then False
    else
      match admitted.execute request.fd true request.args request.name with
      | .error _ => False
      | .ok outcome => relates admitted.toHandlerState outcome.ctx.toHandlerState
  | _ => False

instance decidableQueueExecutes [DecidableRel relates] (fd : Fd) (send : Bool) :
    ∀ queue ctx, Decidable (queueExecutes relates fd send queue ctx)
  | [], _ => inferInstanceAs (Decidable False)
  | [] :: _, _ => inferInstanceAs (Decidable False)
  | (cmd :: args) :: rest, ctx => by
      unfold queueExecutes
      have later := decidableQueueExecutes fd send rest
      split <;> exact inferInstance

instance decidableExecutes [DecidableRel relates] (ctx : CommandContext) (request : Request) :
    Decidable (ctx.Executes relates request) := by
  unfold Executes
  split
  · split
    · exact inferInstance
    · split
      · exact inferInstance
      · split <;> exact inferInstance
  · exact inferInstance

end Executed

end CommandContext

namespace Event

def Calm (fd : Fd) : Event → Prop
  | .request sent => sent.fd = fd → sent.name ∉ [ascii "EXEC", ascii "DISCARD", ascii "UNWATCH"]
  | .connect other => other ≠ fd
  | .disconnect other => other ≠ fd
  | .timeouts _ _ => True

def Watches (fd : Fd) (key : Key) : Event → Prop
  | .request sent => sent.fd = fd ∧ sent.name = ascii "WATCH" ∧ key ∈ sent.args.drop 1
  | _ => False

instance (fd : Fd) (event : Event) : Decidable (event.Calm fd) :=
  match event with
  | .request _ => inferInstanceAs (Decidable (_ → _))
  | .connect _ => inferInstanceAs (Decidable (_ ≠ _))
  | .disconnect _ => inferInstanceAs (Decidable (_ ≠ _))
  | .timeouts _ _ => inferInstanceAs (Decidable True)

instance (fd : Fd) (key : Key) (event : Event) : Decidable (event.Watches fd key) :=
  match event with
  | .request _ => inferInstanceAs (Decidable (_ ∧ _))
  | .connect _ | .disconnect _ | .timeouts _ _ => inferInstanceAs (Decidable False)

end Event

namespace CommandContext

theorem execute_evolves (done : ctx.execute fd send args cmd = .ok outcome) :
    Store.Evolves (ctx.clock ctx.ticks).steady ctx.store outcome.ctx.store := by
  obtain ⟨handled, ran, state, -⟩ := execute_ok done
  rw [state]
  exact (executeCommand_works ran).evolves (Int.le_refl _)

theorem execQueued_versions {queue : List (List Bytes)} {replies : List Bytes}
    {sends : List (Fd × Bytes)} (done : execQueued fd send queue ctx = .ok (after, replies, sends))
    (key : Key) :
    ctx.store.getKeyVersion key ≤ after.store.getKeyVersion key ∧
      (queueExecutes (fun before after => before.Changes after key) fd send queue ctx →
        ctx.store.getKeyVersion key < after.store.getKeyVersion key) := by
  induction queue generalizing ctx replies sends with
  | nil =>
    cases done
    exact ⟨Nat.le_refl _, False.elim⟩
  | cons args queue ih =>
    obtain ⟨cmd, rest, rfl, outcome, final, later, others, executed, more, same⟩ :=
      execQueued_cons done
    cases same
    have here := execute_evolves executed
    obtain ⟨there, strict⟩ := ih more
    refine ⟨Nat.le_trans (here.versions key) there, ?_⟩
    intro changes
    simp only [queueExecutes, executed] at changes
    rcases changes with now | behind
    · exact Nat.lt_of_lt_of_le (here.changes key now) there
    · exact Nat.lt_of_le_of_lt (here.versions key) (strict behind)

theorem Serves.versions (serves : Serves ctx fd send args cmd outcome) (key : Key) :
    ctx.store.getKeyVersion key ≤ outcome.ctx.store.getKeyVersion key := by
  rcases serves.state_cases with idle | ⟨admitted, final, _, _, passed, -, -, -, ran, rfl⟩ |
    ⟨admitted, passed, -, -, done⟩
  · rw [idle.state.1]
  · rw [clearTx_toHandlerState, ← gate_store passed]
    exact (execQueued_versions ran key).1
  · rw [← gate_store passed]
    exact (execute_evolves done).versions key

theorem serve_changes (served : ctx.serve request = .ok (after, observation))
    (changes : ctx.Executes (fun before after => before.Changes after key) request) :
    ctx.store.getKeyVersion key < after.store.getKeyVersion key := by
  obtain ⟨outcome, -, serves, rfl, -⟩ := serve_ok served
  rw [logCommand_store]
  unfold Executes at changes
  rcases serves.state_cases with idle | ⟨admitted, final, _, _, passed, name, -, -, ran, rfl⟩ |
    ⟨admitted, passed, table, outside, done⟩
  · cases idle with
    | rejected refused =>
      rw [refused] at changes
      exact changes.elim
    | settled passed silent aborted _ =>
      rw [passed] at changes
      dsimp only at changes
      split at changes
      · rename_i name
        obtain ⟨inside, clean, -⟩ := changes
        cases clean.symm.trans (aborted name inside)
      · exact changes.elim
  · rw [passed] at changes
    dsimp only at changes
    rw [if_pos name] at changes
    rw [clearTx_toHandlerState, ← gate_store passed]
    exact (execQueued_versions ran key).2 changes.2.2
  · rw [passed] at changes
    dsimp only at changes
    rw [if_neg fun name => table (by rw [name]; decide), if_neg (by simp [table, outside]),
      done] at changes
    rw [← gate_store passed]
    exact (execute_evolves done).changes key changes

def remembered (ctx : CommandContext) (fd : Fd) (key : Key) : Option Nat :=
  (ctx.txGet fd).watchedKeys.lookup key

theorem watchKeys_lookup (store : Store) (tx : TransactionState) (keys : List Key) (key : Key) :
    (watchKeys store tx keys).watchedKeys.lookup key =
      if key ∈ keys then some (store.getKeyVersion key) else tx.watchedKeys.lookup key := by
  unfold watchKeys
  induction keys generalizing tx with
  | nil => simp
  | cons first keys ih =>
    rw [List.foldl_cons, ih]
    by_cases later : key ∈ keys
    · simp [later]
    by_cases here : key = first
    · subst here
      simp
    · simp [later, here, AList.lookup_insert_ne here]

theorem remembered_of_tx {before : CommandContext} (key : Key) (same : after.tx fd = before.tx fd) :
    after.remembered fd key = before.remembered fd key := by
  rw [remembered, txGet, same, remembered, txGet]

theorem serve_remembered (key : Key) (served : ctx.serve request = .ok (after, observation))
    (calm : (Event.request request).Calm fd) :
    after.remembered fd key = ctx.remembered fd key ∨
      ((Event.request request).Watches fd key ∧
        after.remembered fd key = some (ctx.store.getKeyVersion key)) := by
  obtain ⟨outcome, -, serves, rfl, -⟩ := serve_ok served
  by_cases own : fd = request.fd
  · subst own
    have ending := calm rfl
    simp only [List.mem_cons, List.not_mem_nil, or_false, not_or] at ending
    have step := serves.tx_step
    rw [remembered, txGet, logCommand_tx]
    generalize outcome.ctx.tx request.fd = tx at step ⊢
    cases step with
    | same => exact .inl rfl
    | begun => exact .inl rfl
    | ended name => exact (name.elim ending.1 ending.2.1).elim
    | watched name =>
      rw [Option.getD_some, watchKeys_lookup]
      split
      · rename_i named
        exact .inr ⟨⟨rfl, name, named⟩, rfl⟩
      · exact .inl rfl
    | unwatched name => exact (ending.2.2 name).elim
    | queued => exact .inl rfl
  · left
    apply remembered_of_tx
    rw [logCommand_tx, serves.tx_other own]

theorem handle_remembered {next : CommandContext} (key : Key)
    (handled : ctx.handle event = .ok (next, output)) (calm : event.Calm fd) :
    next.remembered fd key = ctx.remembered fd key ∨
      (event.Watches fd key ∧ next.remembered fd key = some (ctx.store.getKeyVersion key)) := by
  cases event with
  | request request =>
    obtain ⟨observation, served, -⟩ := handle_request handled
    exact serve_remembered key served calm
  | connect other =>
    cases handled
    exact .inl (remembered_of_tx key (tx_addConnection_ne ctx calm.symm))
  | disconnect other =>
    cases handled
    exact .inl (remembered_of_tx key (tx_dropConnection_ne ctx calm.symm))
  | timeouts now status =>
    cases handled
    exact .inl rfl

theorem handle_versions {next : CommandContext} (handled : ctx.handle event = .ok (next, output))
    (key : Key) : ctx.store.getKeyVersion key ≤ next.store.getKeyVersion key := by
  cases event with
  | request request =>
    obtain ⟨outcome, aof, serves, rfl⟩ := handle_served handled
    exact serves.versions key
  | connect _ | disconnect _ | timeouts _ _ =>
    cases handled
    exact Nat.le_refl _

def Remembers (ctx : CommandContext) (fd : Fd) (key : Key) : Prop :=
  ∃ version, ctx.remembered fd key = some version ∧ version ≤ ctx.store.getKeyVersion key

def Outdated (ctx : CommandContext) (fd : Fd) (key : Key) : Prop :=
  ∃ version, ctx.remembered fd key = some version ∧ version < ctx.store.getKeyVersion key

theorem Remembers.next {next : CommandContext} (watched : ctx.Remembers fd key)
    (handled : ctx.handle event = .ok (next, output)) (calm : event.Calm fd) :
    next.Remembers fd key := by
  obtain ⟨version, known, bound⟩ := watched
  have grown := handle_versions handled key
  rcases handle_remembered key handled calm with same | ⟨-, new⟩
  · exact ⟨version, same.trans known, Nat.le_trans bound grown⟩
  · exact ⟨_, new, grown⟩

theorem Remembers.changed (watched : ctx.Remembers fd key)
    (served : ctx.serve request = .ok (after, observation)) (calm : (Event.request request).Calm fd)
    (changes : ctx.Executes (fun before after => before.Changes after key) request) :
    after.Outdated fd key := by
  obtain ⟨version, known, bound⟩ := watched
  have grown := serve_changes served changes
  rcases serve_remembered key served calm with same | ⟨-, new⟩
  · exact ⟨version, same.trans known, Nat.lt_of_le_of_lt bound grown⟩
  · exact ⟨_, new, grown⟩

theorem Outdated.next {next : CommandContext} (outdated : ctx.Outdated fd key)
    (handled : ctx.handle event = .ok (next, output)) (calm : event.Calm fd)
    (others : ¬ event.Watches fd key) : next.Outdated fd key := by
  obtain ⟨version, known, bound⟩ := outdated
  have grown := handle_versions handled key
  rcases handle_remembered key handled calm with same | ⟨watches, -⟩
  · exact ⟨version, same.trans known, Nat.lt_of_lt_of_le bound grown⟩
  · exact (others watches).elim

theorem serve_watch (served : ctx.serve request = .ok (after, observation))
    (naming : request.name = ascii "WATCH") (names : key ∈ request.args.drop 1)
    (accepted : observation.effect.reply = respOk) : after.Remembers request.fd key := by
  obtain ⟨outcome, -, serves, rfl, rfl⟩ := serve_ok served
  dsimp only at accepted
  have control : request.name ∈ controlCommands := by simp [naming, controlCommands]
  cases serves with
  | rejected refused =>
    rcases gate_rejected refused with rfl | rfl
    · exact absurd accepted (encodeError_ne_respOk _)
    · exact absurd accepted (encodeError_ne_respOk _)
  | multi _ name | discard _ name | unwatch _ name | exec _ name =>
    exact absurd (naming.symm.trans name) (by decide)
  | queued _ table => exact absurd control table
  | executed _ table => exact absurd control table
  | watch passed =>
    unfold CommandContext.watch at accepted ⊢
    split at accepted
    · exact absurd accepted (encodeError_ne_respOk _)
    rename_i enough
    split at accepted
    · exact absurd accepted (encodeError_ne_respOk _)
    rename_i outside
    rw [if_neg enough, if_neg outside]
    refine ⟨_, ?_, Nat.le_refl _⟩
    rw [remembered, txGet, logCommand_tx, replied,
      tx_setTx _ _ _ (gate_hasConnection passed), Option.getD_some, watchKeys_lookup,
      if_pos names, logCommand_store, setTx_toHandlerState]

theorem Outdated.isDirty (outdated : ctx.Outdated fd key) :
    CommandContext.isDirty ctx.store (ctx.txGet fd) = true := by
  obtain ⟨version, known, bound⟩ := outdated
  rw [CommandContext.isDirty, List.any_eq_true]
  exact ⟨⟨key, version⟩, AList.mem_lookup_iff.mp known, by simp; omega⟩

theorem Outdated.exec (outdated : ctx.Outdated request.fd key)
    (naming : request.name = ascii "EXEC") (passed : ctx.passes request = true)
    (inside : ctx.txInMulti request.fd = true) :
    ∃ last observation, ctx.serve request = .ok (last, observation) ∧
      observation.effect.reply = encodeNullArray ∧ last.store = ctx.store := by
  have named := Request.args_ne_nil naming (by decide)
  obtain ⟨admitted, admitting⟩ := passes_admitted passed
  have done : ctx.processSingleCommand request.fd true request.args request.name =
      .ok ((admitted.clearTx request.fd).replied encodeNullArray) := by
    rw [process_of_gate named admitting, processAdmitted, if_neg (by rw [naming]; decide),
      if_pos naming, CommandContext.exec, gate_txGet admitting, gate_store admitting,
      gate_txInMulti admitting, inside, outdated.isDirty]
    rfl
  refine ⟨_, _, serve_of_process named done, rfl, ?_⟩
  rw [logCommand_store, replied, clearTx_toHandlerState, gate_store admitting]

/-- A connection watches a key, a command changes the value of the key, and the
connection does not name the key in another `WATCH` from then on: its `EXEC` runs
nothing. -/
theorem changed_watched_key_aborts_exec {start watched middle changed final : CommandContext}
    {key : Key} {watch change exec : Request} {before after : List Event}
    {seen noted : Observation} {first second : List (Option Observation)}
    (watching : start.serve watch = .ok (watched, seen)) (naming : watch.name = ascii "WATCH")
    (names : key ∈ watch.args.drop 1) (accepted : seen.effect.reply = respOk)
    (ran : Run.run handle watched before = .ok (middle, first))
    (calm : ∀ event ∈ before, event.Calm watch.fd)
    (changing : middle.serve change = .ok (changed, noted))
    (own : (Event.request change).Calm watch.fd)
    (changes : middle.Executes (fun before after => before.Changes after key) change)
    (behind : Run.run handle changed after = .ok (final, second))
    (quiet : ∀ event ∈ after, event.Calm watch.fd ∧ ¬ event.Watches watch.fd key)
    (caller : exec.fd = watch.fd) (commits : exec.name = ascii "EXEC")
    (passed : final.passes exec = true) (inside : final.txInMulti exec.fd = true) :
    ∃ last reply, final.serve exec = .ok (last, reply) ∧
      reply.effect.reply = encodeNullArray ∧ last.store = final.store := by
  have remembers : middle.Remembers watch.fd key :=
    Run.run_invariant (fun ctx => ctx.Remembers watch.fd key)
      (fun _ _ _ _ holds calm handled => holds.next handled calm)
      (serve_watch watching naming names accepted) (Run.along_of_forall calm _) ran
  have outdated : final.Outdated watch.fd key :=
    Run.run_invariant (fun ctx => ctx.Outdated watch.fd key)
      (fun _ _ _ _ holds quiet handled => holds.next handled quiet.1 quiet.2)
      (remembers.changed changing own changes) (Run.along_of_forall quiet _) behind
  rw [← caller] at outdated
  exact outdated.exec commits passed inside

theorem Executes.imp {left right : HandlerState → HandlerState → Prop}
    (stronger : ∀ before after, left before after → right before after)
    (executes : ctx.Executes left request) : ctx.Executes right request := by
  have queued : ∀ fd send queue ctx, queueExecutes left fd send queue ctx →
      queueExecutes right fd send queue ctx := by
    intro fd send queue
    induction queue with
    | nil => exact fun _ => id
    | cons args queue ih =>
      intro ctx inside
      cases args with
      | nil => exact inside
      | cons cmd args =>
        unfold queueExecutes at inside ⊢
        split
        · rename_i failed
          rw [failed] at inside
          exact inside
        · rename_i outcome executed
          rw [executed] at inside
          exact inside.imp (stronger _ _) (ih _)
  unfold Executes at executes ⊢
  split
  · rename_i admitted passed
    rw [passed] at executes
    dsimp only at executes
    split
    · rename_i commits
      rw [if_pos commits] at executes
      exact ⟨executes.1, executes.2.1, queued _ _ _ _ executes.2.2⟩
    · rename_i other
      rw [if_neg other] at executes
      split
      · rename_i control
        rw [if_pos control] at executes
        exact executes
      · rename_i table
        rw [if_neg table] at executes
        split
        · rename_i failed
          rw [failed] at executes
          exact executes
        · rename_i outcome executed
          rw [executed] at executes
          exact stronger _ _ executes
  · rename_i refused
    split at executes
    · rename_i admitted passed
      exact (refused admitted passed).elim
    · exact executes

def appears (key : Key) (before after : HandlerState) : Prop :=
  (before.store.liveValue (before.clock before.ticks).steady key).isSome = false ∧
    (after.store.liveValue (before.clock before.ticks).steady key).isSome = true

instance (key : Key) : DecidableRel (appears key) :=
  fun _ _ => inferInstanceAs (Decidable (_ ∧ _))

theorem appears_changes {before after : HandlerState} (appearing : appears key before after) :
    before.Changes after key := by
  intro same
  have absent := appearing.1
  rw [← same, appearing.2] at absent
  cases absent

theorem write_of_other_client_aborts_exec :
    ∃ watched, (twoClients 0).serve (.ofArgs 5 [ascii "WATCH", ascii "k"]) = .ok watched ∧
      ∃ changed, watched.1.serve (.ofArgs 6 [ascii "SET", ascii "k", ascii "1"]) = .ok changed ∧
      ∃ final, Run.run handle changed.1 [.words 5 ["MULTI"], .words 5 ["SET", "k", "2"]] =
          .ok final ∧
      ∃ last reply, final.1.serve (.ofArgs 5 [ascii "EXEC"]) = .ok (last, reply) ∧
        reply.effect.reply = encodeNullArray ∧ last.store = final.1.store := by
  refine Run.of_checked (fun watched => watched.2.effect.reply = respOk ∧
      watched.1.Executes (appears (ascii "k")) (.ofArgs 6 [ascii "SET", ascii "k", ascii "1"]) ∧
      Run.Succeeds (watched.1.serve (.ofArgs 6 [ascii "SET", ascii "k", ascii "1"]))
        fun changed => Run.Succeeds (Run.run handle changed.1
            [.words 5 ["MULTI"], .words 5 ["SET", "k", "2"]])
          fun final => final.1.passes (.ofArgs 5 [ascii "EXEC"]) = true ∧
            final.1.txInMulti 5 = true) (by decide +kernel) ?_
  rintro ⟨watched, seen⟩ watching ⟨accepted, changes, more⟩
  refine Run.of_checked _ more fun changed changing later => ?_
  refine Run.of_checked _ later fun final behind ⟨passed, inside⟩ => ?_
  exact @changed_watched_key_aborts_exec _ _ _ _ _ (ascii "k") _ _ (.ofArgs 5 [ascii "EXEC"]) [] _ _
    _ [] _ watching (by decide) (by decide) accepted rfl (by simp) changing (by decide)
    (changes.imp fun _ _ => appears_changes) behind (by decide) rfl (by decide) passed inside

/-- Behind the write the client names the key in a second `WATCH`, which takes the
place of the first: the transaction runs. -/
theorem second_watch_hides_write :
    ∃ watched, Run.run handle (twoClients 0) [.words 5 ["WATCH", "k"]] = .ok watched ∧
      watched.1.Executes (fun before after => before.Changes after (ascii "k"))
        (.ofArgs 6 [ascii "SET", ascii "k", ascii "1"]) ∧
      ∃ final, Run.run handle watched.1
          [.words 6 ["SET", "k", "1"], .words 5 ["WATCH", "k"], .words 5 ["MULTI"],
            .words 5 ["SET", "k", "2"], .words 5 ["EXEC"]] = .ok final ∧
        (final.2.getLast?.join.map fun seen => seen.effect.reply) =
          some (encodeRawArray [respOk]) ∧
        (final.1.store.contents (ascii "k")).bind Value.string? = some (ascii "2") := by
  refine Run.of_checked (fun watched => watched.1.Executes (appears (ascii "k"))
      (.ofArgs 6 [ascii "SET", ascii "k", ascii "1"]) ∧
    Run.Succeeds _ _) ?_ fun watched _ facts =>
      ⟨facts.1.imp fun _ _ => appears_changes, facts.2.ok⟩
  decide +kernel

end CommandContext

end Credis
