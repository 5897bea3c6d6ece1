import Credis.ReplyChecks

/-! `EXEC` against the same commands sent one by one. The commands of a
transaction are logged when they are queued, so the two routes differ in what the
log holds; every command works alike on both sides of that difference. -/

namespace Credis

open ByteString AofManager Run CommandContext Command

variable {left right : HandlerState} {send : Bool} {args : List Bytes} {fd : Fd}
  {ctx : CommandContext} {request : Request} {observation : Observation}

variable {next last final : CommandContext} {cmd raw : Bytes} {requests : List Request}
  {replies : List Bytes} {sends : List (Fd × Bytes)} {observations : List Observation}

def AofManager.settings (manager : AofManager) : (Bytes × Bytes) × (Bytes × Bytes) × Bool :=
  ((manager.appendonly, manager.appenddirname), (manager.appendfilename, manager.appendfsync),
    manager.rewriteInProgress)

namespace HandlerState

/-- The states differ at most in the content of the log. -/
inductive Alike (state : HandlerState) : HandlerState → Prop
  | log (aof : Option AofManager) :
      state.aofManager.map settings = aof.map settings →
      Alike state { state with aofManager := aof }

theorem Alike.refl (state : HandlerState) : Alike state state := .log _ rfl

theorem Alike.symm (alike : left.Alike right) : right.Alike left := by
  obtain ⟨aof, same⟩ := alike
  exact .log left.aofManager same.symm

theorem Alike.store (alike : left.Alike right) : right.store = left.store := by
  cases alike
  rfl

end HandlerState

structure Outcome.Alike (left right : Outcome) : Prop where
  state : left.state.Alike right.state
  result : left.result = right.result
  reply : left.reply = right.reply
  sends : left.sends = right.sends

section Handlers

variable {state : HandlerState} {aof : Option AofManager} {outcome : Outcome}

theorem onStore_alike
    (same : state.aofManager.map settings = aof.map settings)
    {handled : Except Fault (Store × Bytes)} (done : state.onStore handled = .ok outcome) :
    ∃ other, { state with aofManager := aof }.onStore handled = .ok other ∧
      outcome.Alike other := by
  obtain ⟨result, rfl, rfl⟩ := onStore_ok done
  exact ⟨_, rfl, .log aof same, rfl, rfl, rfl⟩

theorem onBlocking_alike
    (same : state.aofManager.map settings = aof.map settings)
    {handled : Except Fault BlockingOutcome} (done : state.onBlocking send handled = .ok outcome) :
    ∃ other, { state with aofManager := aof }.onBlocking send handled = .ok other ∧
      outcome.Alike other := by
  cases handled with
  | error fault => cases done
  | ok result =>
    simp only [HandlerState.onBlocking] at done ⊢
    split at done
    · cases done
    rename_i allowed
    cases done
    rw [if_neg allowed]
    exact ⟨_, rfl, .log aof same, rfl, rfl, rfl⟩

section

variable (manager : AofManager)

theorem settings_ensurePath (path content : Bytes) :
    (manager.ensurePath path content).settings = manager.settings := by
  unfold ensurePath
  split <;> rfl

theorem settings_ensureFile (dir : Bytes) :
    (manager.ensureFile dir).settings = manager.settings := by
  unfold ensureFile
  split
  · exact settings_ensurePath _ _ _
  · rfl

theorem settings_ensureManifest (dir : Bytes) :
    (manager.ensureManifest dir).settings = manager.settings := by
  unfold ensureManifest
  split
  · exact settings_ensurePath _ _ _
  · rfl

theorem settings_openFile (dir : Bytes) : (manager.openFile dir).settings = manager.settings := by
  unfold openFile
  split
  · dsimp only
    split
    · rfl
    · exact settings_ensurePath { manager with baseDir := dir } _ _
  · rfl

theorem settings_switchAppendonly (dir value : Bytes) :
    (switchAppendonly manager dir value).settings = (manager.setAppendonly value).settings := by
  unfold switchAppendonly
  dsimp only
  split
  · rw [settings_openFile, settings_ensureManifest, settings_ensureFile]
  · split <;> rfl

theorem settings_log (raw : Bytes) :
    ((manager.append raw).appendToRewriteBuffer raw).settings = manager.settings := by
  unfold append appendToRewriteBuffer appendTo
  split <;> split <;> rfl

end

theorem handleConfigGet_alike
    (same : state.aofManager.map settings = aof.map settings)
    (parameter : Bytes) :
    handleConfigGet state parameter =
      handleConfigGet { state with aofManager := aof } parameter := by
  have fields : ∀ (name : String) (read : AofManager → Bytes)
      (view : (Bytes × Bytes) × (Bytes × Bytes) × Bool → Bytes),
      (∀ manager, read manager = view manager.settings) →
      aofParameter state name read = aofParameter { state with aofManager := aof } name read := by
    intro name read view known
    have composed : read = view ∘ settings := funext known
    rw [aofParameter, aofParameter, composed, ← Option.map_map, same, Option.map_map]
  unfold handleConfigGet
  dsimp only
  rw [fields _ appendonly (fun view => view.1.1) fun _ => rfl,
    fields _ appenddirname (fun view => view.1.2) fun _ => rfl,
    fields _ appendfilename (fun view => view.2.1.1) fun _ => rfl,
    fields _ appendfsync (fun view => view.2.1.2) fun _ => rfl]

variable {left right : Option AofManager}

theorem settings_cases (same : left.map settings = right.map settings) :
    (left = none ∧ right = none) ∨ ∃ manager other, left = some manager ∧ right = some other ∧
      manager.settings = other.settings := by
  cases left with
  | none => exact .inl ⟨rfl, (Option.map_eq_none_iff.mp same.symm)⟩
  | some manager =>
    obtain ⟨other, found, equal⟩ := Option.map_eq_some_iff.mp same.symm
    exact .inr ⟨manager, other, rfl, found, equal.symm⟩

def SettingsAlike (left right : Option AofManager × Bytes) : Prop :=
  left.1.map settings = right.1.map settings ∧ left.2 = right.2

theorem handleConfigSet_alike (same : left.map settings = right.map settings)
    (dir parameter value : Bytes) :
    SettingsAlike (handleConfigSet left dir parameter value)
      (handleConfigSet right dir parameter value) := by
  rcases settings_cases same with ⟨rfl, rfl⟩ | ⟨manager, other, rfl, rfl, equal⟩
  · exact ⟨rfl, rfl⟩
  simp only [settings, Prod.mk.injEq] at equal
  obtain ⟨⟨first, second⟩, ⟨third, fourth⟩, fifth⟩ := equal
  unfold handleConfigSet
  dsimp only
  split
  · split
    · exact ⟨same, rfl⟩
    · refine ⟨?_, rfl⟩
      rw [Option.map_some, Option.map_some, settings_switchAppendonly,
        settings_switchAppendonly]
      simp [settings, setAppendonly, second, third, fourth, fifth]
  · split
    · split
      · exact ⟨same, rfl⟩
      · refine ⟨?_, rfl⟩
        simp [settings, setAppendfsync, first, second, third, fifth]
    · exact ⟨same, rfl⟩

theorem startRewrite_alike {left right : AofManager} (same : left.settings = right.settings)
    (store : Store) (dir : Bytes) (forked : Bool) :
    (left.startRewrite store dir forked).1.settings =
      (right.startRewrite store dir forked).1.settings ∧
    (left.startRewrite store dir forked).2 = (right.startRewrite store dir forked).2 := by
  have equal := same
  simp only [settings, Prod.mk.injEq] at equal
  obtain ⟨⟨first, second⟩, ⟨third, fourth⟩, fifth⟩ := equal
  simp only [startRewrite, enabled, first, fifth]
  split
  · exact ⟨same, rfl⟩
  · split <;> simp [settings, second, third, fourth]

theorem handleBgrewriteaof_alike
    (same : left.map settings = right.map settings) (store : Store)
    (dir : Bytes) (forked : Bool) :
    SettingsAlike (handleBgrewriteaof left store dir forked)
      (handleBgrewriteaof right store dir forked) := by
  rcases settings_cases same with ⟨rfl, rfl⟩ | ⟨manager, other, rfl, rfl, equal⟩
  · exact ⟨rfl, rfl⟩
  obtain ⟨settings, success⟩ := startRewrite_alike equal store dir forked
  simp only [AofManager.settings, Prod.mk.injEq] at equal
  obtain ⟨⟨first, -⟩, -, last⟩ := equal
  simp only [handleBgrewriteaof, first, last]
  split
  · exact ⟨same, rfl⟩
  split
  · exact ⟨same, rfl⟩
  generalize manager.startRewrite store dir forked = started at settings success ⊢
  generalize other.startRewrite store dir forked = others at settings success ⊢
  obtain ⟨started, done⟩ := started
  obtain ⟨others, also⟩ := others
  obtain rfl : done = also := success
  cases done with
  | false => exact ⟨congrArg some settings, rfl⟩
  | true => exact ⟨congrArg some settings, rfl⟩

theorem handleConfig_alike
    (same : state.aofManager.map settings = aof.map settings)
    (done : handleConfig state args = .ok outcome) :
    ∃ other, handleConfig { state with aofManager := aof } args = .ok other ∧
      outcome.Alike other := by
  rcases args with _ | ⟨name, _ | ⟨subcommand, _ | ⟨parameter, rest⟩⟩⟩ <;>
    try (cases done; exact ⟨_, rfl, .log aof same, rfl, rfl, rfl⟩)
  unfold handleConfig at done ⊢
  dsimp only at done ⊢
  split at done
  · rename_i get
    cases done
    rw [if_pos get]
    exact ⟨_, rfl, .log aof same, rfl, handleConfigGet_alike same parameter, rfl⟩
  rename_i get
  rw [if_neg get]
  split at done
  · rename_i set
    rw [if_pos set]
    cases rest with
    | nil =>
      cases done
      exact ⟨_, rfl, .log aof same, rfl, rfl, rfl⟩
    | cons value rest =>
      cases done
      obtain ⟨settings, reply⟩ := handleConfigSet_alike same state.config.dir parameter value
      exact ⟨_, rfl, .log _ settings, rfl, reply, rfl⟩
  · rename_i set
    cases done
    rw [if_neg set]
    exact ⟨_, rfl, .log aof same, rfl, rfl, rfl⟩

end Handlers

theorem handler_alike {now : Instant} {forked : Bool} {outcome : Outcome} (command : Command)
    (alike : left.Alike right)
    (handled : command.handler left now forked fd send args = .ok outcome) :
    ∃ other, command.handler right now forked fd send args = .ok other ∧ outcome.Alike other := by
  obtain ⟨aof, same⟩ := alike
  cases command with
  | set | mset | get | incr | llen | lpop | rpop | lrange | type | keys | zadd | zrank | zrange
  | zcard | zscore | zrem | geoadd | geopos | geodist | geosearch | xrange =>
    exact onStore_alike same handled
  | blpop | xadd | xread =>
    simp only [handler] at handled ⊢
    exact onBlocking_alike same handled
  | rpush | lpush =>
    cases send with
    | true => exact onBlocking_alike same handled
    | false => exact onStore_alike same handled
  | config => exact handleConfig_alike same handled
  | bgrewriteaof =>
    cases handled
    obtain ⟨settings, reply⟩ :=
      handleBgrewriteaof_alike same left.store left.config.dir forked
    exact ⟨_, rfl, .log _ settings, rfl, reply, rfl⟩
  | echo =>
    simp only [handler, handleEcho] at handled ⊢
    split at handled <;> cases handled
    exact ⟨_, rfl, .log aof same, rfl, rfl, rfl⟩
  | subscribe | unsubscribe =>
    rcases args with _ | ⟨name, _ | ⟨channel, rest⟩⟩
    · cases handled
      exact ⟨_, rfl, .log aof same, rfl, rfl, rfl⟩
    · cases handled
      exact ⟨_, rfl, .log aof same, rfl, rfl, rfl⟩
    · simp only [handler, handleSubscribe, handleUnsubscribe] at handled ⊢
      split at handled <;> cases handled <;> exact ⟨_, rfl, .log aof same, rfl, rfl, rfl⟩
  | ping | info | acl | auth | replconf | wait | psync | publish =>
    cases handled
    exact ⟨_, rfl, .log aof same, rfl, rfl, rfl⟩

theorem executeCommand_alike {outcome : Outcome} (alike : left.Alike right)
    (done : executeCommand left fd send args cmd = .ok outcome) :
    ∃ other, executeCommand right fd send args cmd = .ok other ∧ outcome.Alike other := by
  unfold executeCommand at done ⊢
  split at done
  · cases done
    exact ⟨_, rfl, alike, rfl, rfl, rfl⟩
  rename_i command _
  split at done
  · rename_i few
    cases done
    rw [if_pos few]
    exact ⟨_, rfl, alike, rfl, rfl, rfl⟩
  · rename_i enough
    rw [if_neg enough]
    obtain ⟨aof, same⟩ := alike
    refine handler_alike command ?_ done
    split
    · exact .log aof same
    · exact .log aof same

theorem unknownReply_lead (cmd : Bytes) : unknownLead <+: unknownReply cmd := by
  have lead : unknownLead <+: 45 :: ascii "ERR unknown command '" := by
    rw [ascii_eq rfl]
    decide
  refine lead.trans ⟨cmd ++ (ascii "'" ++ crlf), ?_⟩
  simp [unknownReply, encodeError]

theorem subscribedReply_lead (cmd : Bytes) :
    subscribedLead <+: subscribedReply cmd := by
  have lead : subscribedLead <+: 45 :: ascii "ERR Can't execute '" := by
    rw [ascii_eq rfl]
    decide
  refine lead.trans ⟨cmd ++ (ascii "' in subscribed mode" ++ crlf), ?_⟩
  simp [subscribedReply, encodeError]

theorem noauthReply_lead : noauthLead <+: noauthReply := by
  have lead : noauthLead <+: 45 :: ascii "NOAUTH Authentication required." := by
    rw [ascii_eq rfl]
    decide
  exact lead.trans ⟨crlf, rfl⟩

theorem unknownReply_apart {left right : Bytes} (lengths : left.length = right.length)
    (different : left ≠ right) : Apart (unknownReply left) (unknownReply right) := by
  apply Apart.of_length
  · simp [unknownReply, encodeError, lengths]
  · intro same
    simp only [unknownReply, encodeError, List.cons_append, List.append_assoc, List.cons.injEq,
      List.append_cancel_left_eq, List.append_cancel_right_eq, true_and] at same
    exact different same

namespace CommandContext

theorem sessionReplies_proper {reply : Bytes} (member : reply ∈ sessionReplies) : Proper reply := by
  simp only [sessionReplies, List.mem_cons, List.not_mem_nil, or_false] at member
  rcases member with rfl | rfl | rfl | rfl | rfl | rfl | rfl | rfl
  · exact proper_respOk
  · exact proper_encodeSimpleString (by decide)
  · exact ⟨by decide, values_encodeNullArray⟩
  all_goals exact proper_errorReply rfl (by decide)

theorem Settles.proper {outcome : CommandOutcome} (settles : ctx.Settles fd outcome) :
    Proper outcome.reply := by
  cases settles with
  | kept member | set _ member | cleared member => exact sessionReplies_proper member

def queuedReply (outcome : CommandOutcome) : Bytes :=
  if outcome.result = .normal then outcome.reply else notAllowedReply

theorem queuedReply_cases {outcome : CommandOutcome}
    (done : ctx.execute fd send args cmd = .ok outcome) :
    (lookup cmd = none ∧ queuedReply outcome = unknownReply cmd) ∨
      ((lookup cmd).isSome = true ∧ Plain (queuedReply outcome)) := by
  obtain ⟨handled, ran, -, -, result, reply, -⟩ := execute_ok done
  by_cases normal : handled.result = .normal
  · rw [queuedReply, result, if_pos normal, reply]
    exact (executeCommand_proper ran normal).imp_right fun found => ⟨found.1, found.2.plain⟩
  right
  rw [queuedReply, result, if_neg normal]
  refine ⟨?_, (proper_errorReply rfl (by decide)).plain⟩
  cases found : lookup cmd with
  | some command => rfl
  | none =>
    rw [executeCommand, found] at ran
    cases ran
    exact absurd rfl normal

theorem executed_cases {outcome : CommandOutcome}
    (done : ctx.execute fd send args cmd = .ok outcome) (normal : outcome.result = .normal) :
    (lookup cmd = none ∧ outcome.reply = unknownReply cmd) ∨
      ((lookup cmd).isSome = true ∧ Plain outcome.reply) := by
  have either := queuedReply_cases done
  rwa [queuedReply, if_pos normal] at either

theorem lookup_of_lower (lower : toUpper raw ≠ raw) : lookup raw = none := by
  cases found : lookup raw with
  | none => rfl
  | some command =>
    rw [lookup_name found, toUpper_name] at lower
    exact absurd rfl lower

theorem queuedReply_apart {left right : CommandContext} {rest : List Bytes}
    {queued direct : CommandOutcome} (ran : left.execute fd true (raw :: rest) raw = .ok queued)
    (serves : Serves right fd true (raw :: rest) (toUpper raw) direct)
    (table : toUpper raw ∉ controlCommands) (outside : right.txInMulti fd = false)
    (normal : direct.result = .normal)
    (differs : (∃ reply, right.gate fd (toUpper raw) = .ok (.rejected reply)) ∨
      toUpper raw ≠ raw) : Apart (queuedReply queued) direct.reply := by
  cases serves with
  | rejected refused =>
    rcases gate_rejected refused with rfl | rfl
    · rcases queuedReply_cases ran with ⟨-, unknown⟩ | ⟨-, plain⟩
      · rw [unknown]
        have leads : Apart unknownLead subscribedLead := by decide
        exact ((leads.extend (unknownReply_lead raw)).symm.extend
          (subscribedReply_lead (toUpper raw))).symm
      · exact (plain.2.1.extend (subscribedReply_lead (toUpper raw))).symm
    · rcases queuedReply_cases ran with ⟨-, unknown⟩ | ⟨-, plain⟩
      · rw [unknown]
        have leads : Apart unknownLead noauthLead := by decide
        exact ((leads.extend (unknownReply_lead raw)).symm.extend noauthReply_lead).symm
      · exact (plain.2.2.extend noauthReply_lead).symm
  | multi _ name | exec _ name | discard _ name | watch _ name | unwatch _ name =>
    exact absurd (by simp [name, controlCommands]) table
  | queued passed _ inside =>
    rw [gate_txInMulti passed, outside] at inside
    cases inside
  | executed passed _ _ done =>
    have lower : toUpper raw ≠ raw := by
      rcases differs with ⟨reply, refused⟩ | lower
      · rw [passed] at refused
        cases refused
      · exact lower
    rcases queuedReply_cases ran with ⟨-, unknown⟩ | ⟨found, -⟩
    · rw [unknown]
      rcases executed_cases done normal with ⟨-, other⟩ | ⟨-, plain⟩
      · rw [other]
        exact unknownReply_apart (by simp [toUpper]) lower.symm
      · exact plain.1.extend (unknownReply_lead raw)
    · rw [lookup_of_lower lower] at found
      cases found

theorem execute_alike {left right : CommandContext} {direct : CommandOutcome}
    (alike : right.toHandlerState.Alike left.toHandlerState)
    (done : right.execute fd send args cmd = .ok direct) :
    ∃ queued, left.execute fd send args cmd = .ok queued ∧
      direct.ctx.toHandlerState.Alike queued.ctx.toHandlerState ∧
      queued.result = direct.result ∧ queued.reply = direct.reply := by
  obtain ⟨handled, ran, state, -, result, reply, -⟩ := execute_ok done
  obtain ⟨other, also, same⟩ := executeCommand_alike alike ran
  unfold execute
  rw [also]
  refine ⟨_, rfl, ?_, ?_, ?_⟩
  · have kept : (if other.authenticated = true then
          { left with toHandlerState := other.state }.markConnection fd
        else { left with toHandlerState := other.state }).toHandlerState = other.state := by
      split <;> rfl
    rw [state]
    dsimp only
    rw [kept]
    exact same.state
  · rw [result]
    exact same.result.symm
  · rw [reply]
    exact same.reply.symm

theorem logCommand_alike {state : HandlerState} (alike : ctx.toHandlerState.Alike state)
    (cmd raw : Bytes) : (ctx.logCommand cmd raw).toHandlerState.Alike state := by
  unfold logCommand
  split
  · obtain ⟨aof, same⟩ := alike
    apply HandlerState.Alike.log aof
    rw [← same]
    cases ctx.aofManager with
    | none => rfl
    | some manager => simp [settings_log]
  · exact alike

theorem serve_table (served : ctx.serve request = .ok (next, observation))
    (table : request.name ∉ controlCommands) (outside : ctx.txInMulti request.fd = false) :
    next.txInMulti request.fd = false ∧ ∃ outcome,
      Serves ctx request.fd true request.args request.name outcome ∧
      next = outcome.ctx.logCommand request.name request.raw ∧
      observation.state = outcome.result ∧ observation.effect.reply = outcome.reply ∧
      (ctx.passes request = true → ∃ admitted : CommandContext,
        admitted.toHandlerState = ctx.toHandlerState ∧
        admitted.execute request.fd true request.args request.name = .ok outcome) ∧
      (ctx.passes request = false →
        ∃ reply, ctx.gate request.fd request.name = .ok (.rejected reply)) := by
  obtain ⟨outcome, -, serves, rfl, rfl⟩ := serve_ok served
  have kept := serves
  cases serves with
  | rejected refused =>
    refine ⟨?_, _, kept, rfl, rfl, rfl, ?_, fun _ => ⟨_, refused⟩⟩
    · rwa [txInMulti, logCommand_tx]
    · intro passed
      simp [passes, refused] at passed
  | multi _ name | exec _ name | discard _ name | watch _ name | unwatch _ name =>
    exact absurd (by simp [name, controlCommands]) table
  | queued passed _ inside =>
    rw [gate_txInMulti passed, outside] at inside
    cases inside
  | executed passed _ _ done =>
    refine ⟨?_, _, kept, rfl, rfl, rfl, fun _ => ⟨_, gate_toHandlerState passed, done⟩, ?_⟩
    · rwa [txInMulti, logCommand_tx, execute_tx done, gate_tx passed, ← txInMulti]
    · intro refused
      simp [passes, passed] at refused

theorem args_of_serve (served : ctx.serve request = .ok (next, observation)) :
    ∃ raw rest, request.args = raw :: rest := by
  cases args : request.args with
  | nil => simp [serve, step, args] at served
  | cons raw rest => exact ⟨raw, rest, rfl⟩

section Routes

variable {fd : Fd} {left right direct : CommandContext} {requests : List Request}
  {observations : List Observation}

section

variable (alike : right.toHandlerState.Alike left.toHandlerState)

include alike

theorem serve_alike (served : right.serve request = .ok (next, observation))
    (table : request.name ∉ controlCommands) (outside : right.txInMulti request.fd = false)
    (upper : request.args.headD [] = request.name) (passed : right.passes request = true) :
    ∃ cmd rest queued, request.args = cmd :: rest ∧
      left.execute request.fd true (cmd :: rest) cmd = .ok queued ∧
      next.toHandlerState.Alike queued.ctx.toHandlerState ∧
      queued.result = observation.state ∧ queued.reply = observation.effect.reply := by
  obtain ⟨cmd, rest, args⟩ := args_of_serve served
  obtain ⟨-, outcome, -, rfl, state, reply, executed, -⟩ := serve_table served table outside
  obtain ⟨admitted, same, done⟩ := executed passed
  have name : request.name = cmd := by rw [← upper, args]; rfl
  rw [← same] at alike
  obtain ⟨queued, ran, alike, result, text⟩ := execute_alike alike done
  rw [args, name] at ran
  exact ⟨cmd, rest, queued, args, ran, logCommand_alike alike _ _, result.trans state.symm,
    text.trans reply.symm⟩

section

variable (outside : right.txInMulti fd = false)
  (own : ∀ request ∈ requests, request.fd = fd ∧ request.name ∉ controlCommands)
  (ran : run serve right requests = .ok (direct, observations))
  (normal : ∀ observation ∈ observations, observation.state = .normal)
include outside own ran normal

theorem execQueued_alike
    (upper : ∀ request ∈ requests, request.args.headD [] = request.name)
    (passing : Along serve (fun ctx request => ctx.passes request = true) right requests) :
    ∃ final sends, execQueued fd true (requests.map Request.args) left =
        .ok (final, observations.map (fun seen => seen.effect.reply), sends) ∧
      direct.toHandlerState.Alike final.toHandlerState := by
  induction requests generalizing left right observations with
  | nil =>
    cases ran
    exact ⟨left, [], rfl, alike⟩
  | cons request requests ih =>
    obtain ⟨next, observation, later, served, rest, rfl⟩ := run_cons ran
    obtain ⟨rfl, table⟩ := own request List.mem_cons_self
    obtain ⟨cmd, words, queued, args, executed, alike, result, reply⟩ :=
      serve_alike alike served table outside (upper request List.mem_cons_self) passing.1
    obtain ⟨final, sends, more, last⟩ := ih alike (serve_table served table outside).1
      (fun other member => own other (List.mem_cons_of_mem _ member)) rest
      (fun other member => normal other (List.mem_cons_of_mem _ member))
      (fun other member => upper other (List.mem_cons_of_mem _ member)) (passing.next served)
    rw [normal observation List.mem_cons_self] at result
    refine ⟨final, queued.sends ++ sends, ?_, last⟩
    simp only [List.map_cons, args, execQueued, executed, more, result, reply, if_true]

theorem execQueued_agrees
    (done : execQueued fd true (requests.map Request.args) left = .ok (final, replies, sends))
    (agree : replies.flatten = (observations.map fun seen => seen.effect.reply).flatten) :
    (∀ request ∈ requests, request.args.headD [] = request.name) ∧
      Along serve (fun ctx request => ctx.passes request = true) right requests := by
  induction requests generalizing left right observations replies sends with
  | nil => exact ⟨fun _ member => absurd member List.not_mem_nil, trivial⟩
  | cons request requests ih =>
    obtain ⟨next, observation, later, served, rest, rfl⟩ := run_cons ran
    obtain ⟨rfl, table⟩ := own request List.mem_cons_self
    obtain ⟨raw, words, args, queued, behind, texts, others, executed, more, same⟩ :=
      execQueued_cons done
    cases same
    obtain ⟨still, outcome, serves, -, state, reply, -, refused⟩ :=
      serve_table served table outside
    have name : request.name = toUpper raw := by rw [Request.name, args]; rfl
    rw [List.map_cons, List.flatten_cons, List.flatten_cons, reply] at agree
    have finished : outcome.result = .normal := by
      rw [← state]
      exact normal observation List.mem_cons_self
    -- a reply that differs would show at its place in the array
    have equal : right.passes request = true ∧ toUpper raw = raw := by
      by_contra differs
      rw [args, name] at serves
      rw [name] at table
      refine (queuedReply_apart executed serves table outside finished ?_).append_ne _ _ agree
      by_cases passed : right.passes request = true
      · exact .inr fun upper => differs ⟨passed, upper⟩
      · rw [← name]
        exact .inl (refused (by simpa using passed))
    have upper : request.args.headD [] = request.name := by rw [name, equal.2, args]; rfl
    obtain ⟨cmd, _, same, parts, ran, alike, result, text⟩ :=
      serve_alike alike served table outside upper equal.1
    rw [args] at parts
    cases parts
    rw [executed] at ran
    cases ran
    have head : queuedReply queued = outcome.reply := by
      rw [queuedReply, result, normal observation List.mem_cons_self, if_pos rfl, text, reply]
    rw [queuedReply] at head
    rw [head, List.append_cancel_left_eq] at agree
    obtain ⟨uppers, passing⟩ := ih alike still
      (fun other member => own other (List.mem_cons_of_mem _ member)) rest
      (fun other member => normal other (List.mem_cons_of_mem _ member)) more agree
    refine ⟨?_, equal.1, ?_⟩
    · intro other member
      rcases List.mem_cons.mp member with rfl | member
      · exact upper
      · exact uppers other member
    · rw [served]
      exact passing

end

end

end Routes

theorem txInMulti_eq (ctx : CommandContext) (fd : Fd) :
    ctx.txInMulti fd = (ctx.txGet fd).inMulti := by
  unfold txInMulti txGet
  cases ctx.tx fd <;> rfl

def Tidy (ctx : CommandContext) : Prop :=
  ∀ fd, ctx.txInMulti fd = false → (ctx.txGet fd).queuedCommands = []

theorem tidy_of_none (idle : ∀ fd, ctx.tx fd = none) : ctx.Tidy := by
  intro fd _
  rw [txGet, idle fd]
  rfl

theorem Tidy.serve (tidy : ctx.Tidy) (served : ctx.serve request = .ok (next, observation)) :
    next.Tidy := by
  obtain ⟨outcome, -, serves, rfl, -⟩ := serve_ok served
  intro fd
  rw [txInMulti_eq, txGet, logCommand_tx]
  have known := tidy fd
  rw [txInMulti_eq] at known
  by_cases own : fd = request.fd
  · subst own
    have step := serves.tx_step
    generalize outcome.ctx.tx request.fd = tx at step ⊢
    intro outside
    cases step with
    | same => exact known outside
    | begun => cases outside
    | ended => rfl
    | watched =>
      rw [Option.getD_some, watchKeys_inMulti] at outside
      rw [Option.getD_some, watchKeys_queuedCommands]
      exact known outside
    | unwatched => exact known outside
    | queued _ _ inside =>
      rw [txInMulti_eq] at inside
      rw [Option.getD_some, inside] at outside
      cases outside
  · rw [serves.tx_other own]
    exact known

theorem Tidy.handle {event : Event} {output : Option Observation} (tidy : ctx.Tidy)
    (handled : ctx.handle event = .ok (next, output)) : next.Tidy := by
  have moved : ∀ after : CommandContext, (∀ fd, after.tx fd = ctx.tx fd ∨ after.tx fd = none) →
      after.Tidy := by
    intro after changes fd
    rw [txInMulti_eq, txGet]
    rcases changes fd with same | gone
    · have known := tidy fd
      rw [txInMulti_eq, txGet] at known
      rw [same]
      exact known
    · rw [gone]
      exact fun _ => rfl
  cases event with
  | request request =>
    obtain ⟨observation, served, -⟩ := handle_request handled
    exact tidy.serve served
  | connect fd =>
    cases handled
    exact moved _ (tx_addConnection_or ctx fd)
  | disconnect fd =>
    cases handled
    exact moved _ (tx_dropConnection_or ctx fd)
  | timeouts now status =>
    cases handled
    exact moved _ fun _ => .inl rfl

/-- The connection is inside a transaction with these commands in its queue, and
its commands pass the gates. -/
structure Queueing (base : HandlerState) (fd : Fd) (queue : List (List Bytes))
    (ctx : CommandContext) : Prop where
  state : base.Alike ctx.toHandlerState
  tx : ctx.tx fd = some ⟨true, queue, ∅⟩
  connected : ctx.hasConnection fd = true
  authenticated : ctx.isAuthenticated fd = true
  unsubscribed : ctx.isSubscribed fd = false

namespace Queueing

variable {base : HandlerState} {fd : Fd} {queue : List (List Bytes)} {ctx : CommandContext}

theorem gate (queueing : Queueing base fd queue ctx) (cmd : Bytes) :
    ctx.gate fd cmd = .ok (.admitted ctx) := by
  rw [CommandContext.gate, if_neg (by simp [queueing.unsubscribed]),
    if_neg (by simp [queueing.connected]), if_pos (.inr queueing.authenticated)]

theorem log (queueing : Queueing base fd queue ctx) (cmd raw : Bytes) :
    Queueing base fd queue (ctx.logCommand cmd raw) := by
  have alike := (logCommand_alike queueing.state.symm cmd raw).symm
  rw [logCommand_eq] at alike ⊢
  exact ⟨alike, queueing.tx, queueing.connected, queueing.authenticated, queueing.unsubscribed⟩

theorem set (queueing : Queueing base fd queue ctx) (more : List (List Bytes)) :
    Queueing base fd more (ctx.setTx fd ⟨true, more, ∅⟩) where
  state := by
    rw [setTx_toHandlerState]
    exact queueing.state
  tx := tx_setTx ctx fd _ queueing.connected
  connected := by rw [setTx_hasConnection, queueing.connected]
  authenticated := by rw [isAuthenticated_setTx, queueing.authenticated]
  unsubscribed := by
    rw [setTx_toHandlerState]
    exact queueing.unsubscribed

theorem serve (queueing : Queueing base request.fd queue ctx) (named : request.args ≠ [])
    (table : request.name ∉ controlCommands) :
    ∃ next observation, ctx.serve request = .ok (next, observation) ∧
      Queueing base request.fd (queue ++ [request.args]) next := by
  have inside : ctx.txInMulti request.fd = true := by rw [txInMulti, queueing.tx]; rfl
  have known : ctx.txGet request.fd = ⟨true, queue, ∅⟩ := by rw [txGet, queueing.tx]; rfl
  simp only [controlCommands, List.mem_cons, List.not_mem_nil, or_false, not_or] at table
  obtain ⟨multi, exec, discard, watch, unwatch⟩ := table
  have done : ctx.processSingleCommand request.fd true request.args request.name =
      .ok (ctx.queueCommand request.fd request.args) := by
    rw [process_of_gate named (queueing.gate request.name), processAdmitted, if_neg multi,
      if_neg exec, if_neg discard, if_neg watch, if_neg unwatch, if_pos inside]
  refine ⟨_, _, serve_of_process named done, ?_⟩
  rw [queueCommand, known]
  exact (queueing.set _).log _ _

theorem run (queueing : Queueing base fd queue ctx)
    (own : ∀ request ∈ requests, request.fd = fd ∧ request.name ∉ controlCommands)
    (named : ∀ request ∈ requests, request.args ≠ []) :
    ∃ next observations, run CommandContext.serve ctx requests = .ok (next, observations) ∧
      Queueing base fd (queue ++ requests.map Request.args) next := by
  induction requests generalizing ctx queue with
  | nil => exact ⟨ctx, [], rfl, by rw [List.map_nil, List.append_nil]; exact queueing⟩
  | cons request requests ih =>
    obtain ⟨rfl, table⟩ := own request List.mem_cons_self
    obtain ⟨next, observation, served, longer⟩ :=
      queueing.serve (named request List.mem_cons_self) table
    obtain ⟨last, observations, rest, whole⟩ := ih longer
      (fun other member => own other (List.mem_cons_of_mem _ member))
      (fun other member => named other (List.mem_cons_of_mem _ member))
    refine ⟨last, observation :: observations, by simp only [run, served, rest], ?_⟩
    rwa [List.append_assoc] at whole

theorem exec_eq (queueing : Queueing base fd queue ctx) :
    ctx.exec fd true =
      match execQueued fd true queue ctx with
      | .error fault => .error fault
      | .ok (final, replies, sends) =>
        .ok ⟨final.clearTx fd, .normal, encodeRawArray replies, sends⟩ := by
  have known : ctx.txGet fd = ⟨true, queue, ∅⟩ := by rw [txGet, queueing.tx]; rfl
  rw [exec, txInMulti_eq, known]
  rfl

theorem serve_exec (queueing : Queueing base request.fd queue ctx)
    (commits : request.name = ascii "EXEC")
    (done : execQueued request.fd true queue ctx = .ok (final, replies, sends)) :
    ∃ last observation, ctx.serve request = .ok (last, observation) ∧
      last.store = final.store ∧ observation.effect.reply = encodeRawArray replies := by
  have named := Request.args_ne_nil commits (by decide)
  have through : ctx.processSingleCommand request.fd true request.args request.name =
      .ok ⟨final.clearTx request.fd, .normal, encodeRawArray replies, sends⟩ := by
    rw [process_of_gate named (queueing.gate request.name), processAdmitted,
      if_neg (by rw [commits]; decide), if_pos commits, queueing.exec_eq, done]
  refine ⟨_, _, serve_of_process named through, ?_, rfl⟩
  rw [logCommand_store, clearTx_toHandlerState]

theorem exec_served (queueing : Queueing base request.fd queue ctx)
    (commits : request.name = ascii "EXEC") (served : ctx.serve request = .ok (last, observation)) :
    ∃ final replies sends, execQueued request.fd true queue ctx = .ok (final, replies, sends) ∧
      observation.effect.reply = encodeRawArray replies := by
  cases done : execQueued request.fd true queue ctx with
  | ok result =>
    obtain ⟨final, replies, sends⟩ := result
    obtain ⟨other, seen, also, -, reply⟩ := queueing.serve_exec commits done
    rw [served] at also
    cases also
    exact ⟨final, replies, sends, rfl, reply⟩
  | error fault =>
    obtain ⟨outcome, processed, -⟩ := serve_ok served
    have named := Request.args_ne_nil commits (by decide)
    rw [process_of_gate named (queueing.gate request.name), processAdmitted,
      if_neg (by rw [commits]; decide), if_pos commits, queueing.exec_eq, done] at processed
    cases processed

end Queueing

theorem serve_multi (outside : ctx.txInMulti request.fd = false)
    (idle : ctx.txGet request.fd = TransactionState.fresh) (begins : request.name = ascii "MULTI")
    (passed : ctx.passes request = true) :
    ∃ next observation, ctx.serve request = .ok (next, observation) ∧
      Queueing ctx.toHandlerState request.fd [] next := by
  have named := Request.args_ne_nil begins (by decide)
  obtain ⟨admitted, admitting⟩ := passes_admitted passed
  have done : ctx.processSingleCommand request.fd true request.args request.name =
      .ok ((admitted.setTx request.fd ⟨true, [], ∅⟩).replied respOk) := by
    rw [process_of_gate named admitting, processAdmitted, if_pos begins, multi,
      gate_txInMulti admitting, outside,
      gate_txGet admitting, idle]
    rfl
  refine ⟨_, _, serve_of_process named done, Queueing.log ?_ _ _⟩
  obtain ⟨-, connected, authenticated, subscribed⟩ := gate_admitted admitting
  have same := gate_toHandlerState admitting
  have there := gate_hasConnection admitting
  refine ⟨?_, tx_setTx _ _ _ there, by rw [replied, setTx_hasConnection, there], ?_, ?_⟩
  · rw [replied, setTx_toHandlerState, same]
    exact .refl _
  · rw [replied, isAuthenticated_setTx]
    refine authenticated.resolve_left ?_
    rw [begins]
    decide
  · rw [replied, setTx_toHandlerState, same]
    cases known : ctx.isSubscribed request.fd with
    | false => rfl
    | true =>
      have allowed := subscribed known
      rw [begins] at allowed
      exact absurd allowed (by decide)

theorem serve_exec_outside (served : ctx.serve request = .ok (next, observation))
    (commits : request.name = ascii "EXEC") (outside : ctx.txInMulti request.fd = false) :
    ∃ text, observation.effect.reply = encodeError text := by
  obtain ⟨outcome, -, serves, -, rfl⟩ := serve_ok served
  dsimp only
  have control : request.name ∈ controlCommands := by simp [commits, controlCommands]
  cases serves with
  | rejected refused =>
    rcases gate_rejected refused with rfl | rfl
    · exact ⟨_, rfl⟩
    · exact ⟨_, rfl⟩
  | multi _ name | discard _ name | watch _ name | unwatch _ name =>
    exact absurd (commits.symm.trans name) (by decide)
  | queued _ table => exact absurd control table
  | executed _ table => exact absurd control table
  | exec passed _ done =>
    rw [exec, gate_txInMulti passed, outside, if_pos rfl] at done
    cases done
    exact ⟨_, rfl⟩

theorem run_outside (outside : ctx.txInMulti fd = false)
    (own : ∀ request ∈ requests, request.fd = fd ∧ request.name ∉ controlCommands)
    (ran : run serve ctx requests = .ok (last, observations)) : last.txInMulti fd = false := by
  refine run_invariant (fun ctx => ctx.txInMulti fd = false) ?_ outside
    (along_of_forall own ctx) ran
  intro state request next observation holds meets served
  obtain ⟨rfl, table⟩ := meets
  exact (serve_table served table holds).1

theorem execQueued_length {queue : List (List Bytes)} {after : CommandContext}
    (done : execQueued fd send queue ctx = .ok (after, replies, sends)) :
    replies.length = queue.length := by
  induction queue generalizing ctx replies sends with
  | nil =>
    cases done
    rfl
  | cons args queue ih =>
    obtain ⟨cmd, rest, rfl, outcome, final, later, others, executed, more, same⟩ :=
      execQueued_cons done
    cases same
    rw [List.length_cons, List.length_cons, ih more]

theorem run_named (ran : run serve ctx requests = .ok (last, observations)) :
    ∀ request ∈ requests, request.args ≠ [] := by
  induction requests generalizing ctx observations with
  | nil => exact fun _ member => absurd member List.not_mem_nil
  | cons request requests ih =>
    obtain ⟨next, observation, later, served, rest, rfl⟩ := run_cons ran
    obtain ⟨raw, words, args⟩ := args_of_serve served
    intro other member
    rcases List.mem_cons.mp member with rfl | member
    · rw [args]
      exact List.cons_ne_nil raw words
    · exact ih rest other member

theorem serve_tx_of_refused (served : ctx.serve request = .ok (next, observation))
    (refused : ctx.passes request ≠ true) (fd : Fd) : next.tx fd = ctx.tx fd := by
  obtain ⟨outcome, -, serves, rfl, -⟩ := serve_ok served
  cases serves with
  | rejected _ => rw [logCommand_tx, replied]
  | multi passed | exec passed | discard passed | watch passed | unwatch passed
  | queued passed | executed passed => exact absurd (by simp [passes, passed]) refused

/-- A connection that is not in a transaction and watches nothing sends `MULTI`,
its commands and `EXEC`. This is the same as sending the commands if and only if
`MULTI` and all of the commands pass the gates and the names are in upper case. -/
theorem exec_means_sequential_iff {start ctx direct : CommandContext} {fd : Fd}
    {events : List Event} {seen : List (Option Observation)} {multi exec : Request}
    {requests : List Request} {observations : List Observation}
    (idle : ∀ fd, start.tx fd = none) (reached : Run.run handle start events = .ok (ctx, seen))
    (outside : ctx.txInMulti fd = false) (unwatched : (ctx.txGet fd).watchedKeys = ∅)
    (begins : multi.fd = fd ∧ multi.name = ascii "MULTI")
    (commits : exec.fd = fd ∧ exec.name = ascii "EXEC")
    (own : ∀ request ∈ requests, request.fd = fd ∧ request.name ∉ controlCommands)
    (ran : Run.run serve ctx requests = .ok (direct, observations))
    (normal : ∀ observation ∈ observations, observation.state = .normal) :
    (∃ last early final, Run.run serve ctx (multi :: requests ++ [exec]) =
        .ok (last, early ++ [final]) ∧ last.store = direct.store ∧
      final.effect.reply = encodeRawArray (observations.map fun seen => seen.effect.reply)) ↔
    (ctx.passes multi = true ∧ (∀ request ∈ requests, request.args.headD [] = request.name) ∧
      Run.Along serve (fun ctx request => ctx.passes request = true) ctx requests) := by
  obtain ⟨rfl, begins⟩ := begins
  obtain ⟨caller, commits⟩ := commits
  have tidy : ctx.Tidy :=
    Run.run_invariant Tidy (fun _ _ _ _ holds _ handled => holds.handle handled)
      (tidy_of_none idle) (Run.along_of_forall (fun _ _ => trivial) start) reached
  have fresh : ctx.txGet multi.fd = TransactionState.fresh := by
    have free := outside
    have queue := tidy multi.fd outside
    rw [txInMulti_eq] at free
    generalize ctx.txGet multi.fd = tx at free queue unwatched
    obtain ⟨inMulti, queued, watched⟩ := tx
    cases free
    cases queue
    cases unwatched
    rfl
  have named := run_named ran
  constructor
  · rintro ⟨last, early, final, done, -, reply⟩
    obtain ⟨middle, before, served⟩ := Run.run_concat done
    obtain ⟨next, first, later, started, queued, rfl⟩ := Run.run_cons before
    by_cases passed : ctx.passes multi = true
    · obtain ⟨other, same, begun, queueing⟩ := serve_multi outside fresh begins passed
      rw [started] at begun
      cases begun
      obtain ⟨whole, others, through, queueing⟩ := queueing.run own named
      rw [queued] at through
      cases through
      rw [← caller] at queueing
      obtain ⟨behind, replies, sends, executed, text⟩ := queueing.exec_served commits served
      rw [List.nil_append, caller] at executed
      rw [text, encodeRawArray, encodeRawArray, execQueued_length executed, List.length_map,
        List.length_map, Run.run_length ran, List.append_cancel_left_eq] at reply
      rw [List.nil_append] at queueing
      exact ⟨passed, execQueued_agrees queueing.state outside own ran normal executed reply⟩
    · have still : next.txInMulti multi.fd = false := by
        rwa [txInMulti, serve_tx_of_refused started passed, ← txInMulti]
      have after := run_outside still own queued
      rw [← caller] at after
      obtain ⟨text, failure⟩ := serve_exec_outside served commits after
      rw [failure] at reply
      simp [encodeError, encodeRawArray, arrayHeader] at reply
  · rintro ⟨passed, upper, passing⟩
    obtain ⟨next, first, started, queueing⟩ := serve_multi outside fresh begins passed
    obtain ⟨whole, others, through, queueing⟩ := queueing.run own named
    obtain ⟨final, sends, executed, alike⟩ :=
      execQueued_alike queueing.state outside own ran normal upper passing
    rw [List.nil_append, ← caller] at queueing
    rw [← caller] at executed
    obtain ⟨last, observation, served, store, reply⟩ := queueing.serve_exec commits executed
    refine ⟨last, first :: others, observation, ?_, ?_, reply⟩
    · have queue : Run.run serve ctx (multi :: requests) = .ok (whole, first :: others) := by
        simp only [Run.run, started, through]
      have behind : Run.run serve whole [exec] = .ok (last, [observation]) := by
        simp only [Run.run, served]
      exact Run.run_join queue behind
    · rw [store, alike.store]

def setThenGet : List Request :=
  [.ofArgs 5 [ascii "SET", ascii "k", ascii "1"], .ofArgs 5 [ascii "GET", ascii "k"]]

theorem multi_set_get_exec :
    ∃ direct, Run.run serve (twoClients 0) setThenGet = .ok direct ∧
      ∃ last early final, Run.run serve (twoClients 0)
          (.ofArgs 5 [ascii "MULTI"] :: setThenGet ++ [.ofArgs 5 [ascii "EXEC"]]) =
            .ok (last, early ++ [final]) ∧
        last.store = direct.1.store ∧
        final.effect.reply = encodeRawArray (direct.2.map fun seen => seen.effect.reply) := by
  refine Run.of_checked (fun direct => (∀ observation ∈ direct.2, observation.state = .normal) ∧
    (twoClients 0).passes (.ofArgs 5 [ascii "MULTI"]) = true ∧
    Run.Along serve (fun ctx request => ctx.passes request = true) (twoClients 0) setThenGet)
    (by decide +kernel) ?_
  rintro ⟨direct, observations⟩ ran ⟨normal, passed, passing⟩
  have fresh : (twoClients 0).txGet 5 = TransactionState.fresh := by
    rw [txGet, twoClients_tx]
    rfl
  exact (@exec_means_sequential_iff (twoClients 0) (twoClients 0) direct 5 [] []
    (.ofArgs 5 [ascii "MULTI"]) (.ofArgs 5 [ascii "EXEC"]) _ observations
    (twoClients_tx 0) rfl (by rw [txInMulti_eq, fresh]; rfl) (by rw [fresh]; rfl)
    ⟨rfl, by decide⟩ ⟨rfl, by decide⟩ (by decide) ran normal).mpr ⟨passed, by decide, passing⟩

/-- The name in lower case is known when the command is sent and unknown in the
queue. -/
theorem lower_case_name_is_unknown_in_exec :
    (∃ direct, Run.run serve (twoClients 0)
        [.ofArgs 5 [ascii "set", ascii "k", ascii "1"]] = .ok direct ∧
      (direct.2.map fun seen => (seen.state, seen.effect.reply)) = [(.normal, respOk)] ∧
      (direct.1.store.contents (ascii "k")).bind Value.string? = some (ascii "1")) ∧
    ∃ last, Run.run serve (twoClients 0)
        [.ofArgs 5 [ascii "MULTI"], .ofArgs 5 [ascii "set", ascii "k", ascii "1"],
          .ofArgs 5 [ascii "EXEC"]] = .ok last ∧
      (last.2.getLast?.map fun seen => seen.effect.reply) =
        some (encodeRawArray [unknownReply (ascii "set")]) ∧
      (last.1.store.contents (ascii "k")).isSome = false :=
  ⟨Run.Succeeds.ok (by decide +kernel), Run.Succeeds.ok (by decide +kernel)⟩

end CommandContext

end Credis
