import Credis.ExecChecks
import Credis.WakeChecks

/-! A handler with a connection pool and one without, driven by the same commands.
Each keeps the transaction and the admission of a descriptor in a place of its own;
`AUTH` writes to one of the two places only. -/

namespace Credis

open ByteString ConnectionPool

variable {state : HandlerState} {outcome : Outcome} {send : Bool} {fd : Fd} {args : List Bytes}
  {ctx : CommandContext}

variable {request : Request} {cmd : Bytes}

theorem onBlocking_silent {handled : Except Fault BlockingOutcome}
    (done : state.onBlocking send handled = .ok outcome) (pending : outcome.result ≠ .normal)
    (silent : ∀ result, handled = .ok result → result.blocked = true → result.reply = []) :
    outcome.reply = [] := by
  obtain ⟨result, success, -, rfl⟩ := onBlocking_ok done
  cases blocked : result.blocked with
  | false => simp [blocked] at pending
  | true => exact silent result success blocked

theorem BlockingOutcome.Ends.silent {manager : Option BlockingManager} {now : Time}
    {waits : Store → Key → StreamId → Int → Prop} {result : BlockingOutcome}
    (ends : result.Ends manager now fd waits) (blocked : result.blocked = true) :
    result.reply = [] := by
  cases ends with
  | refused | popped | read => cases blocked
  | blocks => rfl

theorem handler_pending {now : Instant} {forked : Bool} (command : Command)
    (handled : command.handler state now forked fd send args = .ok outcome)
    (pending : outcome.result ≠ .normal) : outcome.reply = [] ∨ [43] <+: outcome.reply := by
  cases Command.handled handled with
  | blocking _ member =>
    simp only [List.mem_cons, List.not_mem_nil, or_false] at member
    rcases member with rfl | rfl | rfl | rfl | rfl
    case inl | inr.inl =>
      cases send with
      | true =>
        refine .inl (onBlocking_silent handled pending fun result succeeds blocked => ?_)
        rw [(handlePushWithBlocking_manager succeeds).1] at blocked
        cases blocked
      | false =>
        obtain ⟨result, -, same⟩ := onStore_ok handled
        exact absurd (congrArg Outcome.result same) pending
    · exact .inl (onBlocking_silent handled pending
        fun _ succeeds => (handleBlpop_ends succeeds).silent)
    · refine .inl (onBlocking_silent handled pending fun result succeeds blocked => ?_)
      rw [(handleXaddWithBlocking_manager succeeds).1] at blocked
      cases blocked
    · simp only [Command.handler] at handled
      refine .inl (onBlocking_silent handled pending fun result succeeds => ?_)
      cases succeeds
      exact (handleXread_ends _ _ _ _ _).silent
  | wait =>
    left
    unfold handleWait at pending ⊢
    dsimp only at pending ⊢
    split
    · split
      · rfl
      · simp_all
    · simp_all
  | psync =>
    right
    have lead : [43] <+: ascii "+FULLRESYNC " := by
      rw [ascii_eq rfl]
      decide
    simp only [handlePsync, List.append_assoc]
    exact lead.trans (List.prefix_append _ _)
  | _ => exact absurd rfl pending

namespace CommandContext

theorem plain_ne_noauth {reply : Bytes} (plain : Plain reply) : reply ≠ noauthReply := by
  rintro rfl
  exact plain.2.2.1 noauthReply_lead

theorem unknownReply_ne_noauth (cmd : Bytes) : unknownReply cmd ≠ noauthReply := by
  intro same
  have leads : Apart unknownLead noauthLead := by decide
  have apart := (leads.extend (unknownReply_lead cmd)).symm.extend noauthReply_lead
  rw [same] at apart
  exact apart.1 List.prefix_rfl

theorem execute_ne_noauth {outcome : CommandOutcome}
    (done : ctx.execute fd send args cmd = .ok outcome) : outcome.reply ≠ noauthReply := by
  by_cases normal : outcome.result = .normal
  · rcases executed_cases done normal with ⟨-, unknown⟩ | ⟨-, plain⟩
    · rw [unknown]
      exact unknownReply_ne_noauth cmd
    · exact plain_ne_noauth plain
  · obtain ⟨handled, ran, -, -, result, reply, -⟩ := execute_ok done
    rw [result] at normal
    rw [reply]
    unfold executeCommand at ran
    split at ran
    · cases ran
      exact absurd rfl normal
    rename_i command _
    split at ran
    · cases ran
      exact absurd rfl normal
    rcases handler_pending command ran normal with silent | opening
    · rw [silent]
      decide
    rintro same
    rw [same] at opening
    revert opening
    decide

theorem serves_ne_noauth {admitted : CommandContext} {outcome : CommandOutcome}
    (serves : Serves ctx fd send args cmd outcome)
    (passed : ctx.gate fd cmd = .ok (.admitted admitted)) : outcome.reply ≠ noauthReply := by
  rcases serves.state_cases with idle | ⟨_, _, _, _, -, -, -, -, -, rfl⟩ | ⟨_, -, -, -, done⟩
  · cases idle with
    | rejected refused => cases passed.symm.trans refused
    | settled _ _ _ settles => exact plain_ne_noauth settles.proper.plain
  · exact plain_ne_noauth ((by decide : Plain [42]).append _)
  · exact execute_ne_noauth done

/-- The two handlers are in one state but for the connections. What the one without a
pool has admitted, the pool has admitted too. -/
structure Mirrors (fds : List Fd) (pooled bare : CommandContext) : Prop where
  state : pooled.toHandlerState = bare.toHandlerState
  pool : pooled.connPool.isSome = true
  noPool : bare.connPool = none
  connected : ∀ fd ∈ fds, pooled.hasConnection fd = true
  tx : ∀ fd ∈ fds, pooled.tx fd = bare.tx fd
  known : ∀ fd ∈ fds, bare.isAuthenticated fd = true → pooled.isAuthenticated fd = true

theorem hasConnection_bare (noPool : ctx.connPool = none) (fd : Fd) :
    ctx.hasConnection fd = true := by
  simp [hasConnection, noPool]

theorem isAuthenticated_bare (noPool : ctx.connPool = none) {other : Fd}
    (known : (ctx.setAuthenticated fd).isAuthenticated other = true) :
    other = fd ∨ ctx.isAuthenticated other = true := by
  simp only [setAuthenticated, isAuthenticated, noPool, decide_eq_true_eq] at known ⊢
  exact List.mem_insert_iff.mp known

namespace Mirrors

variable {fds : List Fd} {pooled bare : CommandContext} {fd : Fd}

section

variable (mirrors : Mirrors fds pooled bare)

include mirrors

theorem setTx (member : fd ∈ fds) (tx : TransactionState) :
    Mirrors fds (pooled.setTx fd tx) (bare.setTx fd tx) where
  state := by simpa using mirrors.state
  pool := by
    obtain ⟨pool, found⟩ := Option.isSome_iff_exists.mp mirrors.pool
    simp [CommandContext.setTx, found]
  noPool := by simp [CommandContext.setTx, mirrors.noPool]
  connected other held := by simpa using mirrors.connected other held
  tx other held := by
    by_cases same : other = fd
    · subst same
      rw [tx_setTx _ _ _ (mirrors.connected other held),
        tx_setTx _ _ _ (hasConnection_bare mirrors.noPool other)]
    · rw [tx_setTx_ne _ _ _ _ same, tx_setTx_ne _ _ _ _ same, mirrors.tx other held]
  known other held := by simpa using mirrors.known other held

theorem clearTx (fd : Fd) : Mirrors fds (pooled.clearTx fd) (bare.clearTx fd) where
  state := by simpa using mirrors.state
  pool := by
    obtain ⟨pool, found⟩ := Option.isSome_iff_exists.mp mirrors.pool
    simp [CommandContext.clearTx, found]
  noPool := by simp [CommandContext.clearTx, mirrors.noPool]
  connected other held := by simpa using mirrors.connected other held
  tx other held := by
    by_cases same : other = fd
    · rw [same, tx_clearTx, tx_clearTx]
    · rw [tx_clearTx_ne _ _ _ same, tx_clearTx_ne _ _ _ same, mirrors.tx other held]
  known other held := by simpa using mirrors.known other held

theorem markConnection (fd : Fd) : Mirrors fds (pooled.markConnection fd) bare where
  state := mirrors.state
  pool := by simpa [CommandContext.markConnection] using mirrors.pool
  noPool := mirrors.noPool
  connected other held := by simpa using mirrors.connected other held
  tx other held := by simpa using mirrors.tx other held
  known other held known :=
    isAuthenticated_markConnection pooled fd other (mirrors.known other held known)

theorem setBare (known : pooled.isAuthenticated fd = true) :
    Mirrors fds pooled (bare.setAuthenticated fd) where
  state := by simpa using mirrors.state
  pool := mirrors.pool
  noPool := by simp [CommandContext.setAuthenticated, mirrors.noPool]
  connected := mirrors.connected
  tx other held := by simpa using mirrors.tx other held
  known other held admitted := by
    rcases isAuthenticated_bare mirrors.noPool admitted with same | before
    · rw [same]
      exact known
    · exact mirrors.known other held before

theorem setAuthenticated (member : fd ∈ fds) :
    Mirrors fds (pooled.setAuthenticated fd) (bare.setAuthenticated fd) := by
  have known := isAuthenticated_setAuthenticated pooled fd (mirrors.connected fd member)
  obtain ⟨pool, found⟩ := Option.isSome_iff_exists.mp mirrors.pool
  have marks : pooled.setAuthenticated fd = pooled.markConnection fd := by
    simp only [CommandContext.setAuthenticated, found]
  rw [marks] at known ⊢
  exact (mirrors.markConnection fd).setBare known

theorem withState (state : HandlerState) :
    Mirrors fds { pooled with toHandlerState := state } { bare with toHandlerState := state } where
  state := rfl
  pool := mirrors.pool
  noPool := mirrors.noPool
  connected := mirrors.connected
  tx := mirrors.tx
  known := mirrors.known

theorem txInMulti (member : fd ∈ fds) : pooled.txInMulti fd = bare.txInMulti fd := by
  rw [CommandContext.txInMulti, mirrors.tx fd member, CommandContext.txInMulti]

theorem txGet (member : fd ∈ fds) : pooled.txGet fd = bare.txGet fd := by
  rw [CommandContext.txGet, mirrors.tx fd member, CommandContext.txGet]

theorem store : pooled.store = bare.store := by
  rw [mirrors.state]

end

end Mirrors

inductive Mirrored (fds : List Fd) :
    Except Fault CommandOutcome → Except Fault CommandOutcome → Prop
  | failed (fault : Fault) : Mirrored fds (.error fault) (.error fault)
  | done {first second : CommandOutcome} : Mirrors fds first.ctx second.ctx →
      first.result = second.result → first.reply = second.reply → first.sends = second.sends →
      Mirrored fds (.ok first) (.ok second)

section Step

variable {fds : List Fd} {pooled bare : CommandContext} {fd : Fd} {send : Bool}
  {args : List Bytes} {cmd : Bytes}

theorem mirrored_replied (mirrors : Mirrors fds pooled bare) (reply : Bytes) :
    Mirrored fds (.ok (pooled.replied reply)) (.ok (bare.replied reply)) :=
  .done mirrors rfl rfl rfl

theorem markConnection_bare (noPool : bare.connPool = none) (fd : Fd) :
    bare.markConnection fd = bare := by
  unfold markConnection
  rw [noPool, Option.map_none, ← noPool]

theorem execute_mirrored (mirrors : Mirrors fds pooled bare) (fd : Fd) (send : Bool)
    (args : List Bytes) (cmd : Bytes) :
    Mirrored fds (pooled.execute fd send args cmd) (bare.execute fd send args cmd) := by
  unfold execute
  rw [mirrors.state]
  split
  · exact .failed _
  rename_i outcome _
  refine .done ?_ rfl rfl rfl
  have after := mirrors.withState outcome.state
  dsimp only
  split
  · rw [markConnection_bare after.noPool]
    exact after.markConnection fd
  · exact after

theorem execQueued_mirrors (queue : List (List Bytes)) (mirrors : Mirrors fds pooled bare) :
    (∃ fault, execQueued fd send queue pooled = .error fault ∧
      execQueued fd send queue bare = .error fault) ∨
    ∃ pooled' bare' replies sends, Mirrors fds pooled' bare' ∧
      execQueued fd send queue pooled = .ok (pooled', replies, sends) ∧
      execQueued fd send queue bare = .ok (bare', replies, sends) := by
  induction queue generalizing pooled bare with
  | nil => exact .inr ⟨pooled, bare, [], [], mirrors, rfl, rfl⟩
  | cons queued queue ih =>
    cases queued with
    | nil => exact .inl ⟨.argumentIndex, rfl, rfl⟩
    | cons cmd args =>
      have agreed := execute_mirrored mirrors fd send (cmd :: args) cmd
      unfold execQueued
      generalize pooled.execute fd send (cmd :: args) cmd = first at agreed ⊢
      generalize bare.execute fd send (cmd :: args) cmd = second at agreed ⊢
      cases agreed with
      | failed fault => exact .inl ⟨fault, rfl, rfl⟩
      | done after result reply sends =>
        dsimp only
        rcases ih after with ⟨fault, left, right⟩ | ⟨_, _, _, _, final, left, right⟩
        · exact .inl ⟨fault, by rw [left], by rw [right]⟩
        · rw [left, right, result, reply, sends]
          exact .inr ⟨_, _, _, _, final, rfl, rfl⟩

section

variable (mirrors : Mirrors fds pooled bare) (member : fd ∈ fds)

include mirrors member

theorem exec_mirrored : Mirrored fds (pooled.exec fd send) (bare.exec fd send) := by
  unfold exec
  rw [mirrors.txInMulti member, mirrors.txGet member, mirrors.store]
  split
  · exact mirrored_replied mirrors _
  split
  · exact mirrored_replied (mirrors.clearTx fd) _
  rcases @execQueued_mirrors fds pooled bare fd send (bare.txGet fd).queuedCommands mirrors with
    ⟨fault, left, right⟩ | ⟨_, _, _, _, final, left, right⟩
  · rw [left, right]
    exact .failed fault
  · rw [left, right]
    exact .done (final.clearTx fd) rfl rfl rfl

theorem multi_mirrored : Mirrored fds (.ok (pooled.multi fd)) (.ok (bare.multi fd)) := by
  unfold multi
  rw [mirrors.txInMulti member, mirrors.txGet member]
  split
  · exact mirrored_replied mirrors _
  · exact mirrored_replied (mirrors.setTx member _) _

theorem discard_mirrored : Mirrored fds (.ok (pooled.discard fd)) (.ok (bare.discard fd)) := by
  unfold discard
  rw [mirrors.txInMulti member]
  split
  · exact mirrored_replied mirrors _
  · exact mirrored_replied (mirrors.clearTx fd) _

theorem watch_mirrored : Mirrored fds (.ok (pooled.watch fd args)) (.ok (bare.watch fd args)) := by
  unfold watch
  rw [mirrors.txInMulti member, mirrors.txGet member, mirrors.store]
  split
  · exact mirrored_replied mirrors _
  · split
    · exact mirrored_replied mirrors _
    · exact mirrored_replied (mirrors.setTx member _) _

theorem unwatch_mirrored : Mirrored fds (.ok (pooled.unwatch fd)) (.ok (bare.unwatch fd)) := by
  unfold unwatch
  rw [mirrors.tx fd member]
  split
  · exact mirrored_replied (mirrors.setTx member _) _
  · exact mirrored_replied mirrors _

theorem queueCommand_mirrored :
    Mirrored fds (.ok (pooled.queueCommand fd args)) (.ok (bare.queueCommand fd args)) := by
  unfold queueCommand
  rw [mirrors.txGet member]
  exact mirrored_replied (mirrors.setTx member _) _

theorem processAdmitted_mirrored :
    Mirrored fds (pooled.processAdmitted fd send args cmd)
      (bare.processAdmitted fd send args cmd) := by
  unfold processAdmitted
  rw [mirrors.txInMulti member]
  split
  · exact multi_mirrored mirrors member
  split
  · exact exec_mirrored mirrors member
  split
  · exact discard_mirrored mirrors member
  split
  · exact watch_mirrored mirrors member
  split
  · exact unwatch_mirrored mirrors member
  · split
    · exact queueCommand_mirrored mirrors member
    · exact execute_mirrored mirrors fd send args cmd

end

/-- The command comes from a connection that only `AUTH` has let in, and the default
user asks for a password. -/
def LetInByAuth (pooled bare : CommandContext) (fd : Fd) (cmd : Bytes) : Prop :=
  pooled.isAuthenticated fd = true ∧ bare.isAuthenticated fd = false ∧
    bare.aclManager.defaultNopass = false ∧ cmd ≠ ascii "AUTH" ∧
    (bare.isSubscribed fd = true → cmd ∈ subscribedAllowed)

instance (pooled bare : CommandContext) (fd : Fd) (cmd : Bytes) :
    Decidable (LetInByAuth pooled bare fd cmd) := inferInstanceAs (Decidable (_ ∧ _))

theorem gate_open (connected : ctx.hasConnection fd = true) :
    ctx.gate fd cmd =
      if ctx.isSubscribed fd = true ∧ cmd ∉ subscribedAllowed then
        .ok (.rejected (subscribedReply cmd))
      else if cmd = ascii "AUTH" ∨ ctx.isAuthenticated fd = true then .ok (.admitted ctx)
      else if ctx.aclManager.defaultNopass then .ok (.admitted (ctx.setAuthenticated fd))
      else .ok (.rejected noauthReply) := by
  simp only [gate, connected, Bool.true_eq_false, if_false]

theorem gate_mirrored (mirrors : Mirrors fds pooled bare) (member : fd ∈ fds)
    (usual : ¬ LetInByAuth pooled bare fd cmd) :
    (∃ reply, pooled.gate fd cmd = .ok (.rejected reply) ∧
      bare.gate fd cmd = .ok (.rejected reply)) ∨
    ∃ pooled' bare', Mirrors fds pooled' bare' ∧ pooled.gate fd cmd = .ok (.admitted pooled') ∧
      bare.gate fd cmd = .ok (.admitted bare') := by
  rw [gate_open (mirrors.connected fd member), gate_open (hasConnection_bare mirrors.noPool fd),
    mirrors.state]
  by_cases refused : bare.isSubscribed fd = true ∧ cmd ∉ subscribedAllowed
  · rw [if_pos refused, if_pos refused]
    exact .inl ⟨_, rfl, rfl⟩
  rw [if_neg refused, if_neg refused]
  by_cases auth : cmd = ascii "AUTH"
  · rw [if_pos (.inl auth), if_pos (.inl auth)]
    exact .inr ⟨pooled, bare, mirrors, rfl, rfl⟩
  by_cases known : bare.isAuthenticated fd = true
  · rw [if_pos (.inr (mirrors.known fd member known)), if_pos (.inr known)]
    exact .inr ⟨pooled, bare, mirrors, rfl, rfl⟩
  have unknown : ¬ (cmd = ascii "AUTH" ∨ bare.isAuthenticated fd = true) :=
    fun either => either.elim auth known
  rw [if_neg unknown]
  by_cases nopass : bare.aclManager.defaultNopass = true
  · rw [if_pos nopass, if_pos nopass]
    split
    · rename_i either
      have marked := either.resolve_left auth
      exact .inr ⟨pooled, _, mirrors.setBare marked, rfl, rfl⟩
    · exact .inr ⟨_, _, mirrors.setAuthenticated member, rfl, rfl⟩
  · rw [if_neg nopass, if_neg nopass]
    have unmarked : ¬ pooled.isAuthenticated fd = true := fun marked =>
      usual ⟨marked, by simpa using known, by simpa using nopass, auth,
        fun subscribed => by_contra fun outside => refused ⟨subscribed, outside⟩⟩
    have closed : ¬ (cmd = ascii "AUTH" ∨ pooled.isAuthenticated fd = true) :=
      fun either => either.elim auth unmarked
    rw [if_neg closed]
    exact .inl ⟨_, rfl, rfl⟩

theorem gate_differs (mirrors : Mirrors fds pooled bare) (member : fd ∈ fds)
    (letIn : LetInByAuth pooled bare fd cmd) :
    pooled.gate fd cmd = .ok (.admitted pooled) ∧
      bare.gate fd cmd = .ok (.rejected noauthReply) := by
  obtain ⟨marked, unknown, password, auth, allowed⟩ := letIn
  have free : ¬ (bare.isSubscribed fd = true ∧ cmd ∉ subscribedAllowed) :=
    fun both => both.2 (allowed both.1)
  rw [gate_open (mirrors.connected fd member), gate_open (hasConnection_bare mirrors.noPool fd),
    mirrors.state, if_neg free, if_neg free, if_pos (.inr marked), unknown, password,
    if_neg (by simp [auth])]
  exact ⟨rfl, rfl⟩

theorem processSingleCommand_mirrored (mirrors : Mirrors fds pooled bare) (member : fd ∈ fds)
    (usual : ¬ LetInByAuth pooled bare fd cmd) :
    Mirrored fds (pooled.processSingleCommand fd send args cmd)
      (bare.processSingleCommand fd send args cmd) := by
  unfold processSingleCommand
  split
  · exact mirrored_replied mirrors _
  rcases gate_mirrored mirrors member usual with ⟨reply, left, right⟩ | ⟨_, _, after, left, right⟩
  · rw [left, right]
    exact mirrored_replied mirrors reply
  · rw [left, right]
    exact processAdmitted_mirrored after member

theorem Mirrors.logCommand (mirrors : Mirrors fds pooled bare) (cmd raw : Bytes) :
    Mirrors fds (pooled.logCommand cmd raw) (bare.logCommand cmd raw) := by
  unfold CommandContext.logCommand
  split
  · rw [mirrors.state]
    exact mirrors.withState _
  · exact mirrors

def replyOf (observation : Observation) : Bytes := observation.effect.reply

theorem serve_mirrored (mirrors : Mirrors fds pooled bare) (member : request.fd ∈ fds)
    (usual : ¬ LetInByAuth pooled bare request.fd request.name) :
    Run.Agree (Mirrors fds) replyOf (pooled.serve request) (bare.serve request) := by
  unfold serve step
  cases given : request.args with
  | nil => exact .failed _
  | cons name rest =>
    rw [Request.name, given, List.headD_cons] at usual
    have agreed := @processSingleCommand_mirrored _ _ _ _ true (name :: rest) _ mirrors member usual
    dsimp only
    generalize pooled.processSingleCommand request.fd true (name :: rest) (toUpper name) = first
      at agreed ⊢
    generalize bare.processSingleCommand request.fd true (name :: rest) (toUpper name) = second
      at agreed ⊢
    cases agreed with
    | failed fault => exact .failed fault
    | done after _ reply _ => exact .done (after.logCommand _ _) reply

theorem serve_differs (mirrors : Mirrors fds pooled bare) (member : request.fd ∈ fds)
    (named : request.args ≠ []) (letIn : LetInByAuth pooled bare request.fd request.name) :
    ¬ Run.Agree (fun _ _ => True) replyOf (pooled.serve request) (bare.serve request) := by
  obtain ⟨passed, refused⟩ := gate_differs mirrors member letIn
  have rejected : bare.processSingleCommand request.fd true request.args request.name =
      .ok (bare.replied noauthReply) := by
    rw [processSingleCommand, if_neg named, refused]
  rw [serve_of_process named rejected]
  intro agreed
  cases served : pooled.serve request with
  | error fault =>
    rw [served] at agreed
    cases agreed
  | ok result =>
    rw [served] at agreed
    cases agreed with
    | done _ same =>
      obtain ⟨outcome, -, serves, -, rfl⟩ := serve_ok served
      exact serves_ne_noauth serves passed same

end Step

def withPool (state : HandlerState) (fds : List Fd) : CommandContext where
  toHandlerState := state
  connPool := some (fds.foldl add empty)
  transactions := ∅
  authenticatedFds := []

def withoutPool (state : HandlerState) : CommandContext where
  toHandlerState := state
  connPool := none
  transactions := ∅
  authenticatedFds := []

theorem find_foldl_add {fds : List Fd} {pool : ConnectionPool}
    (present : fd ∈ fds ∨ pool.find fd = some Connection.fresh) :
    (fds.foldl add pool).find fd = some Connection.fresh := by
  induction fds generalizing pool with
  | nil => exact present.resolve_left (List.not_mem_nil)
  | cons first fds ih =>
    apply ih
    by_cases same : fd = first
    · rw [same]
      exact .inr (AList.lookup_insert _)
    · refine present.imp (fun member => by simpa [same] using member) fun found => ?_
      exact (AList.lookup_insert_ne same).trans found

theorem mirrors_start (state : HandlerState) (fds : List Fd) :
    Mirrors fds (withPool state fds) (withoutPool state) where
  state := rfl
  pool := rfl
  noPool := rfl
  connected fd member := by
    simp [withPool, hasConnection, contains, find_foldl_add (.inl member)]
  tx fd member := by
    simp only [withPool, withoutPool, tx, find_foldl_add (.inl member), Option.bind_some]
    rfl
  known fd _ known := by simp [withoutPool, isAuthenticated] at known

/-- The replies and the last store are the same for every front of the commands exactly
when no command comes from a connection that only `AUTH` has let in while the default
user asks for a password. -/
theorem pool_transparent_iff (state : HandlerState) {fds : List Fd} {requests : List Request}
    (held : ∀ request ∈ requests, request.fd ∈ fds) :
    (∀ front, front <+: requests →
      Run.shown replyOf (fun ctx => ctx.store) (Run.run serve (withPool state fds) front) =
        Run.shown replyOf (fun ctx => ctx.store) (Run.run serve (withoutPool state) front)) ↔
      Run.Together serve serve (fun pooled bare request =>
        request.args ≠ [] → ¬ LetInByAuth pooled bare request.fd request.name)
        (withPool state fds) (withoutPool state) requests := by
  refine Run.shown_iff_together (Mirrors fds) (fun _ _ mirrors => mirrors.store) ?_ ?_
    (mirrors_start state fds) held
  · intro pooled bare request mirrors member usual
    by_cases named : request.args = []
    · unfold serve step
      rw [named]
      exact .failed _
    · exact serve_mirrored mirrors member (usual named)
  · intro pooled bare request mirrors member unusual
    simp only [not_forall, not_not] at unusual
    obtain ⟨named, letIn⟩ := unusual
    exact serve_differs mirrors member named letIn

def typed (commands : List (Fd × List String)) : List Request :=
  commands.map fun command => .ofArgs command.1 (command.2.map ascii)

def knownClients : List Request :=
  typed [(5, ["WATCH", "k"]), (5, ["MULTI"]), (5, ["SET", "k", "1"]), (5, ["EXEC"]),
    (6, ["GET", "k"]), (5, ["ACL", "SETUSER", "default", ">pw"]), (6, ["AUTH", "default", "pw"]),
    (6, ["GET", "k"])]

theorem knownClients_alike :
    Run.Succeeds (Run.run serve (withPool (twoClients 0).toHandlerState [5, 6]) knownClients)
        (fun result => (result.2.map replyOf).getLast? = some (encodeBulkString (ascii "1"))) ∧
      Run.shown replyOf (fun ctx => ctx.store)
          (Run.run serve (withPool (twoClients 0).toHandlerState [5, 6]) knownClients) =
        Run.shown replyOf (fun ctx => ctx.store)
          (Run.run serve (withoutPool (twoClients 0).toHandlerState) knownClients) :=
  ⟨by decide +kernel,
    (@pool_transparent_iff (twoClients 0).toHandlerState [5, 6] knownClients (by decide)).mpr
      (by decide +kernel) knownClients List.prefix_rfl⟩

def newClient : List Request :=
  typed [(5, ["ACL", "SETUSER", "default", ">pw"]), (6, ["AUTH", "default", "pw"]),
    (6, ["PING"])]

theorem newClient_told_apart :
    Run.Succeeds (Run.run serve (withPool (twoClients 0).toHandlerState [5, 6]) newClient)
        (fun result => result.2.map replyOf = [respOk, respOk, respPong]) ∧
      Run.Succeeds (Run.run serve (withoutPool (twoClients 0).toHandlerState) newClient)
        (fun result => result.2.map replyOf = [respOk, respOk, noauthReply]) := by
  decide +kernel

end CommandContext

end Credis
