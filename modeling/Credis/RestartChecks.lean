import Credis.RdbCore
import Credis.RewriteChecks
import Credis.TransactionLogChecks

/-! A server that is started with an RDB file and a log, serves, and is started again
with the same file and what has become of the log. -/

namespace Credis

open ByteString

variable {args : List Bytes} {state : HandlerState} {outcome : Outcome}

variable {fd : Fd} {held : Key → Bool} {request : Request}

open Store (Agrees Reads)

open CommandContext (executeCommand_works)
open Command

variable {now : Instant} {requests : List Request} {after store : Store} {send : Bool}
  {aof : AofManager} {keys : Key → Prop} {observation : Observation} {dir cmd : Bytes} {key : Key}
  {config : ServerConfig} {file : Option Bytes}

namespace Rdb

def holds (config : ServerConfig) (file : Option Bytes) (key : Key) : Bool :=
  match fileEntries config file with
  | .error _ => false
  | .ok entries => (entries.lookup key).isSome

theorem loadEntries_others (items : List (Sigma fun _ : Key => RdbEntry))
    (others : ∀ item ∈ items, item.1 ≠ key) (store : Store) :
    (items.foldl (fun store item => loadEntry now store item.1 item.2) store).data.lookup key =
      store.data.lookup key := by
  induction items generalizing store with
  | nil => rfl
  | cons item items ih =>
    rw [List.foldl_cons, ih fun other member => others other (by simp [member])]
    unfold loadEntry
    split
    · rfl
    · exact Store.put_lookup_ne _ _ (others item (by simp)).symm

theorem loadIntoStore_others (loaded : loadIntoStore store config file now = .ok after)
    (absent : holds config file key = false) : after.data.lookup key = store.data.lookup key := by
  unfold loadIntoStore at loaded
  unfold holds at absent
  cases read : fileEntries config file with
  | error fault =>
    rw [read] at loaded
    cases loaded
  | ok entries =>
    rw [read] at loaded
    replace absent : (entries.lookup key).isSome = false := by rwa [read] at absent
    cases loaded
    refine loadEntries_others _ (fun item member same => ?_) store
    have found : entries.lookup item.1 = some item.2 := AList.mem_lookup_iff.mpr member
    rw [← same, found] at absent
    cases absent

end Rdb

namespace AofManager

/-- The log is on, nobody rewrites it, and this is the content of the file that a start
with the same options and the same directory reads. -/
structure Records (aof manager : AofManager) (dir content : Bytes) : Prop where
  on : manager.appendonly = ascii "yes"
  dirname : manager.appenddirname = aof.appenddirname
  filename : manager.appendfilename = aof.appendfilename
  settled : manager.rewriteInProgress = false
  first : manager.directory dir ++ manager.incrName 1 ∈ manager.files
  named : ∃ text, manager.manifest dir = some text ∧
    manager.namedFile dir text ≠ manager.manifestPath dir ∧
    manager.aofFd = some (manager.namedFile dir text) ∧
    manager.files.lookup (manager.namedFile dir text) = some content

variable {aof manager : AofManager} {dir content : Bytes}

section

variable (records : Records aof manager dir content)

include records

theorem Records.log (raw : Bytes) :
    Records aof ((manager.append raw).appendToRewriteBuffer raw) dir (content ++ raw) := by
  obtain ⟨text, manifest, apart, fd, held⟩ := records.named
  have appended : (manager.append raw).appendToRewriteBuffer raw =
      { manager with
        files := manager.files.insert (manager.namedFile dir text) (content ++ raw) } := by
    have written : manager.append raw = manager.appendTo (manager.namedFile dir text) raw := by
      unfold append
      split
      · rename_i absent
        cases fd.symm.trans absent
      · rename_i path given
        cases fd.symm.trans given
        rfl
    rw [written, appendTo, held, appendToRewriteBuffer, if_neg (by simp [records.settled])]
    rfl
  rw [appended]
  refine ⟨records.on, records.dirname, records.filename, records.settled, ?_, text, ?_, apart, fd,
    AList.lookup_insert _⟩
  · exact (AList.mem_insert _).mpr (.inr records.first)
  · exact (AList.lookup_insert_ne apart.symm).trans manifest

theorem Records.pace (value : Bytes) : Records aof (manager.setAppendfsync value) dir content :=
  ⟨records.on, records.dirname, records.filename, records.settled, records.first, records.named⟩

theorem Records.check (status : ChildStatus) (now : Time) :
    (manager.checkRewriteComplete status now).1 = manager := by
  unfold checkRewriteComplete
  exact congrArg Prod.fst (if_neg (by simp [records.settled]))

theorem Records.reread (on : aof.appendonly = ascii "yes") :
    ((({ aof with files := manager.files } : AofManager).ensureFile dir).ensureManifest dir) =
        { aof with files := manager.files } ∧
      ({ aof with files := manager.files } : AofManager).readAofContent dir = content := by
  obtain ⟨text, manifest, -, -, held⟩ := records.named
  have enabled : ({ aof with files := manager.files } : AofManager).enabled = true :=
    (enabled_iff _).mpr on
  have directory : ({ aof with files := manager.files } : AofManager).directory dir =
      manager.directory dir := by rw [AofManager.directory, AofManager.directory, records.dirname]
  have first : ({ aof with files := manager.files } : AofManager).directory dir ++
      ({ aof with files := manager.files } : AofManager).incrName 1 ∈ manager.files := by
    have name : ({ aof with files := manager.files } : AofManager).incrName 1 =
        manager.incrName 1 := by rw [incrName, incrName, records.filename]
    rw [directory, name]
    exact records.first
  have path : ({ aof with files := manager.files } : AofManager).manifestPath dir =
      manager.manifestPath dir := by
    rw [manifestPath, manifestPath, directory, records.filename]
  have listed : manager.manifestPath dir ∈ manager.files := by
    rw [← AList.lookup_isSome, ← AofManager.manifest, manifest]
    rfl
  refine ⟨?_, ?_⟩
  · rw [ensureFile, if_pos enabled, ensurePath, if_pos first, ensureManifest, if_pos enabled,
      ensurePath, path, if_pos listed]
  · unfold AofManager.manifest at manifest
    rw [readAofContent, if_pos enabled, path]
    dsimp only
    rw [manifest]
    dsimp only
    rw [directory]
    exact congrArg (fun content => content.getD []) held

end

theorem ensurePath_mem (manager : AofManager) (path content : Bytes) :
    path ∈ (manager.ensurePath path content).files ∧
      ∀ other ∈ manager.files, other ∈ (manager.ensurePath path content).files := by
  unfold ensurePath
  split
  · rename_i present
    exact ⟨present, fun _ member => member⟩
  · exact ⟨(AList.mem_insert _).mpr (.inl rfl),
      fun _ member => (AList.mem_insert _).mpr (.inr member)⟩

theorem openFile_records {text : Bytes} (same : manager.settings = aof.settings)
    (on : aof.appendonly = ascii "yes") (settled : aof.rewriteInProgress = false)
    (first : manager.directory dir ++ manager.incrName 1 ∈ manager.files)
    (found : manager.manifest dir = some text)
    (apart : manager.namedFile dir text ≠ manager.manifestPath dir) :
    Records aof (manager.openFile dir) dir (manager.readAofContent dir) := by
  have switched : manager.appendonly = ascii "yes" :=
    (congrArg (fun settings => settings.1.1) same).trans on
  have content : manager.readAofContent dir =
      (manager.files.lookup (manager.namedFile dir text)).getD [] := by
    unfold manifest at found
    rw [readAofContent, if_pos ((enabled_iff manager).mpr switched), found]
    rfl
  have writes := ensurePath_writesAt { manager with baseDir := dir } (manager.namedFile dir text) []
  have held : (({ manager with baseDir := dir } : AofManager).ensurePath
      (manager.namedFile dir text) []).files.lookup (manager.namedFile dir text) =
        some (manager.readAofContent dir) := by
    rw [content, ensurePath]
    split
    · rename_i present
      obtain ⟨old, read⟩ := Option.isSome_iff_exists.mp (AList.lookup_isSome.mpr present)
      rw [read]
      rfl
    · rename_i absent
      rw [AList.lookup_eq_none.mpr absent]
      exact AList.lookup_insert _
  have kept := (ensurePath_mem { manager with baseDir := dir } (manager.namedFile dir text) []).2
    _ first
  have manifest := (writes.others _ apart.symm).trans found
  have rest := writes.rest
  rw [openFile_eq switched found]
  generalize ({ manager with baseDir := dir } : AofManager).ensurePath
    (manager.namedFile dir text) [] = ensured at rest held kept manifest ⊢
  generalize ensured.files = files at rest held kept manifest
  subst rest
  exact ⟨switched, congrArg (fun settings => settings.1.2) same,
    congrArg (fun settings => settings.2.1.1) same,
    (congrArg (fun settings => settings.2.2) same).trans settled, kept, text, manifest, apart, rfl,
    held⟩

theorem Dormant.records (dormant : aof.Dormant) (on : aof.appendonly = ascii "yes")
    (apart : ∀ text, aof.manifest dir = some text →
      aof.namedFile dir text ≠ aof.manifestPath dir) :
    Records aof (((aof.ensureFile dir).ensureManifest dir).openFile dir) dir
      (((aof.ensureFile dir).ensureManifest dir).readAofContent dir) := by
  have settings := (settings_ensureManifest (aof.ensureFile dir) dir).trans
    (settings_ensureFile aof dir)
  have enabled : (aof.ensureFile dir).enabled = true := by
    refine (enabled_iff _).mpr (Eq.trans ?_ on)
    exact congrArg (fun settings => settings.1.1) (settings_ensureFile aof dir)
  obtain ⟨ready, text, found⟩ := (dormant.prepared apart).ensureFile.ensureManifest enabled
  refine openFile_records settings on dormant.settled ?_ found (ready.apart text found)
  have first : aof.directory dir ++ aof.incrName 1 ∈
      ((aof.ensureFile dir).ensureManifest dir).files := by
    rw [ensureManifest, if_pos enabled]
    refine (ensurePath_mem _ _ _).2 _ ?_
    rw [ensureFile, if_pos ((enabled_iff aof).mpr on)]
    exact (ensurePath_mem _ _ _).1
  have dirname : ((aof.ensureFile dir).ensureManifest dir).appenddirname = aof.appenddirname :=
    congrArg (fun settings => settings.1.2) settings
  have filename : ((aof.ensureFile dir).ensureManifest dir).appendfilename = aof.appendfilename :=
    congrArg (fun settings => settings.2.1.1) settings
  rwa [directory, incrName, dirname, filename]

end AofManager

def switchesLog (args : List Bytes) : Bool :=
  toUpper (args.headD []) == ascii "CONFIG" && toUpper (args.getD 1 []) == ascii "SET" &&
    toUpper (args.getD 2 []) == ascii "APPENDONLY"

def isCalm (args : List Bytes) : Bool :=
  !isWriteCommand (toUpper (args.headD [])) && toUpper (args.headD []) != ascii "BLPOP" &&
    toUpper (args.headD []) != ascii "BGREWRITEAOF" && !switchesLog args

theorem Store.Works.reads_only {uses : Store.Operation → Prop} {before : Store}
    (works : Store.Works uses now before after) (absent : ∀ operation, ¬uses operation) :
    Reads now.steady before after := by
  induction works with
  | refl => exact .refl
  | reads _ reads ih => exact ih.trans reads
  | calls operation used _ _ => exact absurd used (absent operation)

theorem handleConfigSet_paces {manager : Option AofManager} {parameter : Bytes}
    (other : toUpper parameter ≠ ascii "APPENDONLY") (value : Bytes) :
    (handleConfigSet manager dir parameter value).1 = manager ∨ ∃ before pace,
      manager = some before ∧
      (handleConfigSet manager dir parameter value).1 = some (before.setAppendfsync pace) := by
  unfold handleConfigSet
  dsimp only
  rw [if_neg other]
  split
  · cases manager with
    | none => exact .inl rfl
    | some before =>
      dsimp only
      split
      · exact .inl rfl
      · exact .inr ⟨before, _, rfl, rfl⟩
  · exact .inl rfl

theorem executeCommand_calm (calm : isCalm args = true)
    (named : ∀ command, lookup cmd = some command →
      toUpper (args.headD []) = command.name)
    (ran : executeCommand state fd send args cmd = .ok outcome) :
    Reads (state.clock state.ticks).steady state.store outcome.state.store ∧
      (outcome.state.aofManager = state.aofManager ∨ ∃ manager pace,
        state.aofManager = some manager ∧
        outcome.state.aofManager = some (manager.setAppendfsync pace)) := by
  simp only [isCalm, Bool.and_eq_true, Bool.not_eq_true', bne_iff_ne] at calm
  obtain ⟨⟨⟨read, waits⟩, rewrites⟩, stays⟩ := calm
  constructor
  · refine (executeCommand_works ran).reads_only ?_
    rintro operation ⟨writes, command, found, used⟩
    rw [named command found] at read waits
    cases used with
    | reads _ passes => cases writes.symm.trans passes
    | blpop => exact waits (by decide)
    | _ => exact absurd read (by decide)
  · rcases executeCommand_ok ran with ⟨reply, rfl⟩ | ⟨command, ticks, found, done⟩
    · exact .inl rfl
    · have name := named command found
      rcases handler_aof command done with same | ⟨rfl, sets, changed⟩ | ⟨rfl, -⟩
      · exact .inl same
      · rw [changed]
        refine handleConfigSet_paces (fun appendonly => ?_) _
        rw [switchesLog, name, sets, appendonly] at stays
        exact absurd stays (by decide)
      · exact absurd (name.trans (by decide)) rewrites

theorem handleXaddWithBlocking_woken {plain : BlockingOutcome} (manager : Option BlockingManager)
    (written : handleXaddWithBlocking store none now args = .ok plain) :
    ∃ woken, handleXaddWithBlocking store manager now args = .ok woken ∧
      Reads now.steady plain.store woken.store := by
  unfold handleXaddWithBlocking at written ⊢
  split at written
  · rename_i key id fields
    split at written
    · rename_i odd
      cases written
      exact ⟨_, if_pos odd, .refl⟩
    · rename_i even
      dsimp only
      rw [if_neg even]
      generalize store.xaddIfValidType now key id (pairUp fields) = added at written
      obtain ⟨after, result⟩ := added
      cases result with
      | none =>
        cases written
        exact ⟨_, rfl, .refl⟩
      | some newId =>
        dsimp only at written ⊢
        split at written
        · rename_i refused
          cases written
          exact ⟨_, if_pos refused, .refl⟩
        · rename_i accepted
          cases written
          rw [if_neg accepted]
          cases manager with
          | none => exact ⟨_, rfl, .refl⟩
          | some blocking => exact ⟨_, rfl, wakeStreamClients_reads _ _ _ _ _ _⟩
  · cases written

def HandlerState.PushesFreely (state : HandlerState) (args : List Bytes) : Prop :=
  toUpper (args.headD []) = ascii "RPUSH" ∨ toUpper (args.headD []) = ascii "LPUSH" →
    state.FreeAt (args.getD 1 [])

theorem executeCommand_xadd {ticks : Nat} {reply : Bytes}
    (name : toUpper (args.headD []) = xadd.name)
    (ran : executeCommand state fd true args (toUpper (args.headD [])) = .ok outcome)
    (plain : executeCommand { state with blockingManager := none } fd true args
      (toUpper (args.headD [])) =
        .ok ⟨{ state with blockingManager := none, store := after, ticks := ticks }, .normal, reply,
          [], false⟩) :
    outcome.state.aofManager = state.aofManager ∧
      ∃ now : Time, Reads now after outcome.state.store := by
  unfold executeCommand at ran plain
  rw [name, lookup_name_self] at ran plain
  dsimp only at ran plain
  by_cases short : args.length < xadd.minArgs
  · rw [if_pos short] at ran plain
    cases ran
    cases plain
    exact ⟨rfl, 0, .refl⟩
  · rw [if_neg short] at ran plain
    simp only [handler] at ran plain
    obtain ⟨woken, handled, -, rfl⟩ := onBlocking_ok ran
    obtain ⟨written, bare, -, same⟩ := onBlocking_ok plain
    obtain ⟨other, again, reads⟩ := handleXaddWithBlocking_woken state.blockingManager bare
    cases handled.symm.trans again
    have stored : after = written.store :=
      congrArg (fun outcome : Outcome => outcome.state.store) same
    rw [stored]
    exact ⟨rfl, _, reads⟩

instance (state : HandlerState) (args : List Bytes) : Decidable (state.PushesFreely args) :=
  inferInstanceAs (Decidable (_ ∨ _ → _))

theorem executeCommand_told {right : Store} (agree : Agrees Value.Same keys state.store right)
    (steady : right.NoExpiry) (fits : isReplayable args = true)
    (writes : isWriteCommand (toUpper (args.headD [])) = true) (free : state.PushesFreely args)
    (own : ∀ key ∈ keysWritten args, keys key)
    (ran : executeCommand state fd true args (toUpper (args.headD [])) = .ok outcome) :
    outcome.state.aofManager = state.aofManager ∧
      Agrees Value.Same keys outcome.state.store (applied right args) := by
  have numbers : AddsOnly (fun _ => True) args := by
    intro command _
    cases command <;> first | trivial | exact fun _ _ _ _ => trivial | exact fun _ _ => trivial
  by_cases stream : toUpper (args.headD []) = xadd.name
  · obtain ⟨after, ticks, reply, done, agrees⟩ := @executeCommand_agrees _ _ _ _
      { state with blockingManager := none } _ Value.same_logical agree steady fits writes
      (fun _ _ _ _ manager absent => by cases absent) own numbers fd true
    obtain ⟨same, now, reads⟩ := executeCommand_xadd stream ran done
    exact ⟨same, agrees.reads reads⟩
  · have unblocked : state.FreeFor args := by
      intro command found _ wakes
      have name := lookup_name found
      cases command with
      | rpush => exact free (.inl (name.trans (by decide)))
      | lpush => exact free (.inr (name.trans (by decide)))
      | xadd => exact absurd name stream
      | set | mset | incr | lpop | rpop | zadd | zrem | geoadd | ping | echo | get | llen | lrange
      | blpop | type | keys | zrank | zrange | zcard | zscore | geopos | geodist | geosearch
      | xrange | xread | info | bgrewriteaof | config | acl | auth | replconf | wait | psync
      | subscribe | unsubscribe | publish => cases wakes
    obtain ⟨after, ticks, reply, done, agrees⟩ := executeCommand_agrees Value.same_logical agree
      steady fits writes unblocked own numbers fd true
    cases done.symm.trans ran
    exact ⟨rfl, agrees⟩

theorem foldl_applied_noExpiry
    (fits : ∀ request ∈ requests, request.Whole ∧ isReplayable request.args = true)
    (steady : store.NoExpiry) : ((requests.map Request.args).foldl applied store).NoExpiry := by
  induction requests generalizing store with
  | nil => exact steady
  | cons request requests ih =>
    rw [List.map_cons, List.foldl_cons]
    refine ih (fun other member => fits other (by simp [member])) ?_
    exact (executeCommand_applied (bareState store) (fits request (by simp)).2 steady
      (bareState_free store request.args)).1

structure HandlerState.Recorded (keys : Key → Prop) (aof : AofManager) (dir : Bytes)
    (requests : List Request) (state : HandlerState) : Prop where
  log : ∃ manager, state.aofManager = some manager ∧
    aof.Records manager dir (requests.flatMap Request.raw)
  agrees : Agrees Value.Same keys state.store
    ((requests.map Request.args).foldl applied Store.empty)

theorem HandlerState.Recorded.calm (recorded : state.Recorded keys aof dir requests)
    (calm : isCalm args = true) (named : ∀ command, lookup cmd = some command →
      toUpper (args.headD []) = command.name)
    (ran : executeCommand state fd send args cmd = .ok outcome) :
    outcome.state.Recorded keys aof dir requests := by
  obtain ⟨reads, log⟩ := executeCommand_calm calm named ran
  obtain ⟨manager, present, records⟩ := recorded.log
  refine ⟨?_, recorded.agrees.reads reads⟩
  rcases log with same | ⟨before, pace, earlier, later⟩
  · exact ⟨manager, same.trans present, records⟩
  · cases present.symm.trans earlier
    exact ⟨_, later, records.pace pace⟩

def Event.written : Event → List Key
  | .request sent => if isWriteCommand sent.name then keysWritten sent.args else []
  | _ => []

namespace CommandContext

/-- The log covers the event: a write comes from a client outside `MULTI` and runs
alike everywhere, nothing is taken from a list by `BLPOP`, and the log stays on. -/
def Covers (ctx : CommandContext) : Event → Prop
  | .request request => request.Whole ∧
      (isWriteCommand request.name = true →
        ctx.txInMulti request.fd = false ∧ isReplayable request.args = true) ∧
      request.name ≠ ascii "BLPOP" ∧ switchesLog request.args = false
  | _ => True

/-- A write is let through, names no key of the file and is a push only where nobody
waits, and the log is not rewritten. -/
def StaysClear (held : Key → Bool) (ctx : CommandContext) : Event → Prop
  | .request request =>
    (isWriteCommand request.name = true → ctx.Admits request.fd ∧
      ctx.PushesFreely request.args ∧ ∀ key ∈ keysWritten request.args, held key = false) ∧
    request.name ≠ ascii "BGREWRITEAOF"
  | _ => True

instance (ctx : CommandContext) : (event : Event) → Decidable (ctx.Covers event)
  | .request _ => inferInstanceAs (Decidable (_ ∧ (_ → _ ∧ _) ∧ _ ∧ _))
  | .connect _ | .disconnect _ | .timeouts _ _ => isTrue trivial

instance (held : Key → Bool) (ctx : CommandContext) :
    (event : Event) → Decidable (ctx.StaysClear held event)
  | .request _ => inferInstanceAs (Decidable ((_ → _ ∧ _ ∧ _) ∧ _))
  | .connect _ | .disconnect _ | .timeouts _ _ => isTrue trivial

theorem StaysClear.written (ctx : CommandContext) (event : Event)
    (clear : ctx.StaysClear held event) : ∀ key ∈ event.written, held key = false := by
  intro key member
  cases event with
  | connect _ | disconnect _ | timeouts _ _ => cases member
  | request sent =>
    rw [Event.written] at member
    by_cases writes : isWriteCommand sent.name = true
    · rw [if_pos writes] at member
      exact (clear.1 writes).2.2 key member
    · rw [if_neg writes] at member
      cases member

/-- The log rebuilds these keys of the keyspace, and what is queued does not change
this. -/
structure Recovers (keys : Key → Prop) (aof : AofManager) (dir : Bytes) (ctx : CommandContext) :
    Prop where
  recorded : ∃ requests : List Request,
    (∀ request ∈ requests, request.Whole ∧ isReplayable request.args = true) ∧
    ctx.Recorded keys aof dir requests
  queued : ctx.AllQueued fun args => isCalm args = true

variable {ctx next : CommandContext} {keys : Key → Prop} {aof : AofManager} {dir : Bytes}

theorem commandsOf_calm (calm : isCalm request.args = true)
    (queued : ctx.AllQueued fun args => isCalm args = true) :
    ∀ item ∈ ctx.commandsOf request, isCalm item.1 = true ∧
      ∀ command, lookup item.2 = some command →
        toUpper (item.1.headD []) = command.name := by
  intro item member
  unfold commandsOf at member
  split at member
  · split at member
    · split at member
      · obtain ⟨args, inside, rfl⟩ := List.mem_map.mp member
        refine ⟨queued request.fd args inside, fun command found => ?_⟩
        -- the names of the table are upper case, so a queued name that is found is too
        have name : args.headD [] = command.name := lookup_name found
        exact (congrArg toUpper name).trans command.toUpper_name
      · cases member
    · split at member
      · cases member
      · cases List.mem_singleton.mp member
        exact ⟨calm, fun command found => lookup_name found⟩
  · cases member

theorem serve_calm (recovers : ctx.Recovers keys aof dir) (calm : isCalm request.args = true)
    (served : ctx.serve request = .ok (next, observation)) :
    ∃ requests : List Request,
      (∀ request ∈ requests, request.Whole ∧ isReplayable request.args = true) ∧
      next.Recorded keys aof dir requests := by
  obtain ⟨requests, fits, recorded⟩ := recovers.recorded
  obtain ⟨outcome, -, serves, rfl, -⟩ := serve_ok served
  have read : isWriteCommand request.name = false := by
    simp only [isCalm, Bool.and_eq_true, Bool.not_eq_true'] at calm
    exact calm.1.1.1
  rw [logCommand, if_neg (by rw [read]; decide)]
  have traced := serves.traced
  refine ⟨requests, fits, (traced.trace.invariant (fun execution member runs before => ?_)
    recorded).1⟩
  have item : (execution.args, execution.cmd) ∈ ctx.commandsOf request := by
    rw [← traced.complete]
    exact List.mem_map_of_mem member
  obtain ⟨quiet, named⟩ := commandsOf_calm calm recovers.queued _ item
  exact before.calm quiet named runs

theorem serve_told (recovers : ctx.Recovers keys aof dir) (whole : request.Whole)
    (fits : isReplayable request.args = true) (writes : isWriteCommand request.name = true)
    (admits : ctx.Admits request.fd) (free : ctx.PushesFreely request.args)
    (own : ∀ key ∈ keysWritten request.args, keys key)
    (served : ctx.serve request = .ok (next, observation)) :
    ∃ requests : List Request,
      (∀ request ∈ requests, request.Whole ∧ isReplayable request.args = true) ∧
      next.Recorded keys aof dir requests := by
  obtain ⟨requests, each, recorded⟩ := recovers.recorded
  obtain ⟨outcome, -, serves, rfl, -⟩ := serve_ok served
  obtain ⟨admitted, passed⟩ := gate_admits request.name admits
  obtain ⟨command, found, -⟩ := isReplayable_iff.mp fits
  have table : request.name ∉ controlCommands := by
    rw [Request.name, lookup_name found]
    cases command <;> decide
  rcases serves.state_cases with (refused | ⟨-, control | inside, -⟩) |
    ⟨_, _, _, _, -, exec, -⟩ | ⟨other, entered, -, -, done⟩
  · cases passed.symm.trans refused
  · exact absurd control table
  · cases inside.symm.trans admits.outside
  · exact absurd (by simp [exec, controlCommands]) table
  · obtain ⟨handled, ran, state, -⟩ := execute_ok done
    rw [gate_toHandlerState entered] at ran
    obtain ⟨kept, agrees⟩ := executeCommand_told recorded.agrees
      (foldl_applied_noExpiry each Store.empty_noExpiry) fits writes free own ran
    obtain ⟨manager, present, records⟩ := recorded.log
    refine ⟨requests ++ [request], Run.forall_mem_snoc each ⟨whole, fits⟩,
      ⟨(manager.append request.raw).appendToRewriteBuffer request.raw, ?_, ?_⟩, ?_⟩
    · rw [logCommand, if_pos writes, state, kept, present]
      rfl
    · rw [List.flatMap_append, List.flatMap_singleton]
      exact records.log request.raw
    · rw [List.map_append, List.foldl_append, logCommand, if_pos writes, state]
      exact agrees

theorem handle_recovers {event : Event} {output : Option Observation}
    (recovers : ctx.Recovers (fun key => held key = false) aof dir) (covers : ctx.Covers event)
    (clear : ctx.StaysClear held event) (handled : ctx.handle event = .ok (next, output)) :
    next.Recovers (fun key => held key = false) aof dir := by
  have calm : ∀ request, event = .request request → isWriteCommand request.name = false →
      isCalm request.args = true := by
    rintro request rfl read
    obtain ⟨-, -, waits, stays⟩ := covers
    replace waits : toUpper (request.args.headD []) ≠ ascii "BLPOP" := waits
    have rewrites : toUpper (request.args.headD []) ≠ ascii "BGREWRITEAOF" := clear.2
    rw [Request.name] at read
    simp only [isCalm, read, stays, bne_iff_ne.mpr waits, bne_iff_ne.mpr rewrites, Bool.not_false,
      Bool.and_self]
  refine ⟨?_, handle_allQueued handled recovers.queued fun request same queues => ?_⟩
  · cases event with
    | connect _ | disconnect _ =>
      cases handled
      obtain ⟨requests, fits, log, agrees⟩ := recovers.recorded
      exact ⟨requests, fits, log, agrees⟩
    | timeouts now status =>
      cases handled
      obtain ⟨requests, fits, ⟨manager, present, records⟩, agrees⟩ := recovers.recorded
      refine ⟨requests, fits, ⟨manager, ?_, records⟩, agrees⟩
      rw [settle, present]
      exact congrArg some (records.check status now)
    | request request =>
      obtain ⟨observation, served, -⟩ := handle_request handled
      cases writes : isWriteCommand request.name with
      | false => exact serve_calm recovers (calm request rfl writes) served
      | true =>
        obtain ⟨whole, written, -⟩ := covers
        obtain ⟨admits, free, own⟩ := clear.1 writes
        exact serve_told recovers whole (written writes).2 writes admits free own served
  · cases writes : isWriteCommand request.name with
    | false => exact calm request same writes
    | true =>
      subst same
      have outside := (covers.2.1 writes).1
      simp only [CommandContext.queues, outside, Bool.and_false, Bool.false_eq_true] at queues

theorem run_recovers {events : List Event} {live : CommandContext}
    {seen : List (Option Observation)}
    (recovers : ctx.Recovers (fun key => held key = false) aof dir)
    (covers : Run.Along handle Covers ctx events)
    (clear : Run.Along handle (StaysClear held) ctx events)
    (ran : Run.run handle ctx events = .ok (live, seen)) :
    live.Recovers (fun key => held key = false) aof dir :=
  Run.run_invariant (fun state => state.Recovers (fun key => held key = false) aof dir)
    (fun _ _ _ _ recovers both handled => handle_recovers recovers both.1 both.2 handled)
    recovers (covers.and clear) ran

theorem replayLog_applied
    (fits : ∀ request ∈ requests, request.Whole ∧ isReplayable request.args = true)
    (config : ServerConfig) (clock : Nat → Instant) (forks : Nat → Bool) :
    ∃ handler, (fresh Store.empty config clock forks).replayLog (requests.flatMap Request.raw) =
        .ok handler ∧
      handler.store = (requests.map Request.args).foldl applied Store.empty := by
  have whole := fun request member => (fits request member).1
  unfold replayLog
  split
  · rename_i nothing
    have short := requests_length_le requests whole
    rw [nothing, List.length_nil, Nat.le_zero, List.length_eq_zero_iff] at short
    subst short
    exact ⟨_, rfl, rfl⟩
  · obtain ⟨replayed, response, done, stored⟩ := fresh_process_applied whole
      (fun request member => (fits request member).2) config clock forks
    exact ⟨replayed, by rw [done]; rfl, stored⟩

theorem boot_spec {requests : List Request}
    (fits : ∀ request ∈ requests, request.Whole ∧ isReplayable request.args = true)
    {config : ServerConfig} {aof : AofManager} {file : Option Bytes}
    (content : ((aof.ensureFile config.dir).ensureManifest config.dir).readAofContent config.dir =
      requests.flatMap Request.raw)
    {entries : Rdb.Entries} (read : Rdb.fileEntries config file = .ok entries)
    (clock : Nat → Instant) (forks : Nat → Bool) :
    ∃ ctx, boot config aof file clock forks = .ok ctx ∧
      ctx.aofManager =
        some (((aof.ensureFile config.dir).ensureManifest config.dir).openFile config.dir) ∧
      ctx.connPool = some ConnectionPool.empty ∧
      ∀ key, Rdb.holds config file key = false → ctx.store.data.lookup key =
        ((requests.map Request.args).foldl applied Store.empty).data.lookup key := by
  obtain ⟨handler, replayed, stored⟩ := replayLog_applied fits config clock forks
  obtain ⟨store, loaded⟩ : ∃ store, Rdb.loadIntoStore handler.store config file
      (handler.clock handler.ticks) = .ok store := by
    rw [Rdb.loadIntoStore, read]
    exact ⟨_, rfl⟩
  unfold boot
  dsimp only
  rw [content, replayed]
  dsimp only
  rw [loaded]
  refine ⟨_, rfl, rfl, rfl, fun key absent => ?_⟩
  rw [← stored]
  exact Rdb.loadIntoStore_others loaded absent

theorem boot_reads {clock : Nat → Instant} {forks : Nat → Bool}
    (started : boot config aof file clock forks = .ok ctx) :
    ∃ entries, Rdb.fileEntries config file = .ok entries := by
  cases read : Rdb.fileEntries config file with
  | ok entries => exact ⟨entries, rfl⟩
  | error fault =>
    unfold boot at started
    dsimp only at started
    split at started
    · cases started
    · rw [Rdb.loadIntoStore, read] at started
      cases started

/-- A server that has been started with an RDB file and a log, and is started again
with the same file and the log it leaves, has every key that was written with its last
value, as long as no write names a key of the file. -/
theorem restart_keeps {config : ServerConfig} {aof : AofManager} {file : Option Bytes}
    {clock : Nat → Instant} {forks : Nat → Bool} (dormant : aof.Dormant)
    (on : aof.appendonly = ascii "yes")
    (apart : ∀ text, aof.manifest config.dir = some text →
      aof.namedFile config.dir text ≠ aof.manifestPath config.dir)
    {earlier : List Request}
    (fits : ∀ request ∈ earlier, request.Whole ∧ isReplayable request.args = true)
    (content : ((aof.ensureFile config.dir).ensureManifest config.dir).readAofContent config.dir =
      earlier.flatMap Request.raw)
    (started : boot config aof file clock forks = .ok ctx) {events : List Event}
    {live : CommandContext} {seen : List (Option Observation)}
    (ran : Run.run handle ctx events = .ok (live, seen))
    (covers : Run.Along handle Covers ctx events)
    (clear : Run.Along handle (StaysClear (Rdb.holds config file)) ctx events) :
    ∃ manager, live.aofManager = some manager ∧ ∀ (clock : Nat → Instant) (forks : Nat → Bool),
      ∃ restarted, boot config { aof with files := manager.files } file clock forks =
          .ok restarted ∧
        Store.Agrees Value.Same (fun key => key ∈ events.flatMap Event.written) live.store
          restarted.store := by
  obtain ⟨entries, read⟩ := boot_reads started
  have recovers : ctx.Recovers (fun key => Rdb.holds config file key = false) aof config.dir := by
    obtain ⟨first, begun, log, pool, stored⟩ := boot_spec fits content read clock forks
    cases started.symm.trans begun
    refine ⟨⟨earlier, fits, ⟨_, log, ?_⟩, fun key spared => ?_⟩, fun fd args member => ?_⟩
    · rw [← content]
      exact dormant.records on apart
    · rw [stored key spared]
      cases found : ((earlier.map Request.args).foldl applied Store.empty).data.lookup key with
      | none => exact .inl ⟨rfl, rfl⟩
      | some entry =>
        obtain ⟨value, expiry⟩ := entry
        cases foldl_applied_noExpiry fits Store.empty_noExpiry key _ found
        exact .inr ⟨value, value, rfl, rfl, .refl value⟩
    · have fresh : ctx.tx fd = none := by
        rw [tx, pool]
        rfl
      rw [txGet, fresh] at member
      cases member
  obtain ⟨⟨requests, logged, ⟨manager, present, records⟩, agrees⟩, -⟩ :=
    run_recovers recovers covers clear ran
  refine ⟨manager, present, fun clock forks => ?_⟩
  obtain ⟨same, reread⟩ := records.reread on
  obtain ⟨restarted, begun, -, -, stored⟩ := @boot_spec _ logged config
    { aof with files := manager.files } file (by rw [same, reread]) _ read clock forks
  refine ⟨restarted, begun, fun key written => ?_⟩
  have spared : Rdb.holds config file key = false := by
    obtain ⟨event, member, names⟩ := List.mem_flatMap.mp written
    exact clear.each ran StaysClear.written event member key names
  rw [stored key spared]
  exact agrees key spared

def snapshotFile : Bytes :=
  ascii "REDIS0011" ++ [0xFE, 0, 0, 1, 107, 2, 118, 48, 0xFF]

def bootAgain (files : AList fun _ : Bytes => Bytes) : Except Fault CommandContext :=
  boot ⟨none, [], ascii "data", ascii "dump.rdb"⟩
    { AofManager.initial with appendonly := ascii "yes", files := files } (some snapshotFile)
    (fun _ => ⟨0, 0⟩) fun _ => false

def otherKeys : List Event :=
  [.connect 5, .words 5 ["SET", "a", "1"], .words 5 ["INCR", "a"], .words 5 ["GET", "k"],
    .words 5 ["RPUSH", "l", "x", "y"]]

theorem otherKeys_kept :
    ∃ ctx, bootAgain ∅ = .ok ctx ∧
      ∃ done, Run.run handle ctx otherKeys = .ok done ∧
      ∃ manager, done.1.aofManager = some manager ∧
      ∃ restarted, bootAgain manager.files = .ok restarted ∧
        Store.Agrees Value.Same (fun key => key ∈ otherKeys.flatMap Event.written) done.1.store
          restarted.store := by
  refine Run.of_checked (fun ctx => Run.Along handle Covers ctx otherKeys ∧
    Run.Along handle (StaysClear (Rdb.holds ⟨none, [], ascii "data", ascii "dump.rdb"⟩
      (some snapshotFile))) ctx otherKeys ∧
    Run.Succeeds (Run.run handle ctx otherKeys) fun _ => True) (by decide +kernel) ?_
  intro ctx started ⟨covers, clear, runs⟩
  refine Run.of_checked _ runs fun done ran _ => ?_
  obtain ⟨manager, present, again⟩ := @restart_keeps ctx _
    { AofManager.initial with appendonly := ascii "yes" } (some snapshotFile) _ _ ⟨rfl, rfl, rfl⟩
    rfl (fun text found => by cases found) [] (fun _ member => by cases member)
    (by decide +kernel) started otherKeys done.1 done.2 ran covers clear
  exact ⟨manager, present, again _ _⟩

def sameKey : List Event := [.connect 5, .words 5 ["SET", "k", "v1"]]

/-- The file is loaded behind the replay and takes the key back to its old value. -/
theorem sameKey_reverts :
    ∃ ctx, bootAgain ∅ = .ok ctx ∧ Run.Along handle Covers ctx sameKey ∧
      ∃ done, Run.run handle ctx sameKey = .ok done ∧
        ∃ manager, done.1.aofManager = some manager ∧
        ∃ restarted, bootAgain manager.files = .ok restarted ∧
          (done.1.store.get 0 (ascii "k")).2 = some (ascii "v1") ∧
          (restarted.store.get 0 (ascii "k")).2 = some (ascii "v0") := by
  refine Run.of_checked (fun ctx => Run.Along handle Covers ctx sameKey ∧ Run.Succeeds _ fun done =>
    ∃ manager, done.1.aofManager = some manager ∧ Run.Succeeds _ _) ?_
    fun ctx _ ⟨covers, runs⟩ => ⟨covers, Run.of_checked _ runs
      fun done _ ⟨manager, present, again⟩ => ⟨manager, present, again.ok⟩⟩
  decide +kernel

end CommandContext

end Credis
