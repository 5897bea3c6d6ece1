import Credis.KindChecks

/-! Blocking and plain `XREAD`. The read and the record of the blocked client take the
threshold out of the ID by different rules. Where the rules agree, the first entry behind
the threshold wakes the client and brings what a plain read then returns. -/

namespace Credis

open ByteString CommandContext Store StreamId Execution

variable {ctx : CommandContext} {key : Key} {client : BlockedClient}

/-- The IDs that `xread` and the record of the blocked client take for one threshold. -/
def readsAlike (id : Bytes) : Bool :=
  id == ascii "$" || (parse id).isSome ||
    (decide (45 ∉ id) && (parseInt64 id).getD 0 == 0)

theorem parse_of_dashless {id : Bytes} (dashless : 45 ∉ id) : parse id = none := by
  rw [parse, List.idxOf?_eq_none_iff.mpr dashless]

theorem readThreshold_parsed {id : Bytes} {sid : StreamId} (parsed : parse id = some sid) :
    readThreshold id = sid := by
  have dash : 45 ∈ id := by
    by_contra dashless
    rw [parse_of_dashless dashless] at parsed
    cases parsed
  rw [readThreshold, if_neg (by simp [dash]), parsed, Option.getD_some]

section Resolved

variable {store after : Store} {now : Time} {key : Key} {id : Bytes}

theorem resolveId_text (store : Store) (now : Time) (key : Key) (id : Bytes) :
    (resolveId store now key id).2 =
      if id = ascii "$" then
        ((store.streamAt now key).getLast?.map StreamEntry.id).getD (ascii "0-0")
      else id := by
  have value := getTyped_value store now key Value.stream?
  unfold resolveId getStreamMaxId getStream streamAt
  split
  · generalize store.getTyped Value.stream? now key = got at value
    obtain ⟨seen, found⟩ := got
    dsimp only at value
    rw [← value]
    cases found with
    | none => rfl
    | some entries => rfl
  · rfl

theorem resolveId_cases (ordered : store.StreamsOrdered) (now : Time) (key : Key) (id : Bytes) :
    (parse (resolveId store now key id).2).isSome = true ∨
      ((resolveId store now key id).2 = id ∧ id ≠ ascii "$") := by
  rw [resolveId_text]
  split
  · have order := streamAt_each ordered .nil now key
    cases last : (store.streamAt now key).getLast? with
    | none => exact .inl (by decide)
    | some entry =>
      have parsed := order.parses entry (List.mem_of_getLast? last)
      exact .inl (by rw [Option.map_some, Option.getD_some, parsed]; rfl)
  · rename_i plain
    exact .inr ⟨rfl, plain⟩

theorem resolveId_plain (ordered : store.StreamsOrdered) (now : Time) (key : Key) (id : Bytes) :
    (resolveId store now key id).2 ≠ ascii "$" := by
  rcases resolveId_cases ordered now key id with parsed | ⟨same, plain⟩
  · intro text
    rw [text] at parsed
    revert parsed
    decide
  · rwa [same]

theorem resolved_threshold (ordered : store.StreamsOrdered) (alike : readsAlike id = true)
    (now : Time) (key : Key) :
    (parse (resolveId store now key id).2).getD ⟨0, 0⟩ =
      readThreshold (resolveId store now key id).2 := by
  rcases resolveId_cases ordered now key id with parsed | ⟨same, plain⟩
  · obtain ⟨sid, parsed⟩ := Option.isSome_iff_exists.mp parsed
    rw [parsed, readThreshold_parsed parsed, Option.getD_some]
  rw [same]
  simp only [readsAlike, Bool.or_eq_true, Bool.and_eq_true, beq_iff_eq, decide_eq_true_eq]
    at alike
  rcases alike with (dollar | parsed) | ⟨dashless, zero⟩
  · exact (plain dollar).elim
  · obtain ⟨sid, parsed⟩ := Option.isSome_iff_exists.mp parsed
    rw [parsed, readThreshold_parsed parsed, Option.getD_some]
  · rw [parse_of_dashless dashless, readThreshold, if_pos dashless, zero,
      Option.getD_none]

theorem plainRead_reply (store : Store) (manager : Option BlockingManager) (now : Time) (fd : Fd)
    (key : Key) (plain : id ≠ ascii "$") :
    (handleXreadWithBlocking store manager now fd
      [ascii "XREAD", ascii "STREAMS", key, id]).reply =
        encodeStreamEntries [(key, (store.xread now key id).2)] := by
  have option : toUpper (ascii "STREAMS") ≠ ascii "BLOCK" := by decide
  have found : toUpper (ascii "STREAMS") = ascii "STREAMS" := by decide
  unfold handleXreadWithBlocking
  dsimp only
  rw [if_neg option]
  simp [readWithBlocking, found, readStreams, resolveId, plain]

end Resolved

namespace CommandContext

theorem block_executes {next : CommandContext} {request : Request} {effect : Effect}
    (table : request.name ∉ controlCommands)
    (handled : ctx.handle (.request request) = .ok (next, some ⟨.block, effect⟩)) :
    ∃ execution : Execution, execution.Runs ∧ execution.before = ctx.toHandlerState ∧
      execution.fd = request.fd ∧ execution.args = request.args ∧
      execution.cmd = request.name ∧ execution.outcome.result = .block ∧
      ∃ aof, next.toHandlerState = { execution.after with aofManager := aof } := by
  obtain ⟨observation, served, seen⟩ := handle_request handled
  obtain ⟨outcome, -, serves, rfl, given⟩ := serve_ok served
  cases seen
  have blocked : outcome.result = .block := (Observation.mk.inj given).1.symm
  have control : ∀ {name : Bytes}, request.name = name → name ∉ controlCommands :=
    fun same => same ▸ table
  cases serves with
  | rejected _ | queued _ _ _ => cases blocked
  | multi _ name | exec _ name _ | discard _ name | watch _ name | unwatch _ name =>
    exact (control name (by decide)).elim
  | executed passed _ _ done =>
    obtain ⟨result, runs, state, -, same, -, -⟩ := execute_ok done
    rw [gate_toHandlerState passed] at runs
    refine ⟨⟨ctx.toHandlerState, request.fd, request.args, request.name, result⟩, runs, rfl,
      rfl, rfl, rfl, same ▸ blocked, ?_⟩
    unfold logCommand
    split
    · exact ⟨_, by rw [state]; rfl⟩
    · exact ⟨_, state⟩

end CommandContext

namespace Execution

def addsBehind (execution : Execution) (key : Key) (threshold : StreamId) : Bool :=
  execution.accepted.any fun entry => entry.1 == key && lt threshold entry.2

variable {execution : Execution}

theorem Runs.xread_registers {front : List Bytes} {id : Bytes} (runs : execution.Runs)
    (name : execution.cmd = ascii "XREAD") (args : execution.args = front ++ [key, id])
    (blocked : execution.outcome.result = .block) :
    ∃ client : BlockedClient, client.fd = execution.fd ∧
      client.lastId = (parse (resolveId execution.before.store execution.now.steady key
        id).2).getD ⟨0, 0⟩ ∧
      execution.after.queue key = execution.before.queue key ++ [client] := by
  have called := @Runs.calls execution runs .xread name blocked
  obtain ⟨blocking, target, _, timeoutMs, present, ⟨before, text, seen, given, reads, rfl, -⟩,
    left⟩ := called.xread.waits blocked (handleXread_ends _ _ _ _ _)
  rw [args] at given
  obtain ⟨-, pair⟩ := List.append_inj' given rfl
  cases pair
  rw [resolveId_text, reads.streamAt, ← resolveId_text] at left
  generalize added : blocking.blockClientForStream execution.now.steady execution.fd key _
    timeoutMs = after at left
  obtain ⟨client, own, -, last, -, -, queues, -, -⟩ :=
    BlockingManager.blockClientForStream_adds added
  refine ⟨client, own, last, ?_⟩
  rw [HandlerState.queue_some left, queues, if_pos rfl, HandlerState.queue_some present]

theorem Runs.xadd_keeps (runs : execution.Runs)
    (clock : 0 ≤ execution.now.system ∧ execution.now.system < 2 ^ 63)
    (name : execution.cmd = ascii "XADD") :
    client ∈ execution.after.queue key ↔
      client ∈ execution.before.queue key ∧ execution.addsBehind key client.lastId = false := by
  cases accepted : execution.accepted with
  | none =>
    rw [(runs.refuses clock name accepted).queue key, addsBehind, accepted]
    simp
  | some entry =>
    obtain ⟨target, new⟩ := entry
    rw [(runs.accepts clock accepted).queue key, addsBehind, accepted, Option.any_some]
    dsimp only
    split
    · rename_i same
      subst same
      simp [List.mem_filter, BlockingManager.waitsBelow]
    · rename_i different
      simp [Ne.symm different]

end Execution

open CommandContext (Effect handle)

/-- A client of a reachable state asks for the entries behind `id` and blocks; all that
the requests behind it execute is `XADD`. -/
structure BlockedRead (id : Bytes) where
  start : CommandContext
  events : List Event
  ctx : CommandContext
  observations : List (Option Observation)
  request : Request
  front : List Bytes
  key : Key
  asked : CommandContext
  effect : Effect
  later : List Request
  idle : start.blockingManager = some .empty
  ordered : start.store.StreamsOrdered
  clock : ∀ tick, 0 ≤ (start.clock tick).system ∧ (start.clock tick).system < 2 ^ 63
  ran : Run.run handle start events = .ok (ctx, observations)
  name : request.name = ascii "XREAD"
  args : request.args = front ++ [key, id]
  blocked : ctx.handle (.request request) = .ok (asked, some ⟨.block, effect⟩)
  adds : ∀ execution ∈ asked.history (later.map .request), execution.cmd = ascii "XADD"

namespace BlockedRead

variable {id : Bytes} (read : BlockedRead id)

def resolved : Bytes :=
  (resolveId read.ctx.store (read.ctx.clock read.ctx.ticks).steady read.key id).2

def threshold : StreamId := readThreshold read.resolved

def additions : List Execution := read.asked.history (read.later.map .request)

def plainReply (execution : Execution) : Bytes :=
  (handleXreadWithBlocking execution.after.store execution.after.blockingManager
    execution.now.steady read.request.fd
    [ascii "XREAD", ascii "STREAMS", read.key, read.resolved]).reply

/-- The command wakes the client if it is the first with an entry behind the threshold,
and sends it what a plain read returns. -/
structure Wakes (client : BlockedClient) (past : List Execution) (execution : Execution) :
    Prop where
  first : client ∈ execution.woken read.key ↔
    execution.addsBehind read.key read.threshold = true ∧
      ∀ earlier ∈ past, earlier.addsBehind read.key read.threshold = false
  sends : client ∈ execution.woken read.key →
    execution.outcome.sends = (execution.woken read.key).map
      (entriesMessage execution.after.store execution.now.steady read.key)
  entries : client ∈ execution.woken read.key →
    entriesMessage execution.after.store execution.now.steady read.key client =
      (read.request.fd, read.plainReply execution)

def MatchesPlain : Prop :=
  ∃ client : BlockedClient, client.fd = read.request.fd ∧
    read.asked.queue read.key = read.ctx.queue read.key ++ [client] ∧
    Run.InOrder (read.Wakes client) [] read.additions

theorem ctx_ordered : read.ctx.store.StreamsOrdered :=
  (run_worked read.ran).each (fun tick => ordered_closed (read.clock tick))
    read.ordered

theorem registers : ∃ client : BlockedClient, client.fd = read.request.fd ∧
    client.lastId = (parse read.resolved).getD ⟨0, 0⟩ ∧
    read.asked.queue read.key = read.ctx.queue read.key ++ [client] ∧
    read.asked.clock = read.start.clock := by
  obtain ⟨execution, runs, before, fd, args, cmd, blocked, aof, state⟩ :=
    block_executes (by rw [read.name]; decide) read.blocked
  obtain ⟨client, own, last, queue⟩ := runs.xread_registers (cmd.trans read.name)
    (args.trans read.args) blocked
  rw [now, before] at last
  rw [before] at queue
  refine ⟨client, own.trans fd, last, ?_, ?_⟩
  · rw [← queue, state]
    rfl
  · rw [state]
    exact ((executeCommand_wiring runs).clock.trans
      (congrArg HandlerState.clock before)).trans (run_wiring read.ran).clock

theorem additions_inOrder (threshold : client.lastId = read.threshold)
    (waiting : client ∈ read.asked.queue read.key) (clock : read.asked.clock = read.start.clock) :
    Run.InOrder (fun past execution =>
      (execution.before.clock = read.start.clock ∧
        (client ∈ execution.before.queue read.key ↔
          ∀ earlier ∈ past, earlier.addsBehind read.key read.threshold = false)) ∧
      execution.Runs) [] read.additions := by
  refine @requests_inOrder
    (fun past state => state.clock = read.start.clock ∧ (client ∈ state.queue read.key ↔
      ∀ earlier ∈ past, earlier.addsBehind read.key read.threshold = false))
    (fun _ execution => execution.cmd = ascii "XADD")
    (fun past execution runs held name => ⟨?_, ?_⟩) (fun _ _ _ held => held) _ _ _
    ⟨clock, by simp [waiting]⟩ (Run.inOrder_forall.mpr read.adds)
  · exact (executeCommand_wiring runs).clock.trans held.1
  · rw [runs.xadd_keeps (by rw [now, held.1]; exact read.clock _) name, held.2, threshold]
    simp [or_imp, forall_and]

theorem matchesPlain (alike : readsAlike id = true) : read.MatchesPlain := by
  obtain ⟨client, own, last, queue, clock⟩ := read.registers
  have threshold : client.lastId = read.threshold :=
    last.trans (resolved_threshold read.ctx_ordered alike _ _)
  refine ⟨client, own, queue, ?_⟩
  have each := (read.additions_inOrder threshold (by simp [queue]) clock).and
    (Run.inOrder_forall.mpr read.adds)
  refine each.imp fun past execution held => ?_
  obtain ⟨⟨⟨clock, waits⟩, runs⟩, name⟩ := held
  have range : 0 ≤ execution.now.system ∧ execution.now.system < 2 ^ 63 := by
    rw [now, clock]
    exact read.clock _
  have woken : client ∈ execution.woken read.key ↔
      execution.addsBehind read.key read.threshold = true ∧
        ∀ earlier ∈ past, earlier.addsBehind read.key read.threshold = false := by
    simp only [woken, List.mem_filter, decide_eq_true_eq, runs.xadd_keeps range name,
      waits, threshold]
    grind
  have accepted : client ∈ execution.woken read.key →
      ∃ new, execution.accepted = some (read.key, new) := by
    intro member
    have passed := (woken.mp member).1
    rw [addsBehind, Option.any_eq_true] at passed
    obtain ⟨⟨key, new⟩, added, inside⟩ := passed
    simp only [Bool.and_eq_true, beq_iff_eq] at inside
    exact ⟨new, by rw [added, inside.1]⟩
  refine ⟨woken, fun member => ?_, fun _ => ?_⟩
  · obtain ⟨new, added⟩ := accepted member
    have accepts := runs.accepts range added
    rw [accepts.woken]
    exact accepts.sends
  · have inside : client.lastId.InRange := by
      rw [last]
      cases parsed : parse read.resolved with
      | none => exact ⟨by decide, by decide⟩
      | some sid => exact parse_range parsed
    have plain : read.resolved ≠ ascii "$" := resolveId_plain read.ctx_ordered _ _ _
    rw [entriesMessage, plainReply, plainRead_reply _ _ _ _ _ plain, xread_streamAt,
      xread_streamAt, readThreshold_toText inside, threshold, own]
    rfl

end BlockedRead

theorem parseInt64_of_dashless {id : Bytes} {value : Int} (dashless : 45 ∉ id)
    (parsed : parseInt64 id = some value) : 0 ≤ value := by
  obtain ⟨whole, -⟩ := Option.filter_eq_some_iff.mp parsed
  unfold parseInteger at whole
  split at whole
  · exact (dashless (List.mem_cons_self ..)).elim
  cases digits : parseNat id with
  | none => simp [digits] at whole
  | some number =>
    have same : (number : Int) = value := by simpa [digits] using whole
    omega

theorem readThreshold_unlike {id : Bytes} (unlike : readsAlike id = false) :
    lt (readThreshold id) ⟨0, 1⟩ = false := by
  simp only [readsAlike, Bool.or_eq_false_iff, Bool.and_eq_false_iff, decide_eq_false_iff_not,
    beq_eq_false_iff_ne, Option.isSome_eq_false_iff, Option.isNone_iff_eq_none] at unlike
  obtain ⟨⟨-, unparsed⟩, shape⟩ := unlike
  by_cases dashless : 45 ∉ id
  · rw [readThreshold, if_pos dashless]
    cases parsed : parseInt64 id with
    | none =>
      rw [parsed] at shape
      exact (shape.elim (fun dash => dash dashless) fun zero => zero rfl).elim
    | some value =>
      have positive := parseInt64_of_dashless dashless parsed
      rw [parsed] at shape
      have nonzero : value ≠ 0 := shape.resolve_left fun dash => dash dashless
      simp only [Option.getD_some, lt, Bool.or_eq_false_iff, Bool.and_eq_false_iff,
        decide_eq_false_iff_not, beq_eq_false_iff_ne]
      omega
  · rw [readThreshold, if_neg dashless, unparsed]
    decide

theorem CommandContext.serve_congr {left right : Request} (fd : left.fd = right.fd)
    (name : left.name = right.name) (named : left.args ≠ [] ∧ right.args ≠ [])
    (table : right.name ∉ controlCommands) (reads : isWriteCommand right.name = false)
    (outside : ctx.txInMulti right.fd = false)
    (same : executeCommand ctx.toHandlerState right.fd true left.args right.name =
      executeCommand ctx.toHandlerState right.fd true right.args right.name) :
    ctx.serve left = ctx.serve right := by
  have processed : ctx.processSingleCommand right.fd true left.args right.name =
      ctx.processSingleCommand right.fd true right.args right.name := by
    rw [processSingleCommand, processSingleCommand, if_neg named.1, if_neg named.2]
    cases passed : ctx.gate right.fd right.name with
    | error fault => rfl
    | ok gate =>
      cases gate with
      | rejected reply => rfl
      | admitted admitted =>
        simp only [controlCommands, List.mem_cons, List.not_mem_nil, or_false, not_or] at table
        rw [txInMulti, ← gate_tx passed, ← txInMulti] at outside
        rw [← gate_toHandlerState passed] at same
        simp only [processAdmitted, table, outside, execute, same, if_false,
          Bool.false_eq_true]
  obtain ⟨first, rest, given⟩ := List.exists_cons_of_ne_nil named.1
  obtain ⟨other, tail, again⟩ := List.exists_cons_of_ne_nil named.2
  have called : toUpper first = right.name := by
    rw [← name, Request.name, given]
    rfl
  have calls : toUpper other = right.name := by
    rw [Request.name, again]
    rfl
  rw [given, again] at processed
  unfold CommandContext.serve
  rw [fd, given, again, step, step, called, calls, processed]
  cases ctx.processSingleCommand right.fd true (other :: tail) right.name with
  | error fault => rfl
  | ok outcome => simp [logCommand, propagatedCommands, loggedBytes, reads]

section Disagreeing

variable {id : Bytes}

def startRead (id : Bytes) : Request :=
  .ofArgs 5 [ascii "XREAD", ascii "BLOCK", ascii "0", ascii "STREAMS", ascii "k", id]

def BlockedRead.ofStart {asked : CommandContext} {effect : Effect} {later : List Request}
    (blocked : (twoClients 0).handle (.request (startRead id)) =
      .ok (asked, some ⟨.block, effect⟩))
    (adds : ∀ execution ∈ asked.history (later.map .request), execution.cmd = ascii "XADD") :
    BlockedRead id where
  start := twoClients 0
  events := []
  ctx := twoClients 0
  observations := []
  request := startRead id
  front := [ascii "XREAD", ascii "BLOCK", ascii "0", ascii "STREAMS"]
  key := ascii "k"
  asked := asked
  effect := effect
  later := later
  idle := rfl
  ordered := empty_each _
  clock := fun _ => (by decide : (0 : Int) ≤ 0 ∧ (0 : Int) < 2 ^ 63)
  ran := rfl
  name := (by decide : toUpper (ascii "XREAD") = ascii "XREAD")
  args := rfl
  blocked := blocked
  adds := adds

theorem startRead_handled (plain : id ≠ ascii "$") (blocking : BlockingManager) :
    handleXreadWithBlocking Store.empty (some blocking) 0 5 (startRead id).args =
      ⟨Store.empty, some (blocking.blockClientForStream 0 5 (ascii "k")
        ((parse id).getD ⟨0, 0⟩) 0), true, [], []⟩ := by
  have option : toUpper (ascii "BLOCK") = ascii "BLOCK" := by decide
  have word : toUpper (ascii "STREAMS") = ascii "STREAMS" := by decide
  have timeout : parseInt64 (ascii "0") = some 0 := by decide
  have absent : Store.empty.xread 0 (ascii "k") id = (Store.empty, []) := rfl
  simp [startRead, Request.ofArgs, handleXreadWithBlocking, option, timeout, readWithBlocking,
    word, readStreams, resolveId, plain, absent]

theorem startRead_serve (plain : id ≠ ascii "$") (unparsed : parse id = none) :
    (twoClients 0).serve (startRead id) =
      (twoClients 0).serve (startRead (ascii "0-0")) := by
  have handled : handleXreadWithBlocking Store.empty (some .empty) 0 5 (startRead id).args =
      handleXreadWithBlocking Store.empty (some .empty) 0 5 (startRead (ascii "0-0")).args := by
    have zero : parse (ascii "0-0") = some ⟨0, 0⟩ := by decide
    rw [startRead_handled plain, startRead_handled (by decide), unparsed, zero]
    rfl
  have found : Command.lookup (startRead (ascii "0-0")).name = some .xread := by decide
  refine serve_congr rfl rfl ⟨by simp [startRead, Request.ofArgs],
    by simp [startRead, Request.ofArgs]⟩ (by decide) (by decide) (by decide +kernel) ?_
  rw [executeCommand, executeCommand, found]
  exact congrArg (fun result => (twoClients 0).tick.onBlocking true (.ok result))
    handled

theorem exists_disagreeing (unlike : readsAlike id = false) :
    ∃ read : BlockedRead id, ¬ read.MatchesPlain := by
  obtain ⟨⟨asked, ⟨state, effect⟩⟩, served, blocked, filled, each⟩ :
      ∃ result, (twoClients 0).serve (startRead (ascii "0-0")) = .ok result ∧
        result.2.state = .block ∧
        result.1.history [.words 6 ["XADD", "k", "0-1", "f", "v"]] ≠ [] ∧
        ∀ execution ∈ result.1.history [.words 6 ["XADD", "k", "0-1", "f", "v"]],
          execution.cmd = ascii "XADD" ∧ execution.accepted = some (ascii "k", ⟨0, 1⟩) ∧
          execution.before.queue (ascii "k") = result.1.queue (ascii "k") ∧
          execution.after.queue (ascii "k") = [] := Run.Succeeds.ok (by decide +kernel)
  obtain ⟨plain, unparsed, -⟩ : id ≠ ascii "$" ∧ parse id = none ∧
      (45 ∉ id → (parseInt64 id).getD 0 ≠ 0) := by
    simpa [readsAlike, and_assoc] using unlike
  dsimp only at blocked
  subst blocked
  have waits : (twoClients 0).handle (.request (startRead id)) =
      .ok (asked, .some ⟨.block, effect⟩) := by
    rw [CommandContext.handle, startRead_serve plain unparsed, served]
  let read : BlockedRead id := @BlockedRead.ofStart id asked effect
    [.ofArgs 6 (["XADD", "k", "0-1", "f", "v"].map ascii)] waits
    fun execution member => (each execution member).1
  refine ⟨read, ?_⟩
  rintro ⟨client, -, queue, wakes⟩
  obtain ⟨first, rest, given⟩ := List.exists_cons_of_ne_nil filled
  obtain ⟨-, accepted, before, after⟩ := each first (by rw [given]; simp)
  have turn : read.Wakes client [] first := by
    have along : Run.InOrder (read.Wakes client) [] (first :: rest) := given ▸ wakes
    exact along.1
  have woken : client ∈ first.woken (ascii "k") := by
    refine List.mem_filter.mpr ⟨?_, by simp [after]⟩
    rw [before]
    exact queue ▸ List.mem_append_right _ (List.mem_singleton_self client)
  have behind := (turn.first.mp woken).1
  have threshold : read.threshold = readThreshold id := by
    rw [BlockedRead.threshold, BlockedRead.resolved, resolveId_text, if_neg plain]
  rw [threshold, addsBehind, accepted, Option.any_some, readThreshold_unlike unlike,
    Bool.and_false] at behind
  cases behind

end Disagreeing

/-- A blocking `XREAD` agrees with the plain one, in every reachable state and whatever
`XADD`s follow, exactly for the IDs that both take for one threshold. -/
theorem blocking_read_agrees_iff (id : Bytes) :
    (∀ read : BlockedRead id, read.MatchesPlain) ↔ readsAlike id = true := by
  constructor
  · intro throughout
    by_contra unlike
    obtain ⟨read, fails⟩ := exists_disagreeing (Bool.eq_false_iff.mpr unlike)
    exact fails (throughout read)
  · exact fun alike read => read.matchesPlain alike

theorem dollar_agrees :
    ∃ read : BlockedRead (ascii "$"), read.additions ≠ [] ∧ read.MatchesPlain := by
  obtain ⟨⟨asked, output⟩, handled, blocked, given, adds⟩ : ∃ result,
      (twoClients 0).handle (.request (startRead (ascii "$"))) = .ok result ∧
        result.2.map (fun seen => seen.state) = some .block ∧
        result.1.history [.words 6 ["XADD", "k", "0-1", "f", "v"]] ≠ [] ∧
        ∀ execution ∈ result.1.history [.words 6 ["XADD", "k", "0-1", "f", "v"]],
          execution.cmd = ascii "XADD" := Run.Succeeds.ok (by decide +kernel)
  obtain ⟨⟨state, effect⟩, rfl, rfl⟩ := Option.map_eq_some_iff.mp blocked
  exact ⟨@BlockedRead.ofStart _ asked effect
    [.ofArgs 6 (["XADD", "k", "0-1", "f", "v"].map ascii)] handled adds, given,
    (blocking_read_agrees_iff (ascii "$")).mpr (by decide) _⟩

/-- A client that waits behind `5` is sent the entry `1-1`, which a plain read behind `5`
does not return. -/
theorem bare_milliseconds_disagree :
    Run.Succeeds (Run.run handle (twoClients 0)
      [.words 5 ["XREAD", "BLOCK", "0", "STREAMS", "k", "5"],
        .words 6 ["XADD", "k", "1-1", "f", "v"]])
      (fun run => run.2.getLast?.join.map (fun seen => seen.effect.sends) =
          some [(5, encodeStreamEntries
            [(ascii "k", [⟨ascii "1-1", ⟨1, 1⟩, [(ascii "f", ascii "v")]⟩])])] ∧
        (run.1.store.xread 0 (ascii "k") (ascii "5")).2 = []) ∧
    ∃ read : BlockedRead (ascii "5"), ¬ read.MatchesPlain :=
  ⟨by decide +kernel, exists_disagreeing (by decide)⟩

end Credis
