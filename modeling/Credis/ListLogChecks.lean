import Credis.AgreementChecks

/-! Lists against the log. An element leaves a list without a log entry when a
blocking pop finds it there and when a push hands it to a waiting client. In
every other run of list commands the log and the replicas follow the lists. -/

namespace Credis

open ByteString Store Command

variable {command : Command} {args : List Bytes} {ctx : CommandContext}

variable {request : Request} {left right store : Store}

def Command.isListWrite : Command → Bool
  | .rpush | .lpush | .lpop | .rpop => true
  | _ => false

theorem Command.isListWrite_writes (list : command.isListWrite = true) :
    isWriteCommand command.name = true := by
  cases command with
  | rpush | lpush | lpop | rpop => decide
  | _ => cases list

theorem applied_data (same : left.data = right.data)
    (found : lookup (toUpper (args.headD [])) = some command)
    (list : command.isListWrite = true) : (applied left args).data = (applied right args).data := by
  have writes := isListWrite_writes list
  have named : isWriteCommand (toUpper (args.headD [])) = true := by rwa [lookup_name found]
  by_cases short : args.length < command.minArgs
  · rw [applied, applied, executeCommand, executeCommand, found]
    simp [short, HandlerState.replied, bareState, CommandContext.fresh, same]
  have acts : ∀ operation, command.Uses args operation →
      operation.Keeps (fun one other => one.data = other.data) ⟨0, 0⟩ ⟨0, 0⟩ := by
    intro operation used left right same
    have keyed : operation.key? = some (args.getD 1 []) ∧ operation.onEntry = true := by
      cases used with
      | reads reader => cases reader.symm.trans writes
      | rpushIfValidType | rpush | rpushWakes | lpushIfValidType | lpush | lpushWakes | lpop
      | lpopCount | rpop | rpopCount => exact ⟨rfl, rfl⟩
      | _ => cases list
    exact (Operation.call_acts ⟨0, 0⟩ keyed.1 keyed.2).data same
  have ran : ∀ store, executeCommand (bareState store) (-1) false args (toUpper (args.headD [])) =
      (bareState store).tick.onStore (command.write args store ⟨0, 0⟩) := fun store =>
    executeCommand_write found named (Nat.not_lt.mp short) (bareState_free store args) (-1) false
  have alike := write_related writes acts same
  rw [applied, applied, ran, ran]
  generalize command.write args left ⟨0, 0⟩ = one at alike
  generalize command.write args right ⟨0, 0⟩ = other at alike
  cases alike with
  | fault => exact same
  | ok matched => exact matched.2

namespace Store

def listAt (store : Store) (key : Key) : List Bytes :=
  ((store.contents key).bind Value.list?).getD []

theorem popMany_empty (take : List Bytes → Option (Bytes × List Bytes)) (now : Time) {key : Key}
    (count : Int) (steady : store.NoExpiry) (empty : store.listAt key = []) :
    (popMany take store now key count).1.data = store.data ∧
      (popMany take store now key count).2 = [] := by
  unfold popMany
  rw [(steady.touchKey key).findValidEntry now key]
  dsimp only [touchKey_data]
  cases found : store.data.lookup key with
  | none => exact ⟨rfl, rfl⟩
  | some entry =>
    cases held : entry.value with
    | list items =>
      have vacant : items = [] := by
        simpa [listAt, contents, found, held, Value.list?] using empty
      simp [held, vacant]
    | _ => simp [held]

end Store

namespace CommandContext

/-- The command is a blocking pop that finds an element, or a push that finds a
waiting client. -/
def handsOver (ctx : CommandContext) (request : Request) : Bool :=
  let key := request.args.getD 1 []
  match lookup request.name with
  | some .blpop =>
    3 ≤ request.args.length ∧ (Double.parse (request.args.getD 2 [])).any (fun seconds =>
      ¬ seconds < 0) ∧ ctx.store.listAt key ≠ []
  | some .rpush | some .lpush =>
    3 ≤ request.args.length ∧
      ctx.blockingManager.any (fun manager => manager.queue key ≠ [])
  | _ => false

def HandsOverNothing (ctx : CommandContext) : Event → Prop
  | .request request => ctx.handsOver request = false
  | _ => True

/-- The commands are those of lists, from clients that pass the gates and are in
no transaction. -/
def ListTraffic (ctx : CommandContext) : Event → Prop
  | .request request =>
    request.Whole ∧ ctx.Admits request.fd ∧
      (lookup request.name).any (fun command =>
        command.isListWrite || command == .blpop) = true
  | _ => True

instance (ctx : CommandContext) (event : Event) : Decidable (ctx.HandsOverNothing event) :=
  match event with
  | .request _ => inferInstanceAs (Decidable (_ = _))
  | .connect _ | .disconnect _ | .timeouts _ _ => inferInstanceAs (Decidable True)

instance (ctx : CommandContext) (event : Event) : Decidable (ctx.ListTraffic event) :=
  match event with
  | .request _ => inferInstanceAs (Decidable (_ ∧ _ ∧ _))
  | .connect _ | .disconnect _ | .timeouts _ _ => inferInstanceAs (Decidable True)

structure Follows (ctx : CommandContext) (observations : List (Option Observation)) : Prop where
  steady : ctx.store.NoExpiry
  followed : ∃ requests : List Request,
    (∀ request ∈ requests, request.Whole ∧ isReplayable request.args = true) ∧
    (ctx.aofManager.isSome = true → logOf observations = requests.flatMap Request.raw) ∧
    (ctx.replicaCount.any (0 < ·) = true →
      propagationOf observations = requests.map Request.raw) ∧
    ctx.store.data = ((requests.map Request.args).foldl applied Store.empty).data

theorem listWrite_replayable (found : lookup (toUpper (args.headD [])) = some command)
    (list : command.isListWrite = true) : isReplayable args = true := by
  refine isReplayable_iff.mpr ⟨command, found, .inr ?_⟩
  cases command with
  | rpush | lpush | lpop | rpop => rfl
  | _ => cases list

theorem handleBlpop_idle (manager : Option BlockingManager) (now : Time) (fd : Fd)
    (arity : 3 ≤ args.length) (steady : store.NoExpiry)
    (idle : (Double.parse (args.getD 2 [])).any (fun seconds => ¬ seconds < 0) = true →
      store.listAt (args.getD 1 []) = []) :
    ∃ outcome, handleBlpop store manager now fd args = .ok outcome ∧ outcome.sends = [] ∧
      outcome.store.data = store.data := by
  match args, arity with
  | _ :: key :: timeout :: rest, _ =>
    unfold handleBlpop
    dsimp only
    simp only [List.getD_cons_succ, List.getD_cons_zero] at idle
    cases parsed : Double.parse timeout with
    | none => exact ⟨_, rfl, rfl, rfl⟩
    | some seconds =>
      dsimp only
      split
      · exact ⟨_, rfl, rfl, rfl⟩
      rename_i positive
      obtain ⟨data, absent⟩ := popMany_empty takeFront now 1 steady
        (idle (by simpa [parsed] using positive))
      rw [lpopCount]
      generalize popMany takeFront store now key 1 = popped at data absent
      obtain ⟨after, elements⟩ := popped
      cases absent
      cases manager with
      | none => exact ⟨_, rfl, rfl, data⟩
      | some blocking => exact ⟨_, rfl, rfl, data⟩

/-- A step of the traffic that hands nothing over: the writes it adds to the log
and sends to the replicas change the data as the step does. -/
structure Carries (before after : CommandContext) (effect : Effect) (added : List Request) :
    Prop where
  writes : ∀ request ∈ added, request.Whole ∧
    ∃ command, lookup (toUpper (request.args.headD [])) = some command ∧
      command.isListWrite = true
  steady : after.store.NoExpiry
  logged : effect.logged = if before.aofManager.isSome then added.map Request.raw else []
  propagated : effect.propagated =
    if before.replicaCount.any (0 < ·) then added.map Request.raw else []
  data : after.store.data = ((added.map Request.args).foldl applied before.store).data

theorem serve_listWrite (whole : request.Whole) (admits : ctx.Admits request.fd)
    (found : lookup request.name = some command) (list : command.isListWrite = true)
    (free : ctx.handsOver request = false) (steady : ctx.store.NoExpiry) :
    ∃ after observation, ctx.serve request = .ok (after, observation) ∧
      Carries ctx after observation.effect [request] := by
  have replayable := listWrite_replayable found list
  have write : isWriteCommand (toUpper (request.args.headD [])) = true := by
    rw [show toUpper (request.args.headD []) = command.name from lookup_name found]
    exact isListWrite_writes list
  have unblocked : ctx.FreeFor request.args := by
    intro other same arity wakes manager blocking
    obtain rfl : command = other := Option.some.inj (found.symm.trans same)
    cases command with
    | rpush | lpush =>
      simp only [handsOver, found, blocking, decide_eq_false_iff_not, not_and, Option.any_some,
        decide_eq_true_eq, not_not] at free
      exact free arity
    | xadd => cases list
    | _ => cases wakes
  obtain ⟨after, effect, stepped, stored, -, logged, propagated⟩ :=
    step_applied true request.raw admits replayable steady unblocked
  refine ⟨after, ⟨.normal, effect⟩, serve_of_step stepped, ?_⟩
  refine ⟨?_, ?_, ?_, ?_, congrArg Store.data stored⟩
  · intro other member
    rw [List.mem_singleton.mp member]
    exact ⟨whole, command, found, list⟩
  · rw [stored]
    exact applied_steady replayable steady unblocked
  · simp only [logged, loggedBytes, write, true_and, List.map_cons, List.map_nil]
  · simp only [propagated, propagatedCommands, write, true_and, List.map_cons, List.map_nil]

theorem serve_blpop (admits : ctx.Admits request.fd)
    (found : lookup request.name = some .blpop) (free : ctx.handsOver request = false)
    (steady : ctx.store.NoExpiry) :
    ∃ after observation, ctx.serve request = .ok (after, observation) ∧
      Carries ctx after observation.effect [] := by
  have executed : ∃ outcome,
      executeCommand ctx.toHandlerState request.fd true request.args request.name = .ok outcome ∧
        outcome.authenticated = false ∧ outcome.state.store.data = ctx.store.data := by
    rw [executeCommand, found]
    by_cases short : request.args.length < blpop.minArgs
    · exact ⟨_, if_pos short, rfl, rfl⟩
    simp only [handsOver, found, decide_eq_false_iff_not, not_and, ne_eq, not_not] at free
    obtain ⟨outcome, handled, silent, data⟩ := handleBlpop_idle ctx.blockingManager
      (ctx.clock ctx.ticks).steady request.fd (Nat.not_lt.mp short) steady
      (free (Nat.not_lt.mp short))
    have here : handler (if blpop.readsClock then ctx.tick
          else ctx.toHandlerState) (ctx.clock ctx.ticks) (ctx.forks ctx.ticks) request.fd true
          request.args .blpop = ctx.tick.onBlocking true (.ok outcome) := by
      rw [← handled]
      rfl
    dsimp only
    rw [if_neg short, here, HandlerState.onBlocking, if_neg (by simp [silent])]
    exact ⟨_, rfl, rfl, data⟩
  obtain ⟨outcome, handled, plain, data⟩ := executed
  cases args : request.args with
  | nil =>
    rw [Request.name, args] at found
    exact absurd found (by decide)
  | cons name rest =>
    have same : request.name = toUpper name := by simp [Request.name, args]
    rw [args, same] at handled
    rw [same] at found
    obtain ⟨admitted, state, -, stepped⟩ := step_executed request.raw admits found handled plain
    rw [← args] at stepped
    have read : isWriteCommand (toUpper name) = false := by
      rw [lookup_name found]
      decide
    refine ⟨_, _, serve_of_step stepped, by simp, ?_, ?_, ?_, ?_⟩
    · rw [logCommand_store]
      intro key entry present
      exact steady key entry (by rw [← data]; exact present)
    · simp [loggedBytes, read]
    · simp [propagatedCommands, read]
    · rw [logCommand_store]
      exact data

theorem foldl_applied_data (same : left.data = right.data) (requests : List Request)
    (writes : ∀ request ∈ requests,
      ∃ command, lookup (toUpper (request.args.headD [])) = some command ∧
        command.isListWrite = true) :
    ((requests.map Request.args).foldl applied left).data =
      ((requests.map Request.args).foldl applied right).data := by
  induction requests generalizing left right with
  | nil => exact same
  | cons request requests ih =>
    obtain ⟨command, found, list⟩ := writes request (by simp)
    exact ih (applied_data same found list) fun other member => writes other (by simp [member])

theorem Follows.next {event : Event} {observations : List (Option Observation)}
    (holds : Follows ctx observations) (traffic : ctx.ListTraffic event)
    (free : ctx.HandsOverNothing event) :
    ∃ next output, ctx.handle event = .ok (next, output) ∧
      Follows next (observations ++ [output]) := by
  obtain ⟨steady, requests, replayable, log, propagation, data⟩ := holds
  cases event with
  | connect _ | disconnect _ =>
    refine ⟨_, none, rfl, steady, requests, replayable, ?_, ?_, data⟩
    · rw [logOf_append_none]
      exact log
    · rw [propagationOf_append_none]
      exact propagation
  | timeouts now status =>
    refine ⟨_, none, rfl, steady, requests, replayable, ?_, ?_, data⟩
    · rw [logOf_append_none]
      intro logging
      exact log (by simpa [settle] using logging)
    · rw [propagationOf_append_none]
      exact propagation
  | request request =>
    obtain ⟨whole, admits, list⟩ := traffic
    obtain ⟨command, found, kind⟩ := Option.any_eq_true .. |>.mp list
    have carried : ∃ after observation added, ctx.serve request = .ok (after, observation) ∧
        Carries ctx after observation.effect added := by
      simp only [Bool.or_eq_true, beq_iff_eq] at kind
      rcases kind with write | rfl
      · obtain ⟨after, observation, served, carries⟩ :=
          serve_listWrite whole admits found write free steady
        exact ⟨after, observation, _, served, carries⟩
      · obtain ⟨after, observation, served, carries⟩ := serve_blpop admits found free steady
        exact ⟨after, observation, _, served, carries⟩
    obtain ⟨after, observation, added, served, carries⟩ := carried
    have handled : ctx.handle (.request request) = .ok (after, some observation) := by
      simp only [handle, served]
    have wiring := handle_wiring handled
    refine ⟨after, some observation, handled, carries.steady, requests ++ added, ?_, ?_, ?_, ?_⟩
    · refine List.forall_mem_append.mpr ⟨replayable, fun other new => ?_⟩
      obtain ⟨whole, command, found, write⟩ := carries.writes other new
      exact ⟨whole, listWrite_replayable found write⟩
    · intro logging
      rw [wiring.logging] at logging
      rw [List.flatMap_append, ← log logging]
      simp [logOf, carries.logged, logging, List.flatMap_def]
    · intro replicas
      rw [wiring.replicas] at replicas
      rw [List.map_append, ← propagation replicas]
      simp [propagationOf, carries.propagated, replicas]
    · rw [carries.data, List.map_append, List.foldl_append]
      exact foldl_applied_data data added fun other member => (carries.writes other member).2

/-- In every run of list commands in which no element is handed over, the log
rebuilds the lists, and so do the commands sent to the replicas. -/
theorem lists_follow_log (ctx : CommandContext) (events : List Event)
    (start : ctx.store = Store.empty) (traffic : Run.Along handle ListTraffic ctx events)
    (free : Run.Along handle HandsOverNothing ctx events) (config : ServerConfig)
    (clock : Nat → Instant) (forks : Nat → Bool) :
    ∃ live observations, Run.run handle ctx events = .ok (live, observations) ∧
      (ctx.aofManager.isSome = true → ∃ replayed response,
        (fresh Store.empty config clock forks).process (logOf observations) =
          .ok (replayed, response) ∧ replayed.store.contents = live.store.contents) ∧
      (ctx.replicaCount.any (0 < ·) = true → ∃ replica responses,
        Run.run process (fresh Store.empty config clock forks) (propagationOf observations) =
          .ok (replica, responses) ∧ replica.store.contents = live.store.contents) := by
  have first : Follows ctx [] := by
    refine ⟨by rw [start]; exact empty_noExpiry, [], by simp, fun _ => rfl, fun _ => rfl, ?_⟩
    rw [start]
    rfl
  obtain ⟨live, observations, ran, last⟩ := Run.run_progress Follows
    (fun state event seen holds meets => Follows.next holds meets.1 meets.2) first
    (traffic.and free)
  have wiring := run_wiring ran
  obtain ⟨-, requests, replayable, log, propagation, data⟩ := last
  have whole := fun request member => (replayable request member).1
  have fits := fun request member => (replayable request member).2
  have same : ∀ store : Store, store = (requests.map Request.args).foldl applied Store.empty →
      store.contents = live.store.contents := by
    intro store rebuilt
    funext key
    rw [Store.contents, Store.contents, data, rebuilt]
  refine ⟨live, observations, ran, fun logging => ?_, fun replicas => ?_⟩
  · obtain ⟨replayed, response, done, stored⟩ :=
      fresh_process_applied whole fits config clock forks
    rw [← wiring.logging] at logging
    rw [← List.nil_append observations, log logging]
    exact ⟨replayed, response, done, same _ stored⟩
  · obtain ⟨replica, responses, done, stored⟩ := processEach_applied requests whole fits
      (fresh_admits config clock forks) empty_noExpiry (fun key manager given => by cases given)
    rw [← wiring.replicas] at replicas
    rw [← List.nil_append observations, propagation replicas]
    exact ⟨replica, responses, done, same _ stored⟩

theorem twoClients_lists_follow :
    ∃ live observations, Run.run handle (twoClients 1)
        [.words 5 ["BLPOP", "k", "0"], .words 6 ["RPUSH", "l", "a", "b"], .words 6 ["LPOP", "l"],
          .disconnect 5, .words 6 ["rpush", "k", "c"]] = .ok (live, observations) ∧
      ((twoClients 1).aofManager.isSome = true → ∃ replayed response,
        (fresh Store.empty ⟨none, [], [], []⟩ (fun _ => ⟨0, 0⟩) fun _ => false).process
          (logOf observations) = .ok (replayed, response) ∧
          replayed.store.contents = live.store.contents) ∧
      ((twoClients 1).replicaCount.any (0 < ·) = true → ∃ replica responses,
        Run.run process (fresh Store.empty ⟨none, [], [], []⟩ (fun _ => ⟨0, 0⟩) fun _ => false)
          (propagationOf observations) = .ok (replica, responses) ∧
          replica.store.contents = live.store.contents) :=
  lists_follow_log (twoClients 1) _ rfl (by decide +kernel) (by decide +kernel) _ _ _

/-- An element that a blocking pop takes, or that is handed to a waiting client,
is gone from the live list and comes back with the replay. -/
theorem log_misses_handed_over_elements :
    (∃ run, Run.run handle (twoClients 1)
        [.words 5 ["RPUSH", "k", "a"], .words 6 ["BLPOP", "k", "0"]] = .ok run ∧
      run.1.store.listAt (ascii "k") = [] ∧
      logOf run.2 = encodeArray [ascii "RPUSH", ascii "k", ascii "a"] ∧
      propagationOf run.2 = [encodeArray [ascii "RPUSH", ascii "k", ascii "a"]]) ∧
    (∃ run, Run.run handle (twoClients 1)
        [.words 6 ["BLPOP", "k", "0"], .words 5 ["RPUSH", "k", "a"]] = .ok run ∧
      run.1.store.listAt (ascii "k") = [] ∧
      logOf run.2 = encodeArray [ascii "RPUSH", ascii "k", ascii "a"] ∧
      propagationOf run.2 = [encodeArray [ascii "RPUSH", ascii "k", ascii "a"]]) ∧
    ∃ replayed, (fresh Store.empty ⟨none, [], [], []⟩ (fun _ => ⟨0, 0⟩) fun _ => false).process
        (encodeArray [ascii "RPUSH", ascii "k", ascii "a"]) = .ok replayed ∧
      replayed.1.store.listAt (ascii "k") = [ascii "a"] :=
  ⟨Run.Succeeds.ok (by decide +kernel), Run.Succeeds.ok (by decide +kernel),
    Run.Succeeds.ok (by decide +kernel)⟩

end CommandContext

end Credis
