import Credis.ServerCore
import Credis.TransactionChecks

/-! Commands that come in one read. A call of `process_with_fd` is a run of its
commands, one behind the other, up to the first that does not come back normally;
a wait among them is dispatched before the writes in front of it are
propagated. -/

namespace Credis

open ByteString

namespace ServerState

/-- A server on a clock that stands still, listening on descriptor 3. The example runs start
from it, by turns that accept a client and turns that bring its commands. -/
def plain : ServerState :=
  initial ⟨none, [], [], []⟩ AofManager.initial (fun _ => ⟨0, 0⟩) (fun _ => false) 3

def Turn.accept (listener client : Fd) : Turn := .ready 0 listener ⟨[], some client⟩

def Turn.input (fd : Fd) (commands : List (List String)) : Turn :=
  .ready 0 fd ⟨commands.flatMap fun words => encodeArray (words.map ascii), none⟩

end ServerState

variable {fd : Fd} {send : Bool} {ctx : CommandContext}

variable {request : Request} {fuel : Nat} {server : ServerState}

variable {input rest data incoming : Bytes} {requests : List Request} {outcome : CallOutcome}
  {numreplicas timeoutMs : Int} {now : Time} {manager : ReplicaManager} {observation : Observation}
  {observations : List Observation}

namespace CommandContext

def Pipelined : Bytes → List Request → Bytes → Prop
  | input, [], rest => input = rest
  | input, request :: requests, rest =>
    ∃ length, parseOneInto input = .ok (request.args, length) ∧
      request.raw = input.take length ∧ Pipelined (input.drop length) requests rest

theorem pipelined_whole (whole : ∀ request ∈ requests, request.Whole) :
    Pipelined (requests.flatMap Request.raw) requests [] := by
  induction requests with
  | nil => rfl
  | cons request requests ih =>
    refine ⟨request.raw.length, ?_, ?_, ?_⟩
    · exact parseCommand_append request.raw _ _ _ (whole request (by simp))
    · rw [List.flatMap_cons, List.take_left]
    · rw [List.flatMap_cons, List.drop_left]
      exact ih fun other member => whole other (by simp [member])

theorem Pipelined.length_le (pipelined : Pipelined input requests rest) :
    requests.length ≤ input.length := by
  induction requests generalizing input with
  | nil => exact Nat.zero_le _
  | cons request requests ih =>
    obtain ⟨length, parsed, -, later⟩ := pipelined
    obtain ⟨-, given⟩ := parseCommand_consumes parsed
    have there := ih later
    have nonempty := List.length_pos_iff.mpr (parseCommand_consumes parsed).1
    rw [List.length_drop] at there
    rw [List.length_cons]
    omega

theorem processLoop_pipelined {middle final : CommandContext} {earlier : List Request}
    {last : Request} {state : ProcessState} {effect : Effect}
    (pipelined : Pipelined input (earlier ++ [last]) rest)
    (ran : Run.run (inputStep fd send) ctx earlier = .ok (middle, observations))
    (normal : ∀ observation ∈ observations, observation.state = .normal)
    (ended : middle.step fd send last.args last.raw = .ok (final, state, effect))
    (stops : state ≠ .normal) (enough : earlier.length < fuel) :
    ∃ consumed, processLoop fd send fuel ctx input =
      .ok ⟨final, state, consumed, observations.map Observation.effect ++ [effect]⟩ := by
  induction earlier generalizing ctx input observations fuel with
  | nil =>
    cases ran
    obtain ⟨length, parsed, raw, -⟩ := pipelined
    cases fuel with
    | zero => cases enough
    | succ fuel =>
      refine ⟨length, ?_⟩
      rw [raw] at ended
      simp only [processLoop, parsed, ended, List.map_nil, List.nil_append]
  | cons request earlier ih =>
    obtain ⟨length, parsed, raw, later⟩ := pipelined
    obtain ⟨next, observation, seen, taken, rest, rfl⟩ := Run.run_cons ran
    cases fuel with
    | zero => cases enough
    | succ fuel =>
      have here := step_of_inputStep taken
      rw [normal observation (by simp), raw] at here
      obtain ⟨consumed, there⟩ := ih later rest
        (fun other member => normal other (by simp [member])) (Nat.lt_of_succ_lt_succ enough)
      refine ⟨length + consumed, ?_⟩
      simp only [processLoop, parsed, here, there, List.map_cons, List.cons_append]

theorem processLoop_run (done : processLoop fd send fuel ctx input = .ok outcome) :
    ∃ requests rest observations, Pipelined input requests rest ∧
      Run.run (inputStep fd send) ctx requests = .ok (outcome.ctx, observations) ∧
      outcome.effects = observations.map Observation.effect := by
  induction fuel generalizing ctx input outcome with
  | zero =>
    cases done
    exact ⟨[], input, [], rfl, rfl, rfl⟩
  | succ fuel ih =>
    unfold processLoop at done
    split at done
    · cases done
      exact ⟨[], input, [], rfl, rfl, rfl⟩
    rename_i args length parsed
    have single : ∀ {next : CommandContext} {state : ProcessState} {effect : Effect},
        ctx.step fd send args (input.take length) = .ok (next, state, effect) →
        inputStep fd send ctx ⟨fd, args, input.take length⟩ = .ok (next, ⟨state, effect⟩) :=
      fun stepped => inputStep_of_step stepped
    split at done
    · cases done
    · rename_i next effect stepped
      split at done
      · cases done
      rename_i later looped
      cases done
      obtain ⟨requests, rest, observations, pipelined, ran, effects⟩ := ih looped
      refine ⟨⟨fd, args, input.take length⟩ :: requests, rest,
        ⟨.normal, effect⟩ :: observations, ⟨length, parsed, rfl, pipelined⟩, ?_, ?_⟩
      · simp only [Run.run, single stepped, ran]
      · rw [effects]
        rfl
    · rename_i next state effect _ stepped
      cases done
      refine ⟨[⟨fd, args, input.take length⟩], input.drop length, [⟨state, effect⟩],
        ⟨length, parsed, rfl, rfl⟩, ?_, rfl⟩
      simp only [Run.run, single stepped]

theorem processWithFd_relates {related : CommandContext → CommandContext → Prop}
    (refl : ∀ ctx, related ctx ctx)
    (trans : ∀ {first second third}, related first second → related second third →
      related first third) (fetched : ∀ {ctx opened}, Fetched ctx opened → related ctx opened)
    (once : ∀ {ctx request after observation},
      inputStep fd send ctx request = .ok (after, observation) → related ctx after)
    (done : ctx.processWithFd fd send input = .ok outcome) : related ctx outcome.ctx := by
  unfold processWithFd at done
  split at done
  · cases done
  · rename_i opened fetching
    obtain ⟨requests, rest, observations, -, ran, -⟩ := processLoop_run done
    exact trans (fetched (fetchOutput_ok fetching)) (Run.run_relates refl trans once ran)

theorem processLoop_waits (waits : ∀ parsed, parseCommand input ≠ .ok parsed) :
    processLoop fd send fuel ctx input = .ok ⟨ctx, .normal, 0, []⟩ := by
  cases fuel with
  | zero => rfl
  | succ fuel =>
    rw [processLoop]
    cases read : parseOneInto input with
    | error failure => rfl
    | ok parsed => exact absurd read (waits parsed)

theorem inputStep_wiring {after : CommandContext}
    (done : inputStep fd send ctx request = .ok (after, observation)) :
    SameWiring ctx.toHandlerState after.toHandlerState := by
  obtain ⟨outcome, -, serves, rfl, -⟩ := inputStep_ok done
  exact serves.wiring.trans (logCommand_wiring _ _ _)

theorem inputStep_propagated {after : CommandContext}
    (replicas : ctx.replicaCount.any (0 < ·) = true)
    (done : inputStep fd send ctx request = .ok (after, observation)) :
    observation.effect.propagated = writesOf [request] := by
  obtain ⟨outcome, -, serves, -, rfl⟩ := inputStep_ok done
  simp only [propagatedCommands, serves.wiring.replicas, replicas, and_true, writesOf,
    List.filter_cons, List.filter_nil]
  split <;> rfl

theorem inputRun_propagated {last : CommandContext} (replicas : ctx.replicaCount.any (0 < ·) = true)
    (ran : Run.run (inputStep fd send) ctx requests = .ok (last, observations)) :
    (observations.flatMap fun seen => seen.effect.propagated) = writesOf requests ∧
      last.replicaCount = ctx.replicaCount := by
  induction requests generalizing ctx observations with
  | nil =>
    cases ran
    exact ⟨rfl, rfl⟩
  | cons request requests ih =>
    obtain ⟨next, observation, later, taken, rest, rfl⟩ := Run.run_cons ran
    have wiring := (inputStep_wiring taken).replicas
    obtain ⟨there, same⟩ := ih (by rw [wiring]; exact replicas) rest
    refine ⟨?_, same.trans wiring⟩
    rw [List.flatMap_cons, inputStep_propagated replicas taken, there]
    simp only [writesOf, ← List.map_append, ← List.filter_append, List.singleton_append]

theorem Pipelined.writes_ne_nil (pipelined : Pipelined input requests rest)
    (member : request ∈ requests) (write : isWriteCommand request.name = true) :
    0 < (writesOf requests).flatten.length := by
  have present : request.raw ∈ writesOf requests :=
    List.mem_map_of_mem (List.mem_filter.mpr ⟨member, write⟩)
  have filled : request.raw ≠ [] := by
    clear write present
    induction requests generalizing input with
    | nil => cases member
    | cons first requests ih =>
      obtain ⟨length, parsed, raw, later⟩ := pipelined
      rcases List.mem_cons.mp member with rfl | member
      · obtain ⟨nonempty, positive⟩ := parseCommand_consumes parsed
        rw [raw]
        simp only [ne_eq, List.take_eq_nil_iff, not_or]
        exact ⟨by omega, nonempty⟩
      · exact ih later member
  rw [List.length_pos_iff, ne_eq, List.flatten_eq_nil_iff]
  intro absent
  exact filled (absent _ present)

end CommandContext

namespace ServerState

open CommandContext

def IsClient (server : ServerState) (fd : Fd) : Prop :=
  (∀ connector, server.replicaConn = some connector → fd ≠ connector.fd) ∧
    server.replicaMgr.contains fd = false ∧ fd ≠ server.listenerFd

theorem dispatchEvent_client (client : server.IsClient fd) (now : Time) (ready : Readiness) :
    server.dispatchEvent now fd ready = server.dispatchClient now fd ready.incoming := by
  obtain ⟨master, replica, listener⟩ := client
  have other : server.dispatchOther now fd ready = server.dispatchClient now fd ready.incoming := by
    rw [dispatchOther, replica, if_neg (by decide), if_neg listener]
  unfold dispatchEvent
  split
  · rename_i connector connected
    rw [if_neg (master connector connected), other]
  · exact other

inductive Turned (server : ServerState) : Turn → ServerState → List Action → Prop
  | timeouts (now : Time) (status : AofManager.ChildStatus) : Turned server (.timeouts now status)
      (server.settleTimeouts now status).1 (server.settleTimeouts now status).2
  | masterGone {now : Time} {ready : Readiness} {connector : ReplicaConnector} :
      server.replicaConn = some connector →
      Turned server (.ready now connector.fd ready) { server with replicaConn := none } []
  | master {now : Time} {ready : Readiness} {connector next : ReplicaConnector}
      {commands : List Bytes} {ctx : CommandContext} : server.replicaConn = some connector →
      processAll commands server.context = .ok ctx →
      Turned server (.ready now connector.fd ready)
        { server.withContext ctx with replicaConn := some next } []
  | replicaGone {now : Time} {fd : Fd} {ready : Readiness} {pool : ConnectionPool} :
      (∀ connector, server.replicaConn = some connector → fd ≠ connector.fd) →
      server.replicaMgr.contains fd = true →
      server.pool.readFrom fd ready.incoming = .ok (pool, none) →
      Turned server (.ready now fd ready) { server with
        replicaMgr := server.replicaMgr.removeReplica fd
        pool := pool.remove fd } []
  | replica {now : Time} {fd : Fd} {ready : Readiness} {pool : ConnectionPool} {data : Bytes}
      {manager : ReplicaManager} {result : AckResult} {actions : List Action} :
      server.replicaMgr.contains fd = true →
      server.pool.readFrom fd ready.incoming = .ok (pool, some data) →
      server.replicaMgr.processAck fd data = (manager, result) →
      actions = result.wait.toList.map (fun wait => .waitReply wait.clientFd wait.count) →
      Turned server (.ready now fd ready) { server with
        replicaMgr := manager
        pool := perform (pool.consume fd result.consumed) actions } actions
  | accepted {now : Time} {ready : Readiness} {client : Fd} : ready.accepted = some client →
      Turned server (.ready now server.listenerFd ready)
        { server with pool := server.pool.add client } []
  | idle {now : Time} {ready : Readiness} :
      Turned server (.ready now server.listenerFd ready) server []
  | clientGone {now : Time} {fd : Fd} {ready : Readiness} {pool : ConnectionPool} :
      server.IsClient fd → server.pool.readFrom fd ready.incoming = .ok (pool, none) →
      Turned server (.ready now fd ready) ({ server with pool := pool }.dropClient fd) []
  | client {now : Time} {fd : Fd} {ready : Readiness} {pool : ConnectionPool} {data : Bytes}
      {outcome : CallOutcome} {after : ServerState} {actions : List Action} :
      server.IsClient fd → server.pool.readFrom fd ready.incoming = .ok (pool, some data) →
      ({ server with pool := pool } : ServerState).context.processWithFd fd true data =
        .ok outcome →
      ({ server with pool := pool } : ServerState).dispatchInput now fd data =
        .ok (after, actions) →
      Turned server (.ready now fd ready) after actions

section Turned

variable {server after : ServerState} {now : Time} {ready : Readiness} {actions : List Action}

theorem dispatchMaster_turned {connector : ReplicaConnector} {reply : Bytes}
    (connected : server.replicaConn = some connector)
    (done : server.dispatchMaster connector ready.incoming = .ok (after, reply)) :
    Turned server (.ready now connector.fd ready) after [] := by
  unfold dispatchMaster at done
  split at done
  · cases done
  · cases done
    exact .masterGone connected
  · split at done
    · cases done
    · rename_i processed
      cases done
      exact .master connected processed

theorem dispatchOther_turned
    (foreign : ∀ connector, server.replicaConn = some connector → fd ≠ connector.fd)
    (done : server.dispatchOther now fd ready = .ok (after, actions)) :
    Turned server (.ready now fd ready) after actions := by
  unfold dispatchOther at done
  split at done
  · rename_i known
    unfold dispatchReplica at done
    split at done
    · cases done
    · rename_i read
      cases done
      exact .replicaGone foreign known read
    · rename_i data read
      cases acked : server.replicaMgr.processAck fd data with
      | mk manager result =>
        rw [acked] at done
        cases done
        exact .replica known read acked rfl
  · rename_i unknown
    split at done
    · rename_i listener
      subst listener
      split at done
      · rename_i new
        cases done
        exact .accepted new
      · cases done
        exact .idle
    · rename_i listener
      have client : server.IsClient fd := ⟨foreign, by simpa using unknown, listener⟩
      unfold dispatchClient at done
      split at done
      · cases done
      · rename_i read
        cases done
        exact .clientGone client read
      · rename_i pool data read
        cases called : ({ server with pool := pool } : ServerState).context.processWithFd fd true
            data with
        | error fault =>
          rw [dispatchInput, called] at done
          cases done
        | ok outcome => exact .client client read called done

theorem turn_cases {turn : Turn} (done : server.turn turn = .ok (after, actions)) :
    Turned server turn after actions := by
  cases turn with
  | timeouts now status =>
    cases done
    exact .timeouts now status
  | ready now fd ready =>
    have dispatched : server.dispatchEvent now fd ready = .ok (after, actions) := done
    unfold dispatchEvent at dispatched
    split at dispatched
    · rename_i connector connected
      split at dispatched
      · rename_i own
        subst own
        cases called : server.dispatchMaster connector ready.incoming with
        | error fault =>
          rw [called] at dispatched
          cases dispatched
        | ok result =>
          rw [called] at dispatched
          cases dispatched
          exact dispatchMaster_turned connected called
      · rename_i foreign
        refine dispatchOther_turned (fun other attached => ?_) dispatched
        cases connected.symm.trans attached
        exact foreign
    · rename_i alone
      refine dispatchOther_turned (fun other attached => ?_) dispatched
      cases alone.symm.trans attached

end Turned

theorem processAll_relates {related : CommandContext → CommandContext → Prop}
    (refl : ∀ ctx, related ctx ctx)
    (trans : ∀ {first second third}, related first second → related second third →
      related first third)
    (once : ∀ {ctx : CommandContext} {command : Bytes} {outcome : CallOutcome},
      ctx.processWithFd (-1) false command = .ok outcome → related ctx outcome.ctx)
    {commands : List Bytes} {last : CommandContext} (done : processAll commands ctx = .ok last) :
    related ctx last := by
  induction commands generalizing ctx with
  | nil =>
    cases done
    exact refl _
  | cons command commands ih =>
    unfold processAll at done
    split at done
    · cases done
    rename_i next reply processed
    unfold process at processed
    cases called : ctx.processWithFd (-1) false command with
    | error fault =>
      rw [called] at processed
      cases processed
    | ok outcome =>
      rw [called] at processed
      cases processed
      exact trans (once called) (ih done)

def opens (server : ServerState) (fd : Fd) (incoming : Bytes) : Option (CommandContext × Bytes) :=
  match server.pool.readFrom fd incoming with
  | .ok (pool, some data) =>
    match ({ server with pool := pool } : ServerState).context.fetchOutput fd true with
    | .ok ctx => some (ctx, data)
    | .error _ => none
  | _ => none

/-- The wait is measured against what was propagated before and these writes, at
once or later on, and the requests for acknowledgements come behind them. -/
structure Covers (before after : ReplicaManager) (fd : Fd) (writes : List Bytes)
    (actions : List Action) : Prop where
  tested : ∃ offset deadline, .wait fd offset deadline ∈ actions ∧
    before.masterOffset + writes.flatten.length ≤ offset
  target : ∀ replica, .getack replica ∈ actions → ∃ wait, after.waitState = some wait ∧
    wait.clientFd = fd ∧ before.masterOffset + writes.flatten.length ≤ wait.targetOffset
  follows : ∀ replica early late, actions = early ++ .getack replica :: late →
    ∀ raw ∈ writes, .propagate replica raw ∈ early

theorem mem_dispatchPropagate {commands : List Bytes} {action : Action}
    (member : action ∈ (dispatchPropagate commands manager).2) :
    ∃ replica raw, action = .propagate replica raw := by
  induction commands generalizing manager with
  | nil => cases member
  | cons raw commands ih =>
    rcases List.mem_append.mp member with here | later
    · obtain ⟨replica, -, rfl⟩ := List.mem_map.mp here
      exact ⟨replica.fd, raw, rfl⟩
    · exact ih later

theorem dispatchState_wait {other : Fd} {offset : Int} {deadline : Time}
    (member : .wait other offset deadline ∈
      (dispatchState manager now fd (.wait numreplicas timeoutMs)).2) :
    offset = manager.masterOffset := by
  unfold dispatchState at member
  dsimp only at member
  split at member
  · simp at member
    exact member.2.1
  · simp at member
    exact member.2.1

theorem opens_some (opened : server.opens fd incoming = some (ctx, data)) :
    ∃ pool, server.pool.readFrom fd incoming = .ok (pool, some data) ∧
      ({ server with pool := pool } : ServerState).context.fetchOutput fd true = .ok ctx := by
  unfold opens at opened
  split at opened
  · rename_i pool read reading
    split at opened
    · rename_i fetched fetching
      cases opened
      exact ⟨pool, reading, fetching⟩
    · cases opened
  · cases opened

theorem dispatchClient_opened (now : Time) (opened : server.opens fd incoming = some (ctx, data))
    (called : processLoop fd true data.length ctx data = .ok outcome) :
    ∃ after, server.dispatchClient now fd incoming = .ok (after,
        (dispatchState server.replicaMgr now fd outcome.state).2 ++
          (dispatchPropagate outcome.propagateCmds
            (dispatchState server.replicaMgr now fd outcome.state).1).2) ∧
      after.replicaMgr = (dispatchPropagate outcome.propagateCmds
        (dispatchState server.replicaMgr now fd outcome.state).1).1 := by
  obtain ⟨pool, reading, fetching⟩ := opens_some opened
  have call : ({ server with pool := pool } : ServerState).context.processWithFd fd true data =
      .ok outcome := by
    rw [processWithFd, fetching]
    exact called
  simp only [dispatchClient, reading, dispatchInput, call]
  exact ⟨_, rfl, rfl⟩

theorem opens_replicas (opened : server.opens fd incoming = some (ctx, data))
    (replicas : 0 < server.replicaMgr.count) : ctx.replicaCount.any (0 < ·) = true := by
  obtain ⟨pool, -, fetching⟩ := opens_some opened
  have same : ctx.replicaCount = some server.replicaMgr.count := by
    rw [(fetchOutput_ok fetching).state]
    rfl
  simpa [same] using replicas

theorem covers_nothing {before after : ReplicaManager} (manager : after = (dispatchPropagate []
      (dispatchState before now fd (.wait numreplicas timeoutMs)).1).1) :
    Covers before after fd [] ((dispatchState before now fd (.wait numreplicas timeoutMs)).2 ++
      (dispatchPropagate [] (dispatchState before now fd (.wait numreplicas timeoutMs)).1).2) := by
  subst manager
  refine ⟨?_, ?_, fun _ _ _ _ raw member => by cases member⟩
  · refine ⟨before.masterOffset, ReplicaManager.waitDeadline now timeoutMs, ?_, by simp⟩
    unfold dispatchState
    dsimp only
    split <;> simp
  · intro replica member
    unfold dispatchState at member ⊢
    dsimp only at member ⊢
    split
    · rename_i enough
      rw [if_pos enough] at member
      simp at member
      obtain ⟨_, _, wrong⟩ := mem_dispatchPropagate member
      cases wrong
    · exact ⟨_, rfl, rfl, by simp⟩

/-- A wait covers the writes in front of it in the same read if and only if there
are none. -/
theorem wait_covers_earlier_writes_iff {server : ServerState} {now : Time} {fd : Fd}
    {ready : Readiness} {ctx final : CommandContext} {data rest : Bytes}
    {earlier : List Request} {wait : Request} {observations : List Observation}
    {numreplicas timeoutMs : Int} {effect : Effect} (client : server.IsClient fd)
    (replicas : 0 < server.replicaMgr.count)
    (opened : server.opens fd ready.incoming = some (ctx, data))
    (pipelined : Pipelined data (earlier ++ [wait]) rest)
    (called : Run.run (inputStep fd true) ctx (earlier ++ [wait]) =
      .ok (final, observations ++ [⟨.wait numreplicas timeoutMs, effect⟩]))
    (normal : ∀ observation ∈ observations, observation.state = .normal)
    (named : wait.name = ascii "WAIT") :
    ∃ after actions, server.dispatchEvent now fd ready = .ok (after, actions) ∧
      (Covers server.replicaMgr after.replicaMgr fd (writesOf earlier) actions ↔
        ∀ request ∈ earlier, isWriteCommand request.name = false) := by
  obtain ⟨middle, ran, taken⟩ := Run.run_concat called
  have waits := step_of_inputStep taken
  obtain ⟨consumed, called⟩ := processLoop_pipelined pipelined ran normal waits (by simp)
    (by have short := pipelined.length_le; rw [List.length_append] at short; exact short)
  obtain ⟨after, dispatched, manager⟩ := dispatchClient_opened now opened called
  have propagated : CallOutcome.propagateCmds ⟨final, .wait numreplicas timeoutMs, consumed,
      observations.map Observation.effect ++ [effect]⟩ = writesOf earlier := by
    have known := opens_replicas opened replicas
    obtain ⟨first, same⟩ := inputRun_propagated known ran
    have last := inputStep_propagated (by rw [same]; exact known) taken
    have silent : writesOf [wait] = [] := by
      simp only [writesOf, List.filter_cons, named]
      rfl
    rw [CallOutcome.propagateCmds, List.flatMap_append, List.flatMap_map, first,
      List.flatMap_singleton, last, silent, List.append_nil]
  rw [propagated] at dispatched manager
  refine ⟨after, _, (dispatchEvent_client client now ready).trans dispatched, ?_, ?_⟩
  · intro covers request member
    obtain ⟨offset, deadline, tested, bound⟩ := covers.tested
    by_contra write
    have given := pipelined.writes_ne_nil (List.mem_append_left [wait] member)
      (by simpa using write)
    have whole : writesOf (earlier ++ [wait]) = writesOf earlier := by
      simp only [writesOf, List.filter_append, List.filter_cons, named]
      simp
      decide
    rw [whole] at given
    rcases List.mem_append.mp tested with here | there
    · rw [dispatchState_wait here] at bound
      omega
    · obtain ⟨_, _, wrong⟩ := mem_dispatchPropagate there
      cases wrong
  · intro reads
    have vacant : writesOf earlier = [] := by
      rw [writesOf, List.map_eq_nil_iff, List.filter_eq_nil_iff]
      intro request member
      rw [reads request member]
      decide
    rw [vacant] at manager ⊢
    exact covers_nothing manager

def behindWrite : ServerState :=
  { plain with
    pool := (ConnectionPool.empty.add 7).add 5
    replicaMgr := ⟨[⟨7, 0⟩], 27, none⟩ }

def readAndWait : List Request :=
  [.ofArgs 5 [ascii "GET", ascii "k"], .ofArgs 5 [ascii "WAIT", ascii "1", ascii "0"]]

theorem wait_covers_read :
    ∃ result, behindWrite.dispatchEvent 0 5 ⟨readAndWait.flatMap Request.raw, none⟩ =
        .ok result ∧
      Covers behindWrite.replicaMgr result.1.replicaMgr 5 [] result.2 := by
  have checked : ((behindWrite.opens 5 (readAndWait.flatMap Request.raw)).any fun found =>
      decide (found.2 = readAndWait.flatMap Request.raw ∧
        Run.Succeeds (Run.run (inputStep 5 true) found.1 readAndWait) fun called =>
          called.2.map Observation.state = [.normal, .wait 1 0])) = true := by
    decide +kernel
  obtain ⟨⟨ctx, data⟩, opened, holds⟩ := (Option.any_eq_true _ _).mp checked
  obtain ⟨same, run⟩ := of_decide_eq_true holds
  dsimp only at same
  subst same
  obtain ⟨⟨final, observations⟩, called, states⟩ := run.ok
  have stream : Pipelined (readAndWait.flatMap Request.raw) readAndWait [] :=
    pipelined_whole (by decide +kernel)
  match observations, states with
  | [⟨.normal, first⟩, ⟨.wait 1 0, second⟩], rfl =>
    obtain ⟨after, actions, dispatched, covered⟩ :=
      @wait_covers_earlier_writes_iff behindWrite 0 5 ⟨readAndWait.flatMap Request.raw, none⟩
        ctx final _ [] [.ofArgs 5 [ascii "GET", ascii "k"]]
        (.ofArgs 5 [ascii "WAIT", ascii "1", ascii "0"]) [⟨.normal, first⟩] 1 0 second
        ⟨(fun _ absent => by cases absent), by decide, by decide⟩ (by decide) opened
        stream called (by simp) (by decide)
    exact ⟨_, dispatched, covered.mpr (by decide +kernel)⟩

/-- A write and a wait in one read: the wait is measured against the 27 bytes of
an earlier write, and the request for acknowledgements overtakes the new one. -/
theorem getack_precedes_pipelined_write :
    ∃ before, Run.run turn plain
        [.accept 3 7, .accept 3 5, .input 7 [["PSYNC", "?", "-1"]],
          .input 5 [["SET", "k", "1"]]] = .ok before ∧
      before.1.replicaMgr.count = 1 ∧
      ∃ result, before.1.turn (.input 5 [["SET", "k", "2"], ["WAIT", "1", "0"]]) = .ok result ∧
        result.2 = [.wait 5 27 0, .getack 7,
          .propagate 7 (encodeArray [ascii "SET", ascii "k", ascii "2"])] ∧
        ¬ Covers before.1.replicaMgr result.1.replicaMgr 5
          [encodeArray [ascii "SET", ascii "k", ascii "2"]] result.2 := by
  refine Run.of_checked (fun before => before.1.replicaMgr = ⟨[⟨7, 0⟩], 27, none⟩ ∧
    Run.Succeeds (before.1.turn (.input 5 [["SET", "k", "2"], ["WAIT", "1", "0"]]))
      fun result => result.2 = [.wait 5 27 0, .getack 7,
        .propagate 7 (encodeArray [ascii "SET", ascii "k", ascii "2"])])
    (by decide +kernel) fun before _ facts => ⟨by rw [facts.1]; rfl, ?_⟩
  refine Run.of_checked _ facts.2 fun result _ actions => ⟨actions, fun covers => ?_⟩
  have overtaken := covers.follows 7 [.wait 5 27 0]
    [.propagate 7 (encodeArray [ascii "SET", ascii "k", ascii "2"])] actions _
    (List.mem_singleton.mpr rfl)
  exact absurd overtaken (by decide +kernel)

end ServerState

end Credis
