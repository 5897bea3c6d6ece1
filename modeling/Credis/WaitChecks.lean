import Credis.PipelineChecks
import Credis.ReplicationCore

/-! The answers to waits. A ledger of the waits that are still without an answer
goes along with the server; the manager has room for one of them. -/

namespace Credis

open ByteString ConnectionPool ReplicaManager

variable {server : ServerState} {fd : Fd} {incoming : Bytes} {actions : List Action}
  {ctx : CommandContext}

variable {data : Option Bytes} {now : Time} {commands : List Bytes}

namespace ConnectionPool

section

variable (pool : ConnectionPool)

@[simp] theorem contains_markDirty (fd other : Fd) :
    (pool.markDirty fd).contains other = pool.contains other := by
  obtain ⟨dirty, found⟩ := find_markDirty pool fd other
  rw [contains, found, Option.isSome_map, contains]

@[simp] theorem contains_sendTo (fd other : Fd) (response : Bytes) :
    (pool.sendTo fd response).contains other = pool.contains other := by
  simp [sendTo]

@[simp] theorem contains_consume (fd other : Fd) (count : Nat) :
    (pool.consume fd count).contains other = pool.contains other := by
  simp [consume]

theorem contains_add (fd other : Fd) :
    (pool.add fd).contains other = (decide (other = fd) || pool.contains other) := by
  unfold add contains find
  by_cases same : other = fd
  · subst same
    simp
  · simp [AList.lookup_insert_ne same, same]

theorem contains_remove (fd other : Fd) :
    (pool.remove fd).contains other = (decide (other ≠ fd) && pool.contains other) := by
  unfold remove contains find
  by_cases same : other = fd
  · subst same
    simp
  · simp [AList.lookup_erase_ne same, same]

end

theorem contains_readFrom {pool after : ConnectionPool}
    (read : pool.readFrom fd incoming = .ok (after, data)) (other : Fd) :
    after.contains other = pool.contains other := by
  unfold readFrom at read
  split at read
  · cases read
    rfl
  rename_i connection found
  split at read
  · cases read
  cases read
  unfold contains find
  by_cases same : other = fd
  · subst same
    unfold find at found
    simp [found]
  · simp [AList.lookup_insert_ne same]

theorem readFrom_some {pool after : ConnectionPool} {data : Bytes}
    (read : pool.readFrom fd incoming = .ok (after, some data)) : pool.contains fd = true := by
  unfold readFrom at read
  split at read
  · cases read
  · rename_i connection found
    simp [contains, found]

theorem foldl_kept {β γ : Type} {view : ConnectionPool → γ}
    {change : ConnectionPool × β → Fd → ConnectionPool × β}
    (kept : ∀ state fd, view (change state fd).1 = view state.1) (fds : List Fd)
    (state : ConnectionPool × β) : view (fds.foldl change state).1 = view state.1 := by
  induction fds generalizing state with
  | nil => rfl
  | cons fd fds ih => rw [List.foldl_cons, ih, kept]

@[simp] theorem contains_flushAll (pool : ConnectionPool) (other : Fd) :
    pool.flushAll.1.contains other = pool.contains other := by
  refine @foldl_kept _ _ (fun pool => pool.contains other) _ (fun state fd => ?_) pool.dirtyFds
    (pool, [])
  unfold flushStep
  split
  · rfl
  · exact contains_modify _ _ _ _

end ConnectionPool

namespace ServerState

theorem contains_sendAll (pool : ConnectionPool) (messages : List (Fd × Bytes)) (other : Fd) :
    (sendAll pool messages).contains other = pool.contains other := by
  unfold sendAll
  induction messages generalizing pool with
  | nil => rfl
  | cons message messages ih => rw [List.foldl_cons, ih, contains_sendTo]

theorem contains_perform (pool : ConnectionPool) (actions : List Action) (other : Fd) :
    (perform pool actions).contains other = pool.contains other :=
  contains_sendAll _ _ _

end ServerState

namespace CommandContext

def SameConnections (before after : CommandContext) : Prop :=
  after.connPool.isSome = before.connPool.isSome ∧
    ∀ fd, after.hasConnection fd = before.hasConnection fd

namespace SameConnections

theorem refl (ctx : CommandContext) : SameConnections ctx ctx := ⟨rfl, fun _ => rfl⟩

theorem trans {first second third : CommandContext} (left : SameConnections first second)
    (right : SameConnections second third) : SameConnections first third :=
  ⟨right.1.trans left.1, fun fd => (right.2 fd).trans (left.2 fd)⟩

theorem session (fd : Fd) : Session fd SameConnections where
  refl := refl
  trans := trans
  setTx := by
    refine fun ctx tx => ⟨?_, fun other => setTx_hasConnection ctx fd other tx⟩
    unfold CommandContext.setTx
    split
    · rename_i found
      simp [found]
    · rfl
  clearTx := by
    refine fun ctx => ⟨?_, fun other => clearTx_hasConnection ctx fd other⟩
    unfold CommandContext.clearTx
    split
    · rename_i found
      simp [found]
    · rfl
  marks := fun ctx =>
    ⟨by simp [markConnection], fun other => markConnection_hasConnection ctx fd other⟩
  authenticates := by
    refine fun ctx => ⟨?_, fun other => setAuthenticated_hasConnection ctx fd other⟩
    unfold setAuthenticated
    split
    · simp [markConnection]
    · rfl
  handles := fun _ _ => ⟨rfl, fun _ => rfl⟩

theorem processWithFd {send : Bool} {input : Bytes} {outcome : CallOutcome}
    (done : ctx.processWithFd fd send input = .ok outcome) : SameConnections ctx outcome.ctx :=
  processWithFd_relates refl trans (fun fetched => ⟨fetched.pooled, fetched.connected⟩)
    (session fd).inputStep done

theorem pool {after : CommandContext} {pool : ConnectionPool} (same : SameConnections ctx after)
    (found : ctx.connPool = some pool) :
    ∃ later, after.connPool = some later ∧ ∀ fd, later.contains fd = pool.contains fd := by
  have attached := same.1
  rw [found] at attached
  obtain ⟨later, present⟩ := Option.isSome_iff_exists.mp attached
  refine ⟨later, present, fun fd => ?_⟩
  have connected := same.2 fd
  rw [hasConnection, hasConnection, found, present] at connected
  exact connected

end SameConnections

end CommandContext

/-- The waits of open connections without an answer, the latest first, each with
its deadline. -/
abbrev Ledger := List (Fd × Time)

namespace Ledger

/-- A reply that reaches its connection answers the latest wait of that
connection. There is no ledger behind a reply nobody waits for. -/
def settle (connected : Fd → Bool) (ledger : Ledger) : Action → Option Ledger
  | .wait fd _ deadline => some ((fd, deadline) :: ledger)
  | .waitReply fd _ =>
    if connected fd then
      if ledger.any fun entry => entry.1 == fd then
        some (ledger.eraseP fun entry => entry.1 == fd)
      else none
    else some ledger
  | .getack _ => some ledger
  | .propagate _ _ => some ledger

def audit (connected : Fd → Bool) : Ledger → List Action → Option Ledger
  | ledger, [] => some (ledger.filter fun entry => connected entry.1)
  | ledger, action :: actions =>
    (ledger.settle connected action).bind fun next => audit connected next actions

theorem audit_silent {connected : Fd → Bool} (silent : ∀ action ∈ actions, (∃ fd, action = .getack
      fd) ∨ ∃ fd raw, action = .propagate fd raw) (ledger : Ledger) :
    audit connected ledger actions = audit connected ledger [] := by
  induction actions with
  | nil => rfl
  | cons action actions ih =>
    have later := ih fun other member => silent other (by simp [member])
    rcases silent action (by simp) with ⟨fd, rfl⟩ | ⟨fd, raw, rfl⟩
    · exact later
    · exact later

end Ledger

/-- The server with the ledger, as long as there is one. -/
structure Audited where
  server : ServerState
  ledger : Option Ledger

namespace ServerState

variable (manager : ReplicaManager)

def auditedTurn (state : Audited) (turn : Turn) : Except Fault (Audited × List Action) :=
  match state.server.turn turn with
  | .error fault => .error fault
  | .ok (after, actions) =>
    .ok (⟨after, state.ledger.bind fun ledger => ledger.audit after.pool.contains actions⟩,
      actions)

def mustWait (server : ServerState) (fd : Fd) (incoming : Bytes) : Bool :=
  match server.pool.readFrom fd incoming with
  | .ok (pool, some data) =>
    match ({ server with pool := pool } : ServerState).context.processWithFd fd true data with
    | .ok outcome => Replication.asks server.replicaMgr outcome.state
    | .error _ => false
  | _ => false

/-- A wait that has to wait comes only while no open connection waits, and the
descriptor of an outstanding wait is not given to a new connection. -/
def WaitsAlone (server : ServerState) : Turn → Prop
  | .ready _ fd ready =>
    ∀ wait, server.replicaMgr.waitState = some wait → ready.accepted ≠ some wait.clientFd ∧
      (server.mustWait fd ready.incoming = true → server.pool.contains wait.clientFd = false)
  | .timeouts _ _ => True

instance (server : ServerState) (turn : Turn) : Decidable (server.WaitsAlone turn) :=
  match turn with
  | .timeouts _ _ => inferInstanceAs (Decidable True)
  | .ready _ fd ready =>
    match waiting : server.replicaMgr.waitState with
    | none => isTrue fun wait present => by cases waiting.symm.trans present
    | some wait =>
      decidable_of_iff (ready.accepted ≠ some wait.clientFd ∧
          (server.mustWait fd ready.incoming = true →
            server.pool.contains wait.clientFd = false))
        ⟨fun holds other present => by
          cases waiting.symm.trans present
          exact holds, fun holds => holds wait waiting⟩

inductive WaitStep (server after : ServerState) (actions : List Action) : Prop
  | quiet
      (record : after.replicaMgr.waitState = server.replicaMgr.waitState)
      (connections : ∀ wait, server.replicaMgr.waitState = some wait →
        after.pool.contains wait.clientFd = true → server.pool.contains wait.clientFd = true)
      (silent : ∀ ledger, Ledger.audit after.pool.contains ledger actions =
        Ledger.audit after.pool.contains ledger [])
  | asked {wait : WaitState} (record : after.replicaMgr.waitState = some wait)
      (connected : after.pool.contains wait.clientFd = true)
      (alone : ∀ old, server.replicaMgr.waitState = some old →
        server.pool.contains old.clientFd = false)
      (pushed : ∀ ledger, Ledger.audit after.pool.contains ledger actions =
        Ledger.audit after.pool.contains ((wait.clientFd, wait.deadline) :: ledger) [])
  | answered {wait : WaitState}
      (record : server.replicaMgr.waitState = some wait)
      (settled : after.replicaMgr.waitState = none)
      (connections : after.pool.contains wait.clientFd = server.pool.contains wait.clientFd)
      (replied : ∃ count, actions = [.waitReply wait.clientFd count])

def Recorded (server : ServerState) (ledger : Ledger) : Prop :=
  match server.replicaMgr.waitState with
  | none => ledger = []
  | some wait =>
    ledger = if server.pool.contains wait.clientFd then [(wait.clientFd, wait.deadline)] else []

theorem Recorded.next {after : ServerState} {ledger : Ledger} (recorded : server.Recorded ledger)
    (step : WaitStep server after actions) :
    ∃ next, ledger.audit after.pool.contains actions = some next ∧ after.Recorded next := by
  unfold Recorded at *
  cases step with
  | quiet record connections silent =>
    refine ⟨_, silent ledger, ?_⟩
    rw [record]
    cases waiting : server.replicaMgr.waitState with
    | none =>
      rw [waiting] at recorded
      simp [recorded]
    | some wait =>
      rw [waiting] at recorded
      dsimp only at recorded ⊢
      have kept := connections wait waiting
      rw [recorded]
      by_cases before : server.pool.contains wait.clientFd = true
      · rw [if_pos before, List.filter_cons]
        rfl
      have gone : after.pool.contains wait.clientFd = false := by
        by_contra present
        exact before (kept (by simpa using present))
      simp [before, gone]
  | asked record connected alone pushed =>
    rename_i wait
    have empty : ledger = [] := by
      cases waiting : server.replicaMgr.waitState with
      | none =>
        rw [waiting] at recorded
        exact recorded
      | some old =>
        rw [waiting] at recorded
        simpa [alone old waiting] using recorded
    refine ⟨_, pushed ledger, ?_⟩
    rw [record]
    simp [empty, connected]
  | answered record settled connections replied =>
    rename_i wait
    obtain ⟨count, replied⟩ := replied
    rw [record] at recorded
    rw [settled]
    refine ⟨[], ?_, rfl⟩
    dsimp only at recorded
    rw [replied, recorded]
    by_cases present : server.pool.contains wait.clientFd = true
    · simp [Ledger.audit, Ledger.settle, present, connections]
    · simp [Ledger.audit, Ledger.settle, present, connections]

theorem settleWait_cases :
    (manager.settleWait.1.waitState = manager.waitState ∧ manager.settleWait.2 = none) ∨
      ∃ wait, manager.waitState = some wait ∧ manager.settleWait.1.waitState = none ∧
        manager.settleWait.2 =
          some ⟨wait.clientFd, manager.settleWait.1.countAckedFor wait.targetOffset⟩ := by
  unfold settleWait
  split
  · exact .inl ⟨rfl, rfl⟩
  rename_i wait waiting
  dsimp only
  split
  · exact .inr ⟨wait, waiting, rfl, rfl⟩
  · exact .inl ⟨rfl, rfl⟩

theorem processAck_cases (fd : Fd) (data : Bytes) :
    ((manager.processAck fd data).1.waitState = manager.waitState ∧
        (manager.processAck fd data).2.wait = none) ∨
      ∃ wait, manager.waitState = some wait ∧
        (manager.processAck fd data).1.waitState = none ∧ (manager.processAck fd data).2.wait =
          some ⟨wait.clientFd, (manager.processAck fd data).1.countAckedFor wait.targetOffset⟩ := by
  unfold processAck
  split
  · cases ackLoop data.length data with
    | mk acknowledged consumed =>
      cases acknowledged with
      | none => exact settleWait_cases manager
      | some offset => exact settleWait_cases { manager with replicas := _ }
  · exact .inl ⟨rfl, rfl⟩

theorem checkWaitTimeout_cases (now : Time) :
    (manager.checkWaitTimeout now = (manager, none) ∧
        ∀ wait, manager.waitState = some wait → now < wait.deadline) ∨
      ∃ wait, manager.waitState = some wait ∧ manager.checkWaitTimeout now =
        ({ manager with waitState := none },
          some ⟨wait.clientFd, manager.countAckedFor wait.targetOffset⟩) := by
  unfold checkWaitTimeout
  split
  · rename_i waiting
    exact .inl ⟨rfl, fun wait present => by cases waiting.symm.trans present⟩
  rename_i wait waiting
  split
  · rename_i early
    refine .inl ⟨rfl, fun other present => ?_⟩
    cases waiting.symm.trans present
    exact early
  · exact .inr ⟨wait, waiting, rfl⟩

theorem dispatchPropagate_waitState (commands : List Bytes) (manager : ReplicaManager) :
    (dispatchPropagate commands manager).1.waitState = manager.waitState := by
  induction commands generalizing manager with
  | nil => rfl
  | cons raw commands ih => exact ih _

theorem audit_propagate (connected : Fd → Bool) (ledger : Ledger) (commands : List Bytes)
    (manager : ReplicaManager) :
    ledger.audit connected (dispatchPropagate commands manager).2 = ledger.audit connected [] :=
  Ledger.audit_silent (fun _ member => .inr (mem_dispatchPropagate member)) ledger

theorem dispatchState_waitStep {after : ServerState} {state : ProcessState}
    (present : server.pool.contains fd = true)
    (alone : Replication.asks server.replicaMgr state = true → ∀ old,
      server.replicaMgr.waitState = some old → server.pool.contains old.clientFd = false)
    (connections : ∀ other, after.pool.contains other = server.pool.contains other)
    (manager : after.replicaMgr =
      (dispatchPropagate commands (dispatchState server.replicaMgr now fd state).1).1) :
    WaitStep server after ((dispatchState server.replicaMgr now fd state).2 ++
      (dispatchPropagate commands (dispatchState server.replicaMgr now fd state).1).2) := by
  have record : after.replicaMgr.waitState =
      (dispatchState server.replicaMgr now fd state).1.waitState := by
    rw [manager, dispatchPropagate_waitState]
  have quiet : (dispatchState server.replicaMgr now fd state).1.waitState =
      server.replicaMgr.waitState → (dispatchState server.replicaMgr now fd state).2 = [] →
      WaitStep server after ((dispatchState server.replicaMgr now fd state).2 ++
        (dispatchPropagate commands (dispatchState server.replicaMgr now fd state).1).2) := by
    intro same nothing
    refine .quiet (record.trans same)
      (fun wait _ connected => (connections _).symm.trans connected) ?_
    intro ledger
    rw [nothing, List.nil_append]
    exact audit_propagate _ _ _ _
  cases state with
  | normal => exact quiet rfl rfl
  | block => exact quiet rfl rfl
  | replicaHandshake => exact quiet rfl rfl
  | wait numreplicas timeoutMs =>
    clear quiet
    unfold dispatchState at record ⊢
    dsimp only at record ⊢
    split at record
    · rename_i enough
      rw [if_pos enough]
      refine .quiet record (fun wait _ connected => (connections _).symm.trans connected) ?_
      intro ledger
      have connected : after.pool.contains fd = true := by rw [connections, present]
      simp only [List.cons_append, List.nil_append, Ledger.audit, Ledger.settle,
        Option.bind_some, connected, if_true, List.any_cons, beq_self_eq_true, Bool.true_or,
        List.eraseP_cons_of_pos]
      exact audit_propagate _ _ _ _
    · rename_i missing
      rw [if_neg missing]
      refine .asked record ?_ (alone ?_) ?_
      · exact (connections fd).trans present
      · simpa [Replication.asks] using missing
      · intro ledger
        show Ledger.audit _ ((fd, waitDeadline now timeoutMs) :: ledger) (_ ++ _) = _
        refine Ledger.audit_silent (fun action member => ?_) _
        rcases List.mem_append.mp member with asked | propagated
        · obtain ⟨replica, -, rfl⟩ := List.mem_map.mp asked
          exact .inl ⟨_, rfl⟩
        · exact .inr (mem_dispatchPropagate propagated)

section Turns

variable {server after : ServerState} {now : Time} {fd : Fd} {actions : List Action}

theorem dispatchInput_waitStep {pool : ConnectionPool} {data : Bytes}
    {outcome : CommandContext.CallOutcome}
    (read : server.pool.readFrom fd incoming = .ok (pool, some data))
    (called : ({ server with pool := pool } : ServerState).context.processWithFd fd true data =
      .ok outcome) (alone : server.mustWait fd incoming = true → ∀ old,
      server.replicaMgr.waitState = some old → server.pool.contains old.clientFd = false)
    (done : ({ server with pool := pool } : ServerState).dispatchInput now fd data =
      .ok (after, actions)) : WaitStep server after actions := by
  rw [dispatchInput, called] at done
  cases done
  obtain ⟨later, attached, same⟩ := (CommandContext.SameConnections.processWithFd called).pool rfl
  refine dispatchState_waitStep (readFrom_some read) ?_ ?_ rfl
  · intro asking
    refine alone ?_
    simp only [mustWait, read, called]
    exact asking
  · intro other
    simp only [withContext, attached, Option.getD_some, contains_perform,
      contains_consume, contains_sendAll]
    exact (same other).trans (contains_readFrom read other)

theorem contains_of_remove {pool : ConnectionPool} {other : Fd}
    (read : server.pool.readFrom fd incoming = .ok (pool, data))
    (connected : (pool.remove fd).contains other = true) : server.pool.contains other = true := by
  rw [contains_remove, Bool.and_eq_true] at connected
  rw [← contains_readFrom read]
  exact connected.2

theorem processAll_connections {last : CommandContext} (done : processAll commands ctx = .ok last) :
    ctx.SameConnections last :=
  processAll_relates CommandContext.SameConnections.refl CommandContext.SameConnections.trans
    CommandContext.SameConnections.processWithFd done

theorem settleTimeouts_waitStep (server : ServerState) (now : Time)
    (status : AofManager.ChildStatus) :
    WaitStep server (server.settleTimeouts now status).1 (server.settleTimeouts now status).2 := by
  have connections : ∀ other, (server.settleTimeouts now status).1.pool.contains other =
      server.pool.contains other := by
    intro other
    simp only [settleTimeouts, contains_flushAll, contains_perform,
      contains_sendAll]
  have actions : (server.settleTimeouts now status).2 =
      (server.replicaMgr.checkWaitTimeout now).2.toList.map fun wait =>
        .waitReply wait.clientFd wait.count := rfl
  have manager : (server.settleTimeouts now status).1.replicaMgr =
      (server.replicaMgr.checkWaitTimeout now).1 := rfl
  rcases checkWaitTimeout_cases server.replicaMgr now with
    ⟨quiet, -⟩ | ⟨wait, waiting, settled⟩
  · refine .quiet (by rw [manager, quiet]) (fun wait _ connected => ?_) (fun ledger => ?_)
    · exact (connections _).symm.trans connected
    · rw [actions, quiet]
      rfl
  · refine .answered waiting (by rw [manager, settled]) (connections _)
      ⟨server.replicaMgr.countAckedFor wait.targetOffset, ?_⟩
    rw [actions, settled]
    rfl

theorem turn_waitStep {turn : Turn} (alone : server.WaitsAlone turn)
    (done : server.turn turn = .ok (after, actions)) : WaitStep server after actions := by
  cases turn_cases done with
  | timeouts now status => exact settleTimeouts_waitStep server now status
  | masterGone | idle => exact .quiet rfl (fun _ _ connected => connected) (fun _ => rfl)
  | master _ processed =>
    obtain ⟨later, attached, same⟩ := (processAll_connections processed).pool rfl
    refine .quiet rfl (fun wait _ connected => ?_) (fun _ => rfl)
    simp only [withContext, attached, Option.getD_some] at connected
    exact (same _).symm.trans connected
  | replicaGone _ _ read | clientGone _ read =>
    exact .quiet rfl (fun _ _ connected => contains_of_remove read connected) (fun _ => rfl)
  | @replica now fd ready pool data manager result _ _ read acked sent =>
    have connections : ∀ other, (perform (pool.consume fd result.consumed) actions).contains
        other = server.pool.contains other := by
      intro other
      rw [contains_perform, contains_consume, contains_readFrom read]
    have either := processAck_cases server.replicaMgr fd data
    rw [acked] at either
    rcases either with ⟨record, nothing⟩ | ⟨wait, waiting, settled, reply⟩
    · refine .quiet record (fun wait _ connected => (connections _).symm.trans connected) ?_
      intro ledger
      rw [sent, nothing]
      rfl
    · refine .answered waiting settled (connections _)
        ⟨manager.countAckedFor wait.targetOffset, ?_⟩
      rw [sent, reply]
      rfl
  | @accepted now ready accepted new =>
    refine .quiet rfl (fun wait waiting connected => ?_) (fun _ => rfl)
    have present : (server.pool.add accepted).contains wait.clientFd = true := connected
    have different : wait.clientFd ≠ accepted := by
      rintro rfl
      exact (alone wait waiting).1 new
    rw [contains_add] at present
    simpa [different] using present
  | client _ read called done =>
    exact dispatchInput_waitStep read called
      (fun asking old waiting => (alone old waiting).2 asking) done

end Turns

theorem settleTimeouts_due {status : AofManager.ChildStatus} {wait : WaitState}
    (waiting : (server.settleTimeouts now status).1.replicaMgr.waitState = some wait) :
    now < wait.deadline := by
  have manager : (server.settleTimeouts now status).1.replicaMgr =
      (server.replicaMgr.checkWaitTimeout now).1 := rfl
  rw [manager] at waiting
  rcases checkWaitTimeout_cases server.replicaMgr now with ⟨quiet, due⟩ | ⟨_, -, settled⟩
  · rw [quiet] at waiting
    exact due wait waiting
  · rw [settled] at waiting
    cases waiting

theorem auditedTurn_ok {state next : Audited} {turn : Turn}
    (done : auditedTurn state turn = .ok (next, actions)) :
    state.server.turn turn = .ok (next.server, actions) ∧
      next.ledger = state.ledger.bind fun ledger =>
        ledger.audit next.server.pool.contains actions := by
  unfold auditedTurn at done
  split at done
  · cases done
  · rename_i after seen taken
    cases done
    exact ⟨taken, rfl⟩

/-- The ledger never breaks off: no integer goes to a connection that does not
wait. Behind a check of the timeouts no wait is overdue, so every wait of an open
connection is answered, and once. -/
theorem waits_are_answered_once {server : ServerState} {turns : List Turn} {last : Audited}
    {outputs : List (List Action)} (idle : server.replicaMgr.waitState = none)
    (alone : Run.Along auditedTurn (fun state turn => state.server.WaitsAlone turn)
      ⟨server, some []⟩ turns)
    (done : Run.run auditedTurn ⟨server, some []⟩ turns = .ok (last, outputs)) :
    ∃ ledger, last.ledger = some ledger ∧
      ∀ now status, turns.getLast? = some (.timeouts now status) →
        ∀ entry ∈ ledger, now < entry.2 := by
  have kept : ∃ ledger, last.ledger = some ledger ∧ last.server.Recorded ledger := by
    refine Run.run_invariant
      (fun state => ∃ ledger, state.ledger = some ledger ∧ state.server.Recorded ledger)
      ?_ ⟨[], rfl, ?_⟩ alone done
    · rintro state turn next actions ⟨ledger, connected, recorded⟩ meets taken
      obtain ⟨turned, audited⟩ := auditedTurn_ok taken
      obtain ⟨later, settled, holds⟩ := recorded.next (turn_waitStep meets turned)
      exact ⟨later, by rw [audited, connected]; exact settled, holds⟩
    · simp [Recorded, idle]
  obtain ⟨ledger, connected, recorded⟩ := kept
  refine ⟨ledger, connected, fun now status final entry member => ?_⟩
  rcases List.eq_nil_or_concat' turns with rfl | ⟨earlier, turn, rfl⟩
  · cases final
  rw [List.getLast?_concat] at final
  cases final
  obtain ⟨middle, early, late, -, ended, -⟩ := Run.run_append done
  obtain ⟨next, actions, _, taken, rest, -⟩ := Run.run_cons ended
  cases rest
  obtain ⟨turned, -⟩ := auditedTurn_ok taken
  have checked : last.server = (middle.server.settleTimeouts now status).1 := by
    have same : middle.server.settleTimeouts now status = (last.server, actions) :=
      Except.ok.inj turned
    rw [same]
  unfold Recorded at recorded
  cases waiting : last.server.replicaMgr.waitState with
  | none =>
    rw [waiting] at recorded
    rw [recorded] at member
    cases member
  | some wait =>
    rw [waiting] at recorded
    dsimp only at recorded
    rw [recorded] at member
    split at member
    · rw [List.mem_singleton.mp member]
      rw [checked] at waiting
      exact settleTimeouts_due waiting
    · cases member

def waitedWrite : List Turn :=
  [.accept 3 7, .accept 3 5, .accept 3 6, .input 7 [["PSYNC", "?", "-1"]],
    .input 5 [["SET", "k", "1"]], .input 5 [["WAIT", "1", "10"]]]

theorem wait_is_answered_in_time :
    ∃ result, Run.run auditedTurn ⟨plain, some []⟩
        (waitedWrite ++ [.timeouts 20000000 .running]) = .ok result ∧
      ∃ ledger, result.1.ledger = some ledger ∧
        ∀ entry ∈ ledger, (20000000 : Time) < entry.2 := by
  refine Run.of_checked (fun _ => True) (by decide +kernel) fun result done _ => ?_
  obtain ⟨ledger, kept, due⟩ := waits_are_answered_once rfl (by decide +kernel) done
  exact ⟨ledger, kept, due _ _ rfl⟩

/-- Two clients wait: the second wait takes the place of the first, which stays
without an answer. And a wait outlives its connection: the answer goes to the next
connection with its descriptor. -/
theorem waits_are_dropped_and_misdirected :
    (∃ result, Run.run auditedTurn ⟨plain, some []⟩
        (waitedWrite ++ [.input 6 [["WAIT", "1", "10"]], .timeouts 20000000 .running]) =
        .ok result ∧
      result.1.ledger = some [(5, 10000000)] ∧ result.1.server.pool.contains 5 = true ∧
      result.1.server.replicaMgr.waitState = none) ∧
    ∃ result, Run.run auditedTurn ⟨plain, some []⟩
        (waitedWrite ++ [.ready 0 5 ⟨[], none⟩, .accept 3 5, .timeouts 20000000 .running]) =
        .ok result ∧
      result.1.ledger = none ∧ result.2.getLast? = some [.waitReply 5 0] :=
  ⟨Run.Succeeds.ok (by decide +kernel), Run.Succeeds.ok (by decide +kernel)⟩

end ServerState

end Credis
