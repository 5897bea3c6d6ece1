import Credis.DisconnectChecks

/-! The integers that `WAIT` is answered with: at once, from `process_ack` and from
`check_wait_timeout`. -/

namespace Credis

open ByteString Replication

def Action.offset? : Action → Option Int
  | .wait _ offset _ => some offset
  | _ => none

namespace ServerState

/-- How many connections belong to a replica that has acknowledged this offset. -/
def acknowledged (server : ServerState) (target : Int) : Nat :=
  server.pool.connections.keys.countP fun fd =>
    server.replicaMgr.replicas.any fun replica =>
      replica.fd == fd && decide (target ≤ replica.offset)

/-- What the wait answered by these actions is measured against: it came in the same turn
or has been outstanding. -/
def waitOffset (server : ServerState) (actions : List Action) : Option Int :=
  (actions.findSome? Action.offset?).or (server.replicaMgr.waitState.map WaitState.targetOffset)

def CountsAcked (server after : ServerState) (actions : List Action) : Prop :=
  ∀ reply ∈ repliesOf actions,
    ∃ offset ∈ server.waitOffset actions, reply.2 = after.acknowledged offset

instance (server after : ServerState) (actions : List Action) :
    Decidable (server.CountsAcked after actions) := by
  unfold CountsAcked
  infer_instance

def answersAtOnce (server : ServerState) (fd : Fd) (incoming : Bytes) : Bool :=
  match server.pool.readFrom fd incoming with
  | .ok (pool, some data) =>
    match ({ server with pool := pool } : ServerState).context.processWithFd fd true data with
    | .ok outcome =>
      match outcome.state with
      | .wait numreplicas timeoutMs =>
        !Replication.asks server.replicaMgr (.wait numreplicas timeoutMs)
      | _ => false
    | .error _ => false
  | _ => false

/-- A wait that is answered at once finds no replica behind. -/
def CaughtUp (server : ServerState) : Turn → Prop
  | .timeouts _ _ => True
  | .ready _ fd ready => server.IsClient fd → server.answersAtOnce fd ready.incoming = true →
      ∀ replica ∈ server.replicaMgr.replicas, server.replicaMgr.masterOffset ≤ replica.offset

structure Registered (server : ServerState) : Prop where
  sound : server.Sound
  connected : ∀ fd ∈ server.replicaMgr.fds, server.pool.contains fd = true

theorem Registered.acknowledged_eq {server : ServerState} (registered : server.Registered)
    (target : Int) :
    (server.acknowledged target : Int) = server.replicaMgr.countAckedFor target := by
  have same : (server.pool.connections.keys.filter fun fd => server.replicaMgr.replicas.any
      fun replica => replica.fd == fd && decide (target ≤ replica.offset)).Perm
      ((server.replicaMgr.replicas.filter fun replica => decide (target ≤ replica.offset)).map
        ReplicaState.fd) := by
    refine (List.perm_ext_iff_of_nodup (server.pool.connections.nodupKeys.filter _)
      (registered.sound.distinct.sublist (List.filter_sublist.map _))).mpr fun fd => ?_
    simp only [List.mem_filter, List.any_eq_true, Bool.and_eq_true, beq_iff_eq, decide_eq_true_eq,
      List.mem_map]
    constructor
    · rintro ⟨-, replica, known, own, acked⟩
      exact ⟨replica, ⟨known, acked⟩, own⟩
    · rintro ⟨replica, ⟨known, acked⟩, own⟩
      have stillOpen := registered.connected fd (own ▸ List.mem_map_of_mem known)
      exact ⟨AList.lookup_isSome.mp stillOpen, replica, known, own, acked⟩
  rw [acknowledged, ReplicaManager.countAckedFor, List.countP_eq_length_filter,
    List.countP_eq_length_filter, same.length_eq, List.length_map]

section Turns

variable {server after : ServerState} {turn : Turn} {actions : List Action}

theorem registered_turn (registered : server.Registered)
    (done : server.turn turn = .ok (after, actions)) : after.Registered := by
  refine ⟨sound_turn registered.sound done, fun fd replica => ?_⟩
  cases gone : server.disconnects turn with
  | none =>
    have stays := turn_stays gone done
    exact (stays.replicas fd replica).elim
      (fun before => stays.connections fd (registered.connected fd before)) id
  | some other =>
    obtain ⟨pool, -, turned⟩ := turn_of_disconnects gone
    have left := (Prod.mk.inj (Except.ok.inj (turned.symm.trans done))).1
    have manager : after.replicaMgr = server.replicaMgr.removeReplica other := by
      rw [← left]
      split <;> rfl
    rw [manager, (server.replicaMgr.removeReplica_fds other).mem_iff,
      registered.sound.distinct.mem_erase_iff] at replica
    obtain ⟨-, others⟩ := disconnects_others registered.sound gone done
    exact (others fd replica.1).1 (registered.connected fd replica.2)

theorem counts_pending {result : Option WaitResult} (registered : after.Registered)
    (either : result = none ∨ ∃ wait, server.replicaMgr.waitState = some wait ∧
      result = some ⟨wait.clientFd, after.replicaMgr.countAckedFor wait.targetOffset⟩) :
    server.CountsAcked after
      (result.toList.map fun wait => .waitReply wait.clientFd wait.count) := by
  intro reply member
  rcases either with rfl | ⟨wait, waiting, rfl⟩
  · cases member
  refine ⟨wait.targetOffset, ?_, ?_⟩
  · simp [waitOffset, waiting, Action.offset?]
  · rw [registered.acknowledged_eq]
    simp [repliesOf] at member
    rw [member]

theorem repliesOf_propagate (first : List Action) (commands : List Bytes)
    (manager : ReplicaManager) :
    repliesOf (first ++ (dispatchPropagate commands manager).2) =
      repliesOf first := by
  have silent : repliesOf (dispatchPropagate commands manager).2 = [] := by
    refine List.filterMap_eq_nil_iff.mpr fun action member => ?_
    obtain ⟨replica, raw, rfl⟩ := mem_dispatchPropagate member
    rfl
  rw [repliesOf, List.filterMap_append, ← repliesOf,
    ← repliesOf, silent, List.append_nil]

theorem counts_input_iff {now : Time} {fd : Fd} {incoming data : Bytes} {pool : ConnectionPool}
    {outcome : CommandContext.CallOutcome} (registered : after.Registered)
    (read : server.pool.readFrom fd incoming = .ok (pool, some data))
    (called : ({ server with pool := pool } : ServerState).context.processWithFd fd true data =
      .ok outcome)
    (done : ({ server with pool := pool } : ServerState).dispatchInput now fd data =
      .ok (after, actions)) :
    server.CountsAcked after actions ↔ (server.answersAtOnce fd incoming = true →
      ∀ replica ∈ server.replicaMgr.replicas,
        server.replicaMgr.masterOffset ≤ replica.offset) := by
  obtain ⟨manager, sent⟩ : after.replicaMgr = (dispatchPropagate outcome.propagateCmds
        (dispatchState server.replicaMgr now fd outcome.state).1).1 ∧
      actions = (dispatchState server.replicaMgr now fd outcome.state).2 ++
        (dispatchPropagate outcome.propagateCmds
          (dispatchState server.replicaMgr now fd outcome.state).1).2 := by
    rw [dispatchInput, called] at done
    cases done
    exact ⟨rfl, rfl⟩
  simp only [answersAtOnce, read, called, CountsAcked]
  cases state : outcome.state with
  | normal | block | replicaHandshake =>
    refine iff_of_true (fun reply member => ?_) (by simp)
    rw [sent, state, repliesOf_propagate] at member
    cases member
  | wait numreplicas timeoutMs =>
    rw [state] at manager sent
    by_cases enough : server.replicaMgr.masterOffset = 0 ∨
        numreplicas ≤ server.replicaMgr.countAckedFor server.replicaMgr.masterOffset
    · simp only [dispatchState, if_pos enough] at manager sent
      have counted : (after.acknowledged server.replicaMgr.masterOffset : Int) =
          server.replicaMgr.countAckedFor server.replicaMgr.masterOffset := by
        rw [registered.acknowledged_eq, manager, dispatchPropagate_manager]
        rfl
      have every : server.replicaMgr.count = after.acknowledged server.replicaMgr.masterOffset ↔
          ∀ replica ∈ server.replicaMgr.replicas,
            server.replicaMgr.masterOffset ≤ replica.offset := by
        rw [← Int.natCast_inj, counted, ReplicaManager.countAckedFor, Int.natCast_inj, eq_comm,
          ReplicaManager.count, List.countP_eq_length]
        simp only [decide_eq_true_eq]
      simp only [Replication.asks, enough, not_true, decide_false, Bool.not_false, forall_const]
      rw [← every, sent, repliesOf_propagate]
      simp [repliesOf, waitOffset, List.findSome?_cons, Action.offset?]
    · simp only [dispatchState, if_neg enough] at sent
      refine iff_of_true (fun reply member => ?_) (by simp [Replication.asks, enough])
      rw [sent, repliesOf_propagate] at member
      simp [repliesOf] at member

theorem counts_turn_iff (registered : server.Registered)
    (done : server.turn turn = .ok (after, actions)) :
    server.CountsAcked after actions ↔ server.CaughtUp turn := by
  have later := registered_turn registered done
  have silent : server.CountsAcked after [] := fun _ member => by cases member
  cases turn_cases done with
  | timeouts now status =>
    refine iff_of_true (counts_pending later ?_) trivial
    rcases checkWaitTimeout_cases server.replicaMgr now with ⟨quiet, -⟩ | ⟨wait, waiting, settled⟩
    · exact .inl (congrArg Prod.snd quiet)
    · refine .inr ⟨wait, waiting, (congrArg Prod.snd settled).trans ?_⟩
      rw [settleTimeouts, settled]
      rfl
  | masterGone connected | master connected =>
    refine iff_of_true silent ?_
    rintro ⟨other, -⟩
    exact absurd rfl (other _ connected)
  | replicaGone _ known =>
    refine iff_of_true silent ?_
    rintro ⟨-, unknown, -⟩
    cases known.symm.trans unknown
  | accepted | idle =>
    refine iff_of_true silent ?_
    rintro ⟨-, -, other⟩
    exact absurd rfl other
  | clientGone client read =>
    refine iff_of_true silent fun _ => ?_
    simp [answersAtOnce, read]
  | @replica now fd ready pool data manager result _ known read acked sent =>
    subst sent
    refine iff_of_true (counts_pending later ?_) ?_
    · have either := processAck_cases server.replicaMgr fd data
      rw [acked] at either
      rcases either with ⟨-, silent⟩ | ⟨wait, waiting, -, reply⟩
      · exact .inl silent
      · exact .inr ⟨wait, waiting, reply⟩
    · rintro ⟨-, unknown, -⟩
      cases known.symm.trans unknown
  | client client read called done =>
    have caught := counts_input_iff later read called done
    exact ⟨fun counts _ => caught.mp counts, fun up => caught.mpr (up client)⟩

end Turns

/-- In every reachable state the integers of a turn count the connected replicas that have
acknowledged what the wait is about, exactly if a wait that is answered at once finds no
replica behind. -/
theorem wait_counts_acked_iff {start server after : ServerState} {turns : List Turn}
    {outputs : List (List Action)} {input : Turn} {actions : List Action} (fresh : start.Fresh)
    (ran : Run.run turn start turns = .ok (server, outputs))
    (done : server.turn input = .ok (after, actions)) :
    server.CountsAcked after actions ↔ server.CaughtUp input := by
  have registered : start.Registered :=
    ⟨fresh.sound, fun fd replica => absurd (.inr (.inl replica)) (fresh.mentions fd)⟩
  have always : Run.Along turn (fun _ _ => True) start turns :=
    Run.along_of_forall (fun _ _ => trivial) start
  have reached := Run.run_invariant Registered (fun _ _ _ _ holds _ => registered_turn holds)
    registered always ran
  exact counts_turn_iff reached done

/-- Two replicas are sent a write, and the first acknowledges more than that. -/
def twoReplicas : List Turn :=
  [.accept 3 5, .accept 3 7, .accept 3 8, .input 7 [["PSYNC", "?", "-1"]],
    .input 8 [["PSYNC", "?", "-1"]], .input 5 [["SET", "k", "1"]],
    .input 7 [["REPLCONF", "ACK", "100"]]]

theorem acked_write_counts_two :
    ∃ result, Run.run turn plain (twoReplicas ++ [.input 8 [["REPLCONF", "ACK", "100"]]]) =
        .ok result ∧
      ∃ next, result.1.turn (.input 5 [["WAIT", "2", "0"]]) = .ok next ∧
        repliesOf next.2 = [(5, 2)] ∧ result.1.CountsAcked next.1 next.2 := by
  refine Run.of_checked (fun result => Run.Succeeds _ fun next => repliesOf next.2 = [(5, 2)] ∧
    ∀ replica ∈ result.1.replicaMgr.replicas, result.1.replicaMgr.masterOffset ≤ replica.offset) ?_
    fun result ran taken => Run.of_checked _ taken fun next done ⟨replies, caught⟩ =>
      ⟨replies, (wait_counts_acked_iff ⟨rfl, rfl, rfl⟩ ran done).mpr fun _ _ => caught⟩
  decide +kernel

/-- One of two replicas has acknowledged, and `WAIT 1` is answered with two. -/
theorem unacked_replica_is_counted :
    Run.Succeeds (Run.run turn plain twoReplicas) (fun result =>
      Run.Succeeds (result.1.turn (.input 5 [["WAIT", "1", "0"]])) fun next =>
        repliesOf next.2 = [(5, 2)] ∧ ¬ result.1.CountsAcked next.1 next.2 ∧
          next.1.acknowledged result.1.replicaMgr.masterOffset = 1) := by
  decide +kernel

end ServerState

end Credis
