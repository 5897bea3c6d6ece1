import Credis.IndexChecks
import Credis.ReferenceChecks

/-! The end of a connection. `dispatch_event` clears less for a replica than for a
client, takes one entry of a blocked client out, and never clears its `WAIT`. What is
cleared and what was never there decides whether the server forgets the descriptor. -/

namespace Credis

open ByteString ConnectionPool ReplicaManager

variable {server after : ServerState} {client : BlockedClient} {now : Time} {actions : List Action}
  {fd : Fd}

namespace BlockingManager

variable {manager : BlockingManager} {fd : Fd}

instance (manager : BlockingManager) (fd : Fd) : Decidable (manager.Mentions fd) :=
  decidable_of_iff ((∃ client ∈ manager.entries, client.fd = fd) ∨ fd ∈ manager.fdToClient) (by
    unfold Mentions Waiting
    simp only [mem_entries]
    refine or_congr_left ⟨?_, ?_⟩
    · rintro ⟨client, ⟨key, member⟩, own⟩
      exact ⟨key, client, member, own⟩
    · rintro ⟨key, client, member, own⟩
      exact ⟨client, ⟨key, member⟩, own⟩)

def ownEntries (manager : BlockingManager) (fd : Fd) (key : Key) : List BlockedClient :=
  (manager.queue key).filter fun client => client.fd == fd

def SingleEntry (manager : BlockingManager) (fd : Fd) : Prop :=
  ∀ key ∈ manager.blockedClients.keys, manager.ownEntries fd key = [] ∨
    ∃ client ∈ manager.fdToClient.lookup fd, client.key = key ∧
      manager.ownEntries fd key = [client]

instance (manager : BlockingManager) (fd : Fd) : Decidable (manager.SingleEntry fd) := by
  unfold SingleEntry
  infer_instance

theorem not_waiting_iff : ¬ manager.Waiting fd ↔ ∀ key, manager.ownEntries fd key = [] := by
  simp only [Waiting, ownEntries, List.filter_eq_nil_iff, beq_iff_eq, not_exists, not_and]

theorem ownEntries_absent {key : Key} (absent : key ∉ manager.blockedClients.keys) :
    manager.ownEntries fd key = [] := by
  rw [ownEntries, queue,
    AList.lookup_eq_none.mpr fun present => absent (AList.mem_keys.mpr present)]
  rfl

theorem filter_erase_eq_nil_iff {clients : List BlockedClient} {keeps : BlockedClient → Bool} :
    (clients.erase client).filter keeps = [] ↔
      clients.filter keeps = [] ∨ clients.filter keeps = [client] := by
  by_cases member : client ∈ clients
  · have parts := (List.perm_cons_erase member).filter keeps
    cases kept : keeps client with
    | true =>
      rw [List.filter_cons_of_pos kept] at parts
      constructor
      · intro absent
        rw [absent] at parts
        exact .inr (List.perm_singleton.mp parts)
      · rintro (absent | single)
        · rw [absent] at parts
          cases parts.symm.eq_nil
        · rw [single] at parts
          exact List.perm_nil.mp (List.perm_cons client |>.mp parts).symm
    | false =>
      rw [List.filter_cons_of_neg (by simp [kept])] at parts
      constructor
      · intro absent
        rw [absent] at parts
        exact .inl parts.eq_nil
      · rintro (absent | single)
        · rw [absent] at parts
          exact parts.symm.eq_nil
        · have inside : client ∈ clients.filter keeps := by simp [single]
          rw [(List.mem_filter.mp inside).2] at kept
          cases kept
  · rw [List.erase_of_not_mem member]
    refine ⟨.inl, fun either => either.resolve_right fun single => member ?_⟩
    exact List.mem_of_mem_filter (by rw [single]; simp : client ∈ clients.filter keeps)

theorem ownEntries_unblockClient (known : manager.fdToClient.lookup fd = some client) (key : Key) :
    (manager.unblockClient fd).ownEntries fd key =
      if key = client.key then
        ((manager.queue key).erase client).filter fun other => other.fd == fd
      else manager.ownEntries fd key := by
  unfold unblockClient
  rw [known]
  dsimp only
  by_cases queued : client.key ∈ manager.blockedClients
  · rw [if_pos queued, ownEntries, queue_setQueue]
    split
    · rename_i same
      rw [same]
    · rfl
  · rw [if_neg queued]
    split
    · rename_i same
      have vacant : manager.queue client.key = [] := by
        rw [queue, AList.lookup_eq_none.mpr queued]
        rfl
      rw [same, vacant, ownEntries, queue, AList.lookup_eq_none.mpr queued]
      rfl
    · rfl

theorem unblockClient_mentions_iff :
    ¬ (manager.unblockClient fd).Mentions fd ↔ manager.SingleEntry fd := by
  have gone : fd ∉ (manager.unblockClient fd).fdToClient := by
    unfold unblockClient
    split
    · rename_i absent
      exact AList.lookup_eq_none.mp absent
    · simp
  rw [Mentions, not_or, and_iff_left gone, not_waiting_iff]
  have keys : manager.SingleEntry fd ↔ ∀ key, manager.ownEntries fd key = [] ∨
      ∃ client ∈ manager.fdToClient.lookup fd, client.key = key ∧
        manager.ownEntries fd key = [client] := by
    refine ⟨fun single key => ?_, fun single key _ => single key⟩
    by_cases present : key ∈ manager.blockedClients.keys
    · exact single key present
    · exact .inl (ownEntries_absent present)
  rw [keys]
  refine forall_congr' fun key => ?_
  cases known : manager.fdToClient.lookup fd with
  | none =>
    have same : manager.unblockClient fd = manager := by
      rw [unblockClient, known]
    rw [same]
    simp
  | some client =>
    rw [ownEntries_unblockClient known]
    split
    · rename_i same
      rw [filter_erase_eq_nil_iff]
      simp [same, ownEntries]
    · rename_i different
      simp [Ne.symm different]

end BlockingManager

namespace ServerState

def Mentions (server : ServerState) (fd : Fd) : Prop :=
  server.handler.Mentions fd ∨ server.replicaMgr.Mentions fd

structure Forgot (server : ServerState) (fd : Fd) : Prop where
  entry : ∀ manager ∈ server.handler.blockingManager, ¬ manager.Mentions fd
  subscription : ∀ manager ∈ server.handler.pubsubManager, manager.isSubscribed fd = false ∧
    ∀ channel, fd ∉ manager.getSubscribers channel
  replica : server.replicaMgr.contains fd = false
  wait : ∀ wait ∈ server.replicaMgr.waitState, wait.clientFd ≠ fd
  connection : server.pool.find fd = none
  transaction : server.context.tx fd = none

def disconnects (server : ServerState) : Turn → Option Fd
  | .timeouts _ _ => none
  | .ready _ fd ready =>
    if (server.replicaConn.any fun connector => fd == connector.fd) = true ∨
        (server.replicaMgr.contains fd = false ∧ fd = server.listenerFd) then none
    else
      match server.pool.readFrom fd ready.incoming with
      | .ok (_, none) => some fd
      | _ => none

/-- What the connection must not have left: a `WAIT` in any case, waits and subscriptions
if it is a replica, and another blocked entry than the indexed one if it is not. -/
def Settled (server : ServerState) (fd : Fd) : Prop :=
  (∀ wait ∈ server.replicaMgr.waitState, wait.clientFd ≠ fd) ∧
    if server.replicaMgr.contains fd = true then
      (∀ manager ∈ server.handler.blockingManager, ¬ manager.Mentions fd) ∧
        ∀ manager ∈ server.handler.pubsubManager, manager.isSubscribed fd = false
    else ∀ manager ∈ server.handler.blockingManager, manager.SingleEntry fd

instance (server : ServerState) (fd : Fd) : Decidable (server.Settled fd) := by
  unfold Settled
  infer_instance

structure Sound (server : ServerState) : Prop where
  tuned : server.handler.Tuned
  distinct : server.replicaMgr.fds.Nodup

section Step

variable {server after : ServerState} {turn : Turn} {fd : Fd} {actions : List Action}

theorem turn_of_disconnects (gone : server.disconnects turn = some fd) :
    ∃ pool : ConnectionPool, (∀ other, pool.contains other = server.pool.contains other) ∧
      server.turn turn = .ok (if server.replicaMgr.contains fd = true then
          { server with replicaMgr := server.replicaMgr.removeReplica fd, pool := pool.remove fd }
        else { server with pool := pool }.dropClient fd, []) := by
  cases turn with
  | timeouts now status => cases gone
  | ready now other ready =>
    unfold disconnects at gone
    dsimp only at gone
    split at gone
    · cases gone
    rename_i ours
    simp only [not_or, not_and] at ours
    obtain ⟨client, listener⟩ := ours
    split at gone
    · rename_i pool read
      cases gone
      refine ⟨pool, fun other => contains_readFrom read other, ?_⟩
      have routed : server.dispatchEvent now fd ready = server.dispatchOther now fd ready := by
        unfold dispatchEvent
        cases present : server.replicaConn with
        | none => rfl
        | some connector =>
          rw [present] at client
          exact if_neg (by simpa using client)
      refine routed.trans ?_
      unfold dispatchOther
      cases known : server.replicaMgr.contains fd with
      | true => rw [if_pos rfl, if_pos rfl, dispatchReplica, read]
      | false =>
        rw [if_neg Bool.false_ne_true, if_neg (listener known), dispatchClient, read,
          if_neg Bool.false_ne_true]
    · cases gone

theorem contains_removeReplica (distinct : server.replicaMgr.fds.Nodup) :
    (server.replicaMgr.removeReplica fd).contains fd = false := by
  rw [Bool.eq_false_iff, ne_eq, contains_iff,
    (server.replicaMgr.removeReplica_fds fd).mem_iff]
  exact distinct.not_mem_erase

theorem silent_iff {manager : PubSubManager} (represented : manager.Represented) :
    (manager.isSubscribed fd = false ∧ ∀ channel, fd ∉ manager.getSubscribers channel) ↔
      manager.isSubscribed fd = false :=
  and_iff_left_of_imp fun free channel => represented.not_subscriber fd channel free

theorem forgot_iff (sound : server.Sound) (gone : server.disconnects turn = some fd)
    (done : server.turn turn = .ok (after, actions)) : after.Forgot fd ↔ server.Settled fd := by
  obtain ⟨pool, -, turned⟩ := turn_of_disconnects gone
  have left := (Prod.mk.inj (Except.ok.inj (turned.symm.trans done))).1.symm
  have closed : (pool.remove fd).find fd = none := AList.lookup_erase _ _
  have removed := @contains_removeReplica server fd sound.distinct
  by_cases known : server.replicaMgr.contains fd = true
  · rw [if_pos known] at left
    subst left
    rw [Settled, if_pos known]
    constructor
    · intro forgot
      exact ⟨forgot.wait, forgot.entry, fun manager present =>
        (forgot.subscription manager present).1⟩
    · rintro ⟨wait, entry, subscription⟩
      refine ⟨entry, fun manager present => ?_, removed, wait, closed, ?_⟩
      · exact (silent_iff (sound.tuned manager present)).mpr (subscription manager present)
      · exact congrArg (fun found => Option.bind found Connection.tx) closed
  · rw [if_neg known] at left
    subst left
    rw [Settled, if_neg known]
    constructor
    · intro forgot
      refine ⟨forgot.wait, fun manager present => ?_⟩
      exact BlockingManager.unblockClient_mentions_iff.mp
        (forgot.entry _ (Option.mem_map_of_mem _ present))
    · rintro ⟨wait, entry⟩
      refine ⟨fun manager present => ?_, fun manager present => ?_, removed, wait, closed, ?_⟩
      · obtain ⟨before, held, rfl⟩ := Option.mem_map.mp present
        exact BlockingManager.unblockClient_mentions_iff.mpr (entry before held)
      · obtain ⟨before, held, rfl⟩ := Option.mem_map.mp present
        refine (silent_iff ((sound.tuned before held).unsubscribeAll fd)).mpr ?_
        exact PubSubManager.isSubscribed_unsubscribeAll before fd
      · exact congrArg (fun found => Option.bind found Connection.tx) closed

/-- What the other turns do: connections stay, and whoever the server comes to refer to
is connected. -/
structure Stays (server after : ServerState) : Prop where
  connections : ∀ fd, server.pool.contains fd = true → after.pool.contains fd = true
  mentions : ∀ fd, after.Mentions fd → server.Mentions fd ∨ after.pool.contains fd = true
  replicas : ∀ fd ∈ after.replicaMgr.fds,
    fd ∈ server.replicaMgr.fds ∨ after.pool.contains fd = true
  sound : server.Sound → after.Sound

theorem settleTimeouts_stays (server : ServerState) (now : Time)
    (status : AofManager.ChildStatus) : server.Stays (server.settleTimeouts now status).1 := by
  have quieter := server.replicaMgr.checkWaitTimeout_quieter now
  refine ⟨fun fd connected => ?_, fun fd mentioned => .inl ?_, fun fd replica => .inl ?_,
    fun sound => ⟨sound.tuned, ?_⟩⟩
  · simpa only [settleTimeouts, contains_flushAll, contains_perform,
      contains_sendAll] using connected
  · rcases mentioned with (⟨manager, found, mentioned⟩ | listens) | replica
    · refine .inl (.inl ?_)
      obtain ⟨before, present, rfl⟩ := Option.map_eq_some_iff.mp found
      rw [present] at mentioned
      exact ⟨before, present, (before.getExpiredClients_fewer now).mentions mentioned⟩
    · exact .inl (.inr listens)
    · exact .inr (quieter.mentions replica)
  · rwa [← quieter.fds]
  · have distinct := sound.distinct
    rw [← quieter.fds] at distinct
    exact distinct

theorem processAll_stays {commands : List Bytes} {ctx : CommandContext}
    {next : Option ReplicaConnector} (processed : processAll commands server.context = .ok ctx) :
    server.Stays { server.withContext ctx with replicaConn := next } := by
  have attends := CommandContext.Attends.processAll processed
  obtain ⟨later, attached, same⟩ := attends.connections.pool rfl
  have pool : (server.withContext ctx).pool = later := by
    rw [withContext, attached, Option.getD_some]
  refine ⟨fun fd connected => ?_, fun fd mentioned => ?_, fun _ => .inl, fun sound =>
    ⟨attends.tuned sound.tuned, sound.distinct⟩⟩
  · exact (congrArg (ConnectionPool.contains · fd) pool).trans ((same fd).trans connected)
  · rcases mentioned with managers | replica
    · rcases attends.mentions fd managers with before | ⟨rfl, connected⟩
      · exact .inl (.inl before)
      · exact .inr ((congrArg (ConnectionPool.contains · _) pool).trans ((same _).trans connected))
    · exact .inl (.inr replica)

theorem dispatchState_cases (manager : ReplicaManager) (now : Time) (fd : Fd)
    (state : ProcessState) :
    (dispatchState manager now fd state).1 = manager ∨
      (dispatchState manager now fd state).1 = manager.addReplica fd ∨
      ∃ numreplicas timeoutMs, (dispatchState manager now fd state).1 =
        manager.startWait now fd numreplicas timeoutMs := by
  cases state with
  | normal | block => exact .inl rfl
  | replicaHandshake => exact .inr (.inl rfl)
  | wait numreplicas timeoutMs =>
    unfold dispatchState
    dsimp only
    split
    · exact .inl rfl
    · exact .inr (.inr ⟨numreplicas, timeoutMs, rfl⟩)

theorem dispatchState_mentions {manager : ReplicaManager} {state : ProcessState} {other : Fd}
    (mentioned : (dispatchState manager now fd state).1.Mentions other) :
    manager.Mentions other ∨ other = fd := by
  rcases dispatchState_cases manager now fd state with same | added | ⟨_, _, waits⟩
  · exact .inl (same ▸ mentioned)
  · rw [added] at mentioned
    rcases mentioned with replica | waiting
    · simp only [ReplicaManager.fds, addReplica, List.map_append, List.mem_append,
        List.map_cons, List.map_nil, List.mem_singleton] at replica
      exact replica.imp_left .inl
    · exact .inl (.inr waiting)
  · rw [waits] at mentioned
    rcases mentioned with replica | ⟨wait, ⟨⟩, own⟩
    · exact .inl (.inl replica)
    · exact .inr own.symm

theorem dispatchState_fds (manager : ReplicaManager) (now : Time) (fd : Fd)
    (state : ProcessState) : (dispatchState manager now fd state).1.fds = manager.fds ∨
      (dispatchState manager now fd state).1.fds = manager.fds ++ [fd] := by
  rcases dispatchState_cases manager now fd state with same | added | ⟨_, _, waits⟩
  · exact .inl (congrArg _ same)
  · refine .inr ((congrArg _ added).trans ?_)
    simp [ReplicaManager.fds, addReplica]
  · exact .inl (waits ▸ rfl)

theorem dispatchState_distinct {manager : ReplicaManager} {now : Time} {state : ProcessState}
    (absent : manager.contains fd = false) (distinct : manager.fds.Nodup) :
    (dispatchState manager now fd state).1.fds.Nodup := by
  rcases dispatchState_fds manager now fd state with same | added
  · rwa [same]
  have new : fd ∉ manager.fds := by
    rw [← contains_iff, absent]
    simp
  rw [added]
  exact (List.perm_append_singleton fd _).nodup_iff.mpr (List.nodup_cons.mpr ⟨new, distinct⟩)

theorem dispatchInput_stays {data : Bytes} (absent : server.replicaMgr.contains fd = false)
    (stillOpen : server.pool.contains fd = true)
    (done : server.dispatchInput now fd data = .ok (after, actions)) : server.Stays after := by
  unfold dispatchInput at done
  split at done
  · cases done
  rename_i outcome called
  cases done
  have attends := CommandContext.Attends.processWithFd called
  obtain ⟨later, attached, same⟩ := attends.connections.pool rfl
  have quieter := dispatchPropagate_quieter outcome.propagateCmds
    (dispatchState server.replicaMgr now fd outcome.state).1
  have connected : ∀ other messages actions,
      (perform ((sendAll (server.withContext outcome.ctx).pool messages).consume fd
        outcome.consumed) actions).contains other = server.pool.contains other := by
    intro other messages actions
    rw [contains_perform, contains_consume, contains_sendAll, withContext,
      attached]
    exact same other
  refine ⟨fun other present => (connected other _ _).trans present, fun other mentioned => ?_,
    fun other replica => ?_, fun sound => ⟨attends.tuned sound.tuned, ?_⟩⟩
  · rcases mentioned with managers | replica
    · rcases attends.mentions other managers with before | ⟨rfl, -⟩
      · exact .inl (.inl before)
      · exact .inr ((connected _ _ _).trans stillOpen)
    · rcases dispatchState_mentions (quieter.mentions replica) with before | rfl
      · exact .inl (.inr before)
      · exact .inr ((connected _ _ _).trans stillOpen)
  · have replica := quieter.fds ▸ replica
    rcases dispatchState_fds server.replicaMgr now fd outcome.state with fds | fds
    · exact .inl (fds ▸ replica)
    rw [fds, List.mem_append, List.mem_singleton] at replica
    rcases replica with before | rfl
    · exact .inl before
    · exact .inr ((connected _ _ _).trans stillOpen)
  · have distinct := @dispatchState_distinct fd _ now outcome.state absent sound.distinct
    rw [← quieter.fds] at distinct
    exact distinct

theorem turn_stays (quiet : server.disconnects turn = none)
    (done : server.turn turn = .ok (after, actions)) : server.Stays after := by
  have gone : ∀ {now fd ready pool},
      (∀ connector, server.replicaConn = some connector → fd ≠ connector.fd) →
      (server.replicaMgr.contains fd = false → fd ≠ server.listenerFd) →
      server.pool.readFrom fd ready.incoming = .ok (pool, none) →
      server.disconnects (.ready now fd ready) ≠ none := by
    intro now fd ready pool foreign listener read
    have other : ¬ (server.replicaConn.any fun connector => fd == connector.fd) = true := by
      rw [Option.any_eq_true]
      rintro ⟨connector, linked, same⟩
      exact foreign connector linked (eq_of_beq same)
    have kept : ¬ (server.replicaMgr.contains fd = false ∧ fd = server.listenerFd) :=
      fun both => listener both.1 both.2
    simp only [disconnects, other, kept, or_self, if_false, read, ne_eq, reduceCtorEq,
      not_false_eq_true]
  cases turn_cases done with
  | timeouts now status => exact settleTimeouts_stays server now status
  | masterGone | idle =>
    exact ⟨fun _ stillOpen => stillOpen, fun _ => .inl, fun _ => .inl,
      fun sound => ⟨sound.tuned, sound.distinct⟩⟩
  | master _ processed => exact processAll_stays processed
  | replicaGone foreign known read =>
    exact absurd quiet (gone foreign (fun unknown => by cases known.symm.trans unknown) read)
  | clientGone client read => exact absurd quiet (gone client.1 (fun _ => client.2.2) read)
  | @replica now fd ready pool data manager result _ _ read acked =>
    have quieter := server.replicaMgr.processAck_quieter fd data
    rw [acked] at quieter
    refine ⟨fun other present => ?_,
      fun other mentioned => .inl (mentioned.imp_right quieter.mentions),
      fun other replica => .inl (quieter.fds ▸ replica),
      fun sound => ⟨sound.tuned, quieter.fds ▸ sound.distinct⟩⟩
    rwa [contains_perform, contains_consume,
      contains_readFrom read]
  | accepted =>
    refine ⟨fun other present => ?_, fun _ => .inl, fun _ => .inl,
      fun sound => ⟨sound.tuned, sound.distinct⟩⟩
    rw [contains_add, present, Bool.or_true]
  | client client read called done =>
    have connected := contains_readFrom read
    obtain ⟨opened, mentions, replicas, sound⟩ := dispatchInput_stays
      (by exact client.2.1) ((connected _).trans (readFrom_some read)) done
    exact ⟨fun other present => opened other ((connected other).trans present),
      mentions, replicas, fun before => sound ⟨before.tuned, before.distinct⟩⟩

theorem disconnects_others (sound : server.Sound) (gone : server.disconnects turn = some fd)
    (done : server.turn turn = .ok (after, actions)) :
    after.Sound ∧ ∀ other, other ≠ fd →
      (server.pool.contains other = true → after.pool.contains other = true) ∧
        (after.Mentions other → server.Mentions other) := by
  obtain ⟨pool, stillOpen, turned⟩ := turn_of_disconnects gone
  have left := (Prod.mk.inj (Except.ok.inj (turned.symm.trans done))).1.symm
  have distinct : (server.replicaMgr.removeReplica fd).fds.Nodup :=
    (server.replicaMgr.removeReplica_fds fd).nodup_iff.mpr (sound.distinct.erase fd)
  have fewer : ∀ other, (server.replicaMgr.removeReplica fd).Mentions other →
      server.replicaMgr.Mentions other := fun other mentioned => mentioned.imp_left fun replica =>
    List.mem_of_mem_erase ((server.replicaMgr.removeReplica_fds fd).mem_iff.mp replica)
  have connected : ∀ other, other ≠ fd → server.pool.contains other = true →
      (pool.remove fd).contains other = true := by
    intro other different present
    rw [contains_remove, stillOpen, present, decide_eq_true different]
    rfl
  by_cases known : server.replicaMgr.contains fd = true
  · rw [if_pos known] at left
    subst left
    exact ⟨⟨sound.tuned, distinct⟩, fun other different => ⟨connected other different,
      fun mentioned => mentioned.imp_right (fewer other)⟩⟩
  · rw [if_neg known] at left
    subst left
    refine ⟨⟨?_, distinct⟩, fun other different => ⟨connected other different, ?_⟩⟩
    · intro manager present
      obtain ⟨before, held, rfl⟩ := Option.map_eq_some_iff.mp present
      exact (sound.tuned before held).unsubscribeAll fd
    · rintro ((⟨manager, present, mentioned⟩ | ⟨manager, present, listens⟩) | replica)
      · obtain ⟨before, held, rfl⟩ := Option.map_eq_some_iff.mp present
        exact .inl (.inl ⟨before, held, (before.unblockClient_fewer fd).mentions mentioned⟩)
      · obtain ⟨before, held, rfl⟩ := Option.map_eq_some_iff.mp present
        rw [PubSubManager.isSubscribed_unsubscribeAll_ne before different] at listens
        exact .inl (.inr ⟨before, held, listens⟩)
      · exact .inr (fewer other replica)

end Step

structure Fresh (server : ServerState) : Prop where
  blocking : server.handler.blockingManager = some .empty
  pubsub : server.handler.pubsubManager = some .empty
  replicas : server.replicaMgr = .empty

theorem Fresh.sound (fresh : server.Fresh) : server.Sound := by
  refine ⟨fun manager present => ?_, ?_⟩
  · cases fresh.pubsub.symm.trans present
    exact ⟨∅, .empty⟩
  · rw [fresh.replicas]
    exact List.nodup_nil

theorem Fresh.mentions (fresh : server.Fresh) (fd : Fd) : ¬ server.Mentions fd := by
  rintro ((⟨manager, present, mentioned⟩ | ⟨manager, present, listens⟩) | replica)
  · cases fresh.blocking.symm.trans present
    exact BlockingManager.empty_mentions fd mentioned
  · cases fresh.pubsub.symm.trans present
    cases listens
  · rw [fresh.replicas] at replica
    rcases replica with inside | ⟨wait, ⟨⟩, -⟩
    cases inside

theorem sound_turn {turn : Turn} (sound : server.Sound)
    (done : server.turn turn = .ok (after, actions)) : after.Sound := by
  cases gone : server.disconnects turn with
  | none => exact (turn_stays gone done).sound sound
  | some fd => exact (disconnects_others sound gone done).1

theorem Forgot.mentions (forgot : server.Forgot fd) : ¬ server.Mentions fd := by
  rintro ((⟨manager, present, mentioned⟩ | ⟨manager, present, listens⟩) |
    (replica | ⟨wait, waits, own⟩))
  · exact forgot.entry manager present mentioned
  · rw [(forgot.subscription manager present).1] at listens
    cases listens
  · rw [← contains_iff, forgot.replica] at replica
    cases replica
  · exact forgot.wait wait waits own

theorem Sound.forgot (sound : server.Sound) (unmentioned : ¬ server.Mentions fd)
    (closed : server.pool.contains fd = false) : server.Forgot fd := by
  have absent : server.pool.find fd = none := by
    simpa [ConnectionPool.contains] using closed
  refine ⟨fun manager present mentioned => ?_, fun manager present => ?_, ?_,
    fun wait waits own => ?_,
    absent, congrArg (fun found => Option.bind found Connection.tx) absent⟩
  · exact unmentioned (.inl (.inl ⟨manager, present, mentioned⟩))
  · refine (silent_iff (sound.tuned manager present)).mpr (Bool.eq_false_iff.mpr fun listens => ?_)
    exact unmentioned (.inl (.inr ⟨manager, present, listens⟩))
  · refine Bool.eq_false_iff.mpr fun replica => ?_
    exact unmentioned (.inr (.inl (contains_iff.mp replica)))
  · exact unmentioned (.inr (.inr ⟨wait, waits, own⟩))

def Connected (server : ServerState) : Prop :=
  server.Sound ∧ ∀ fd, server.Mentions fd → server.pool.contains fd = true

theorem connected_turn {turn : Turn} (connected : server.Connected)
    (settled : ∀ fd ∈ server.disconnects turn, server.Settled fd)
    (done : server.turn turn = .ok (after, actions)) : after.Connected := by
  obtain ⟨sound, stillOpen⟩ := connected
  refine ⟨sound_turn sound done, fun fd mentioned => ?_⟩
  cases gone : server.disconnects turn with
  | none =>
    have stays := turn_stays gone done
    rcases stays.mentions fd mentioned with before | present
    · exact stays.connections fd (stillOpen fd before)
    · exact present
  | some other =>
    by_cases own : fd = other
    · subst own
      have forgot := (forgot_iff sound gone done).mpr (settled fd gone)
      exact (forgot.mentions mentioned).elim
    · obtain ⟨-, others⟩ := disconnects_others sound gone done
      exact (others fd own).1 (stillOpen fd ((others fd own).2 mentioned))

/-- Every end of a connection in a run makes the server forget the descriptor exactly if
each of these connections has left nothing but what its branch clears. Then nothing ever
refers to a descriptor without connection, so the next connection with it starts afresh. -/
theorem disconnects_forget_iff {start last : ServerState} {turns : List Turn}
    {outputs : List (List Action)} (fresh : start.Fresh)
    (ran : Run.run turn start turns = .ok (last, outputs)) :
    (Run.Along turn (fun server input => ∀ fd ∈ server.disconnects input, ∀ after actions,
        server.turn input = .ok (after, actions) → after.Forgot fd) start turns ↔
      Run.Along turn (fun server input => ∀ fd ∈ server.disconnects input, server.Settled fd)
        start turns) ∧
    (Run.Along turn (fun server input => ∀ fd ∈ server.disconnects input, server.Settled fd)
        start turns →
      ∀ fd, last.pool.contains fd = false → last.Forgot fd) := by
  constructor
  · refine Run.along_congr Sound (fun _ _ _ _ => sound_turn) (fun server input sound => ?_)
      fresh.sound
    constructor
    · intro forgets fd gone
      obtain ⟨pool, -, done⟩ := turn_of_disconnects gone
      exact (forgot_iff sound gone done).mp (forgets fd gone _ _ done)
    · intro settled fd gone after actions done
      exact (forgot_iff sound gone done).mpr (settled fd gone)
  · intro settled fd closed
    have start : start.Connected :=
      ⟨fresh.sound, fun fd mentioned => (fresh.mentions fd mentioned).elim⟩
    obtain ⟨sound, connected⟩ := Run.run_invariant Connected
      (fun _ _ _ _ => connected_turn) start settled ran
    refine sound.forgot (fun mentioned => ?_) closed
    rw [connected fd mentioned] at closed
    cases closed

theorem clients_are_forgotten :
    ∃ result, Run.run turn plain [.accept 3 5, .accept 3 6, .input 5 [["BLPOP", "k", "0"]],
        .input 6 [["SUBSCRIBE", "c"]], .ready 0 5 ⟨[], none⟩, .ready 0 6 ⟨[], none⟩] =
          .ok result ∧ result.1.Forgot 5 ∧ result.1.Forgot 6 := by
  refine Run.of_checked (fun result => result.1.pool.contains 5 = false ∧
    result.1.pool.contains 6 = false) (by decide +kernel) fun result ran closed => ?_
  have forgets := (disconnects_forget_iff ⟨rfl, rfl, rfl⟩ ran).2 (by decide +kernel)
  exact ⟨forgets 5 closed.1, forgets 6 closed.2⟩

/-- A client blocks, becomes a replica and goes: its entry stays, and the next connection
with its descriptor is sent the element of a push. A client blocks on two keys and goes:
one entry stays. A client waits and goes: its wait stays. -/
theorem disconnect_leaves_references :
    Run.Succeeds (Run.run turn plain [.accept 3 5, .accept 3 6, .input 5 [["BLPOP", "k", "0"]],
        .input 5 [["PSYNC", "?", "-1"]], .ready 0 5 ⟨[], none⟩])
      (fun result => ∃ manager ∈ result.1.handler.blockingManager, manager.Mentions 5) ∧
    Run.Succeeds (Run.run turn plain [.accept 3 5, .accept 3 6, .input 5 [["BLPOP", "k", "0"]],
        .input 5 [["PSYNC", "?", "-1"]], .ready 0 5 ⟨[], none⟩, .accept 3 5,
        .input 6 [["RPUSH", "k", "v"]]])
      (fun result => (result.1.pool.find 5).map Connection.pendingWrite =
        some (encodeArray [ascii "k", ascii "v"])) ∧
    Run.Succeeds (Run.run turn plain [.accept 3 5, .input 5 [["BLPOP", "k1", "0"]],
        .input 5 [["BLPOP", "k2", "0"]], .ready 0 5 ⟨[], none⟩])
      (fun result => ∃ manager ∈ result.1.handler.blockingManager, manager.Mentions 5) ∧
    Run.Succeeds (Run.run turn plain (waitedWrite ++ [.ready 0 5 ⟨[], none⟩]))
      (fun result => result.1.replicaMgr.waitState.map WaitState.clientFd = some 5) := by
  decide +kernel

end ServerState

end Credis
