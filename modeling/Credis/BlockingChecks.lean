import Credis.BlockingCore

/-! The queues of the blocking manager behind each of its operations, and its index behind
the sweep of the timeouts. -/

namespace Credis

open ByteString

namespace BlockingManager

variable (manager : BlockingManager) (now : Time) (fd : Fd)

theorem queue_setQueue (key other : Key) (queue : List BlockedClient)
    (index : AList fun _ : Fd => BlockedClient) (next : Nat) :
    BlockingManager.queue ⟨setQueue manager.blockedClients key queue, index, next⟩ other =
      if other = key then queue else manager.queue other := by
  unfold setQueue BlockingManager.queue
  by_cases same : other = key
  · subst same
    by_cases empty : queue = []
    · simp [empty]
    · simp [empty]
  · by_cases empty : queue = []
    · simp [empty, same, AList.lookup_erase_ne same]
    · simp [empty, same, AList.lookup_insert_ne same]

/-- The manager once a client has left the queue of the key and the index. -/
def released (key : Key) (client : BlockedClient) : BlockingManager :=
  { manager with
    blockedClients := setQueue manager.blockedClients key ((manager.queue key).erase client)
    fdToClient := manager.fdToClient.erase client.fd }

theorem queue_released (key other : Key) (client : BlockedClient) :
    (manager.released key client).queue other =
      if other = key then (manager.queue key).erase client else manager.queue other :=
  queue_setQueue _ _ _ _ _ _

theorem queue_erase_sublist (key other : Key) (client : BlockedClient)
    (index : AList fun _ : Fd => BlockedClient) (next : Nat) :
    (BlockingManager.queue ⟨setQueue manager.blockedClients key ((manager.queue key).erase client),
      index, next⟩ other).Sublist (manager.queue other) := by
  rw [queue_setQueue]
  split
  · rename_i same
    rw [same]
    exact List.erase_sublist
  · exact List.Sublist.refl _

/-- What a wake-up of either kind does: it takes one client out of the queue of the key, or
finds nobody to take. -/
inductive WakesOne (key : Key) : BlockingManager × Option BlockedClient → Prop
  | nobody : WakesOne key (manager, none)
  | one {client : BlockedClient} (member : client ∈ manager.queue key) :
      WakesOne key (manager.released key client, some client)

theorem WakesOne.stays {manager : BlockingManager} {key : Key}
    {done : BlockingManager × Option BlockedClient} (wakes : manager.WakesOne key done)
    (nobody : done.2 = none) : done.1 = manager := by
  cases wakes with
  | nobody => rfl
  | one => cases nobody

theorem WakesOne.queue_ne {manager : BlockingManager} {key other : Key}
    {done : BlockingManager × Option BlockedClient} (wakes : manager.WakesOne key done)
    (different : other ≠ key) : done.1.queue other = manager.queue other := by
  cases wakes with
  | nobody => rfl
  | one => rw [queue_released, if_neg different]

theorem wakeClient_wakesOne (key : Key) : manager.WakesOne key (manager.wakeClient key) := by
  unfold wakeClient
  split
  · exact .nobody
  · rename_i client rest queued
    have woken := WakesOne.one (by simp [queued] : client ∈ manager.queue key)
    rwa [released, queued, List.erase_cons_head] at woken

theorem wakeClientForStream_wakesOne (key : Key) (newId : Bytes) :
    manager.WakesOne key (manager.wakeClientForStream key newId) := by
  unfold wakeClientForStream
  split
  · exact .nobody
  split
  · exact .nobody
  · rename_i client found
    exact .one (List.mem_of_find?_eq_some found)

theorem queue_blockClientForStream (key other : Key) (lastId : StreamId) (timeoutMs : Int)
    (different : other ≠ key) :
    (manager.blockClientForStream now fd key lastId timeoutMs).queue other =
      manager.queue other := by
  simp only [blockClientForStream, queue, AList.lookup_insert_ne different]

theorem mem_setQueue {clients : AList fun _ : Key => List BlockedClient} {key other : Key}
    {queue : List BlockedClient} :
    other ∈ setQueue clients key queue ↔ if other = key then queue ≠ [] else other ∈ clients := by
  unfold setQueue
  by_cases same : other = key
  · subst same
    by_cases empty : queue = [] <;> simp [empty, AList.mem_erase]
  · by_cases empty : queue = [] <;> simp [empty, same, AList.mem_erase]

/-- What the inner loop finds overdue leaves the queue and the index and is told, and the
other nodes stay in their order. -/
theorem expireLoop_spec (clients : List BlockedClient) (sweep : Sweep) :
    (expireLoop now clients sweep).queue =
      sweep.queue ++ clients.filter (fun client => !isOverdue now client) ∧
    (expireLoop now clients sweep).expired =
      sweep.expired ++ (clients.filter (isOverdue now)).map BlockedClient.fd ∧
    ∀ fd, (expireLoop now clients sweep).fdToClient.lookup fd =
      if fd ∈ (clients.filter (isOverdue now)).map BlockedClient.fd then none
      else sweep.fdToClient.lookup fd := by
  induction clients generalizing sweep with
  | nil => simp [expireLoop]
  | cons client rest ih =>
    unfold expireLoop
    cases overdue : isOverdue now client with
    | false =>
      obtain ⟨queue, expired, index⟩ := ih { sweep with queue := sweep.queue ++ [client] }
      have stays : (client :: rest).filter (fun client => !isOverdue now client) =
          client :: rest.filter fun client => !isOverdue now client :=
        List.filter_cons_of_pos (by rw [overdue]; rfl)
      have skipped : (client :: rest).filter (isOverdue now) = rest.filter (isOverdue now) :=
        List.filter_cons_of_neg (by simp [overdue])
      rw [if_neg Bool.false_ne_true, stays, skipped, queue]
      exact ⟨List.append_assoc _ _ _, expired, index⟩
    | true =>
      obtain ⟨queue, expired, index⟩ := ih { sweep with
        expired := sweep.expired ++ [client.fd], fdToClient := sweep.fdToClient.erase client.fd }
      have leaves : (client :: rest).filter (fun client => !isOverdue now client) =
          rest.filter fun client => !isOverdue now client :=
        List.filter_cons_of_neg (by simp [overdue])
      rw [if_pos rfl, leaves, List.filter_cons_of_pos overdue, List.map_cons, expired]
      refine ⟨queue, List.append_assoc _ _ _, fun fd => ?_⟩
      refine (index fd).trans ?_
      dsimp only
      by_cases same : fd = client.fd
      · subst same
        rw [AList.lookup_erase, ite_self, if_pos List.mem_cons_self]
      · simp only [AList.lookup_erase_ne same, List.mem_cons, same, false_or]

def overdueFds (keys : List Key) : List Fd :=
  keys.flatMap fun key => ((manager.queue key).filter (isOverdue now)).map BlockedClient.fd

theorem overdueFds_singleton (key : Key) : manager.overdueFds now [key] =
    ((manager.queue key).filter (isOverdue now)).map BlockedClient.fd := by
  simp [overdueFds]

theorem overdueFds_cons (first : Key) (keys : List Key) :
    manager.overdueFds now (first :: keys) =
      manager.overdueFds now [first] ++ manager.overdueFds now keys := by
  simp [overdueFds]

structure Sweeps (keys : List Key) (before after : BlockingManager × List Fd) : Prop where
  queue : ∀ key, after.1.queue key =
    if key ∈ keys then (before.1.queue key).filter fun client => !isOverdue now client
    else before.1.queue key
  present : ∀ key, key ∈ after.1.blockedClients ↔
    if key ∈ keys then after.1.queue key ≠ [] else key ∈ before.1.blockedClients
  index : ∀ fd, after.1.fdToClient.lookup fd =
    if fd ∈ before.1.overdueFds now keys then none else before.1.fdToClient.lookup fd
  nextNode : after.1.nextNode = before.1.nextNode
  expired : after.2 = before.2 ++ before.1.overdueFds now keys

theorem expireQueue_sweeps (state : BlockingManager × List Fd) (key : Key) :
    Sweeps now [key] state (expireQueue now state key) := by
  obtain ⟨queue, expired, index⟩ :=
    expireLoop_spec now (state.1.queue key) ⟨[], state.1.fdToClient, state.2⟩
  have queues (other : Key) : (expireQueue now state key).1.queue other =
      if other = key then (state.1.queue key).filter fun client => !isOverdue now client
      else state.1.queue other := by
    refine (queue_setQueue _ _ _ _ _ _).trans ?_
    rw [queue]
    rfl
  constructor
  · intro other
    rw [queues]
    by_cases same : other = key <;> simp [same]
  · intro other
    rw [queues]
    refine mem_setQueue.trans ?_
    rw [queue]
    by_cases same : other = key <;> simp [same]
  · intro fd
    rw [overdueFds_singleton]
    exact index fd
  · rfl
  · rw [overdueFds_singleton]
    exact expired

theorem foldl_expireQueue_sweeps (keys : List Key) (distinct : keys.Nodup)
    (state : BlockingManager × List Fd) :
    Sweeps now keys state (keys.foldl (expireQueue now) state) := by
  induction keys generalizing state with
  | nil => constructor <;> simp [overdueFds]
  | cons first keys ih =>
    obtain ⟨absent, distinct⟩ := List.nodup_cons.mp distinct
    have here := expireQueue_sweeps now state first
    have later := ih distinct (expireQueue now state first)
    -- the queues of the other keys are still as they were
    have others : (expireQueue now state first).1.overdueFds now keys =
        state.1.overdueFds now keys := by
      refine List.flatMap_congr fun key member => ?_
      rw [here.queue, if_neg (by simp [ne_of_mem_of_not_mem member absent])]
    rw [List.foldl_cons]
    constructor
    · intro key
      rw [later.queue, here.queue]
      by_cases same : key = first <;> simp [same, absent]
    · intro key
      rw [later.present, here.present]
      by_cases same : key = first
      · rw [if_neg (same ▸ absent), if_pos (by simp [same]), if_pos (by simp [same]),
          later.queue, if_neg (same ▸ absent)]
      · simp [same]
    · intro fd
      rw [later.index, here.index, others, state.1.overdueFds_cons now first keys]
      by_cases told : fd ∈ state.1.overdueFds now keys <;> simp [told]
    · rw [later.nextNode, here.nextNode]
    · rw [later.expired, here.expired, others, state.1.overdueFds_cons now first keys,
        List.append_assoc]

theorem getExpiredClients_sweeps :
    Sweeps now manager.blockedClients.keys (manager, []) (manager.getExpiredClients now) :=
  foldl_expireQueue_sweeps now _ manager.blockedClients.keys_nodup _

theorem getExpiredClients_queue (key : Key) :
    (manager.getExpiredClients now).1.queue key =
      (manager.queue key).filter fun client => !isOverdue now client := by
  rw [(manager.getExpiredClients_sweeps now).queue]
  split
  · rfl
  · rename_i absent
    simp [queue, AList.lookup_eq_none.mpr absent]

theorem getExpiredClients_present (key : Key) :
    key ∈ (manager.getExpiredClients now).1.blockedClients ↔
      (manager.getExpiredClients now).1.queue key ≠ [] := by
  rw [(manager.getExpiredClients_sweeps now).present]
  by_cases present : key ∈ manager.blockedClients
  · rw [if_pos (AList.mem_keys.mp present)]
  · rw [if_neg (mt AList.mem_keys.mpr present), getExpiredClients_queue]
    simp [queue, AList.lookup_eq_none.mpr present, present]

/-- The sweep of the timeouts is exact. Every queue loses the clients whose deadline has come
and keeps the others in their order, a key stays as long as somebody waits for it, the
descriptors told are those of the clients that left, and they are what the index loses. -/
theorem timeouts_are_exact :
    (∀ key, (manager.getExpiredClients now).1.queue key =
      (manager.queue key).filter fun client => !isOverdue now client) ∧
    (∀ key, key ∈ (manager.getExpiredClients now).1.blockedClients ↔
      (manager.getExpiredClients now).1.queue key ≠ []) ∧
    (manager.getExpiredClients now).2 = (manager.blockedClients.keys.flatMap fun key =>
      ((manager.queue key).filter (isOverdue now)).map BlockedClient.fd) ∧
    ∀ fd, (manager.getExpiredClients now).1.fdToClient.lookup fd =
      if fd ∈ (manager.getExpiredClients now).2 then none else manager.fdToClient.lookup fd := by
  have sweeps := manager.getExpiredClients_sweeps now
  refine ⟨manager.getExpiredClients_queue now, manager.getExpiredClients_present now,
    sweeps.expired, fun fd => ?_⟩
  rw [sweeps.index, sweeps.expired]
  rfl

theorem unblockClient_queue (key : Key) :
    ((manager.unblockClient fd).queue key).Sublist (manager.queue key) := by
  unfold unblockClient
  split
  · exact List.Sublist.refl _
  rename_i client _
  by_cases queued : client.key ∈ manager.blockedClients
  · rw [if_pos queued]
    exact manager.queue_erase_sublist client.key key client _ _
  · rw [if_neg queued]
    exact List.Sublist.refl _

end BlockingManager

end Credis
