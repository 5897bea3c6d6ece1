import Credis.WakeChecks

/-! The two maps of the blocking manager: the queues, and the index from a
descriptor to its entry. They stay in step in every run in which no client that
already waits is blocked a second time, and in no other. -/

namespace Credis

open ByteString

variable {manager : BlockingManager}

namespace BlockingManager

def entries (manager : BlockingManager) : List BlockedClient :=
  manager.blockedClients.keys.flatMap manager.queue

structure Consistent (manager : BlockingManager) : Prop where
  once : (manager.entries.map BlockedClient.fd).Nodup
  index : ∀ fd client, manager.fdToClient.lookup fd = some client ↔
    client ∈ manager.entries ∧ client.fd = fd
  blocked : ∀ fd, manager.isBlocked fd = true ↔ ∃ client ∈ manager.entries, client.fd = fd
  own : ∀ key, ∀ client ∈ manager.queue key, client.key = key
  filled : ∀ key, key ∈ manager.blockedClients → manager.queue key ≠ []
  unblocked : ∀ fd key, ∀ client ∈ (manager.unblockClient fd).queue key, client.fd ≠ fd

structure Indexed (manager : BlockingManager) : Prop where
  nodup : ∀ key, (manager.queue key).Nodup
  index : ∀ fd client, manager.fdToClient.lookup fd = some client ↔
    client ∈ manager.queue client.key ∧ client.fd = fd
  own : ∀ key, ∀ client ∈ manager.queue key, client.key = key
  filled : ∀ key, key ∈ manager.blockedClients → manager.queue key ≠ []

section Lookups

variable {manager : BlockingManager} {key : Key} {client : BlockedClient}

theorem key_mem_of_mem_queue (member : client ∈ manager.queue key) :
    key ∈ manager.blockedClients := by
  unfold queue at member
  cases present : manager.blockedClients.lookup key with
  | none => simp [present] at member
  | some clients => exact AList.lookup_isSome.mp (by simp [present])

theorem mem_entries : client ∈ manager.entries ↔ ∃ key, client ∈ manager.queue key := by
  rw [entries, List.mem_flatMap]
  constructor
  · rintro ⟨key, -, member⟩
    exact ⟨key, member⟩
  · rintro ⟨key, member⟩
    exact ⟨key, AList.mem_keys.mpr (key_mem_of_mem_queue member), member⟩

end Lookups

theorem empty_indexed : empty.Indexed where
  nodup _ := List.nodup_nil
  index fd client := by
    constructor
    · intro found
      rw [empty, AList.lookup_empty] at found
      cases found
    · rintro ⟨member, -⟩
      cases member
  own _ _ member := by cases member
  filled key present := (AList.notMem_empty key present).elim

namespace Indexed

variable {manager after : BlockingManager} {key : Key} {client other : BlockedClient} {fd : Fd}

theorem of_mem (indexed : manager.Indexed) (member : client ∈ manager.queue key) :
    manager.fdToClient.lookup client.fd = some client :=
  (indexed.index client.fd client).mpr ⟨indexed.own key client member ▸ member, rfl⟩

theorem without (indexed : manager.Indexed) {gone : BlockedClient → Bool}
    (queues : ∀ key, after.queue key = (manager.queue key).filter fun client => !gone client)
    (lookups : ∀ fd, after.fdToClient.lookup fd =
      (manager.fdToClient.lookup fd).filter fun client => !gone client)
    (filled : ∀ key, key ∈ after.blockedClients → after.queue key ≠ []) : after.Indexed where
  nodup key := by
    rw [queues]
    exact (indexed.nodup key).filter _
  index fd client := by
    rw [lookups, Option.filter_eq_some_iff, indexed.index, queues, List.mem_filter]
    exact and_right_comm
  own key client member := by
    rw [queues] at member
    exact indexed.own key client (List.mem_of_mem_filter member)
  filled := filled

theorem erase (indexed : manager.Indexed) (member : client ∈ manager.queue key) :
    (manager.released key client).Indexed := by
  have place := indexed.own key client member
  refine @without _ _ indexed (· == client) (fun other => ?_) (fun fd => ?_)
    (fun other present => ?_)
  · rw [queue_released]
    split
    · rename_i same
      rw [same, (indexed.nodup key).erase_eq_filter]
      rfl
    · rename_i different
      refine (List.filter_eq_self.mpr fun waiting inside => ?_).symm
      have elsewhere := indexed.own other waiting inside
      have distinct : waiting ≠ client := fun same =>
        different (by rw [← elsewhere, same, place])
      simp [distinct]
  · have found := indexed.of_mem member
    by_cases same : fd = client.fd
    · subst same
      rw [released, AList.lookup_erase, found, Option.filter_some]
      simp
    · rw [released, AList.lookup_erase_ne same]
      cases looked : manager.fdToClient.lookup fd with
      | none => rfl
      | some waiting =>
        have own := ((indexed.index fd waiting).mp looked).2
        have distinct : waiting ≠ client := by
          rintro rfl
          exact same own.symm
        rw [Option.filter_some]
        simp [distinct]
  · rw [released, mem_setQueue] at present
    rw [queue_released]
    split at present
    · rename_i same
      rwa [if_pos same]
    · rename_i different
      rw [if_neg different]
      exact indexed.filled other present

section

variable (indexed : manager.Indexed)

include indexed

theorem wakesOne {done : BlockingManager × Option BlockedClient}
    (wakes : manager.WakesOne key done) : done.1.Indexed := by
  cases wakes with
  | nobody => exact indexed
  | one member => exact indexed.erase member

theorem unblock (fd : Fd) : (manager.unblockClient fd).Indexed := by
  unfold unblockClient
  split
  · exact indexed
  rename_i client found
  obtain ⟨member, own⟩ := (indexed.index fd client).mp found
  rw [if_pos (key_mem_of_mem_queue member), ← own]
  exact indexed.erase member

theorem mem_overdueFds (now : Time) (found : manager.fdToClient.lookup fd = some client) :
    fd ∈ manager.overdueFds now manager.blockedClients.keys ↔ isOverdue now client = true := by
  obtain ⟨member, own⟩ := (indexed.index fd client).mp found
  rw [overdueFds, List.mem_flatMap]
  constructor
  · rintro ⟨key, -, told⟩
    obtain ⟨other, inside, same⟩ := List.mem_map.mp told
    obtain ⟨inside, overdue⟩ := List.mem_filter.mp inside
    have looked := indexed.of_mem inside
    rw [same, found] at looked
    cases looked
    exact overdue
  · intro overdue
    exact ⟨client.key, AList.mem_keys.mp (key_mem_of_mem_queue member),
      List.mem_map.mpr ⟨client, List.mem_filter.mpr ⟨member, overdue⟩, own⟩⟩

theorem expire (now : Time) : (manager.getExpiredClients now).1.Indexed := by
  have sweeps := manager.getExpiredClients_sweeps now
  refine @without _ _ indexed (isOverdue now) (manager.getExpiredClients_queue now)
    (fun fd => ?_) fun key => (manager.getExpiredClients_present now key).mp
  rw [sweeps.index]
  cases found : manager.fdToClient.lookup fd with
  | none => simp
  | some client =>
    rw [Option.filter_some]
    by_cases gone : isOverdue now client = true
    · rw [if_pos ((indexed.mem_overdueFds now found).mpr gone), gone]
      rfl
    · rw [if_neg (mt (indexed.mem_overdueFds now found).mp gone), Bool.eq_false_iff.mpr gone]
      rfl

theorem block (fresh : manager.isBlocked fd = false) (now : Time) (key : Key) (lastId : StreamId)
    (timeoutMs : Int) : (manager.blockClientForStream now fd key lastId timeoutMs).Indexed := by
  have free : ∀ other ∈ manager.entries, other.fd ≠ fd := by
    intro other member same
    obtain ⟨place, member⟩ := mem_entries.mp member
    have found := indexed.of_mem member
    rw [same] at found
    have waits : fd ∈ manager.fdToClient := AList.lookup_isSome.mp (by simp [found])
    simp [isBlocked, waits] at fresh
  generalize added : manager.blockClientForStream now fd key lastId timeoutMs = after
  obtain ⟨client, own, place, -, -, -, queues, lookups, keys⟩ := blockClientForStream_adds added
  have new : client ∉ manager.queue key := fun member =>
    free client (mem_entries.mpr ⟨key, member⟩) own
  constructor
  · intro other
    rw [queues]
    split
    · exact (List.perm_append_singleton client _).nodup_iff.mpr
        (List.nodup_cons.mpr ⟨new, indexed.nodup key⟩)
    · exact indexed.nodup other
  · intro other waiting
    have inside : waiting ∈ after.queue waiting.key ↔
        waiting = client ∨ waiting ∈ manager.queue waiting.key := by
      rw [queues]
      split
      · rename_i same
        rw [same, List.mem_append, List.mem_singleton, or_comm]
      · rename_i different
        exact ⟨.inr, fun member => member.resolve_left fun same => different (same ▸ place)⟩
    rw [lookups, inside]
    split
    · rename_i same
      subst same
      constructor
      · rintro ⟨⟩
        exact ⟨.inl rfl, own⟩
      · rintro ⟨rfl | before, mine⟩
        · rfl
        · exact (free waiting (mem_entries.mpr ⟨_, before⟩) mine).elim
    · rename_i different
      rw [indexed.index]
      constructor
      · exact fun ⟨member, mine⟩ => ⟨.inr member, mine⟩
      · rintro ⟨rfl | before, mine⟩
        · exact (different (mine.symm.trans own)).elim
        · exact ⟨before, mine⟩
  · intro other waiting member
    rw [queues] at member
    split at member
    · rename_i same
      subst same
      rcases List.mem_append.mp member with before | last
      · exact indexed.own other waiting before
      · rw [List.mem_singleton.mp last, place]
    · exact indexed.own other waiting member
  · intro other present
    rw [queues]
    split
    · simp
    · rename_i different
      exact indexed.filled other (((keys other).mp present).resolve_left different)

theorem isBlocked_iff (fd : Fd) :
    manager.isBlocked fd = true ↔ ∃ client ∈ manager.entries, client.fd = fd := by
  rw [isBlocked, decide_eq_true_iff, ← AList.lookup_isSome, Option.isSome_iff_exists]
  constructor
  · rintro ⟨client, found⟩
    obtain ⟨member, own⟩ := (indexed.index fd client).mp found
    exact ⟨client, mem_entries.mpr ⟨_, member⟩, own⟩
  · rintro ⟨client, member, own⟩
    obtain ⟨key, member⟩ := mem_entries.mp member
    exact ⟨client, own ▸ indexed.of_mem member⟩

theorem unblocked (fd : Fd) (key : Key) :
    ∀ client ∈ (manager.unblockClient fd).queue key, client.fd ≠ fd := by
  rintro client member rfl
  have after := (indexed.unblock client.fd).of_mem member
  have before := indexed.of_mem ((manager.unblockClient_queue client.fd key).subset member)
  unfold unblockClient at after
  rw [before] at after
  dsimp only at after
  rw [AList.lookup_erase] at after
  cases after

theorem entries_nodup : manager.entries.Nodup := by
  refine List.nodup_flatMap.mpr ⟨fun key _ => indexed.nodup key, ?_⟩
  refine List.Pairwise.imp ?_ (manager.blockedClients.nodupKeys)
  intro first second different client left right
  exact different ((indexed.own first client left).symm.trans (indexed.own second client right))

theorem consistent : manager.Consistent where
  once := by
    refine List.Nodup.map_on ?_ indexed.entries_nodup
    intro first left second right same
    obtain ⟨_, left⟩ := mem_entries.mp left
    obtain ⟨_, right⟩ := mem_entries.mp right
    have found := indexed.of_mem left
    rw [same, indexed.of_mem right] at found
    exact (Option.some.inj found).symm
  index fd client := by
    rw [indexed.index]
    refine and_congr_left fun _ => ⟨fun member => mem_entries.mpr ⟨_, member⟩, fun member => ?_⟩
    obtain ⟨key, member⟩ := mem_entries.mp member
    exact indexed.own key client member ▸ member
  blocked := indexed.isBlocked_iff
  own := indexed.own
  filled := indexed.filled
  unblocked := indexed.unblocked

end

end Indexed

theorem Consistent.indexed (consistent : manager.Consistent) : manager.Indexed where
  nodup key := by
    by_cases present : key ∈ manager.blockedClients
    · exact (List.nodup_flatMap.mp (consistent.once.of_map _)).1 key (AList.mem_keys.mp present)
    · rw [queue, AList.lookup_eq_none.mpr present]
      exact List.nodup_nil
  index fd client := by
    rw [consistent.index]
    refine and_congr_left fun _ => ⟨fun member => ?_, fun member => mem_entries.mpr ⟨_, member⟩⟩
    obtain ⟨key, member⟩ := mem_entries.mp member
    exact consistent.own key client member ▸ member
  own := consistent.own
  filled := consistent.filled

theorem block_twice {now : Time} {fd : Fd} {key : Key} {lastId : StreamId} {timeoutMs : Int}
    (indexed : manager.Indexed) (waits : manager.isBlocked fd = true) :
    ¬ (manager.blockClientForStream now fd key lastId timeoutMs).Indexed := by
  intro still
  generalize added : manager.blockClientForStream now fd key lastId timeoutMs = after at still
  obtain ⟨client, own, place, -, -, -, queues, lookups, -⟩ := blockClientForStream_adds added
  obtain ⟨old, member, same⟩ := (indexed.isBlocked_iff fd).mp waits
  obtain ⟨home, member⟩ := mem_entries.mp member
  have kept : old ∈ after.queue home := by
    rw [queues]
    split
    · rename_i here
      exact List.mem_append_left _ (here ▸ member)
    · exact member
  have found := still.of_mem kept
  rw [same, lookups, if_pos rfl] at found
  cases found
  have twice := still.nodup key
  rw [queues, if_pos rfl] at twice
  rw [indexed.own home client member] at place
  exact (List.nodup_cons.mp ((List.perm_append_singleton client _).nodup_iff.mp twice)).1
    (place ▸ member)

end BlockingManager

def HandlerState.Indexed (state : HandlerState) : Prop :=
  ∀ manager, state.blockingManager = some manager → manager.Consistent

def HandlerState.isBlocked (state : HandlerState) (fd : Fd) : Bool :=
  state.blockingManager.any fun manager => manager.isBlocked fd

namespace Execution

variable {execution : Execution}

def BlocksOnce (execution : Execution) : Prop :=
  execution.outcome.result = .block → execution.before.isBlocked execution.fd = false

instance (execution : Execution) : Decidable execution.BlocksOnce :=
  inferInstanceAs (Decidable (_ → _))

theorem indexed_map {state next : HandlerState} {change : BlockingManager → BlockingManager}
    (changed : next.blockingManager = state.blockingManager.map change)
    (kept : ∀ manager : BlockingManager, manager.Indexed → (change manager).Indexed)
    (indexed : state.Indexed) : next.Indexed := by
  intro manager present
  rw [changed, Option.map_eq_some_iff] at present
  obtain ⟨before, present, rfl⟩ := present
  exact (kept before (indexed before present).indexed).consistent

theorem Moves.indexed_iff (moves : execution.Moves) (indexed : execution.before.Indexed) :
    execution.after.Indexed ↔ execution.BlocksOnce := by
  cases moves with
  | stays goes same =>
    refine ⟨fun _ blocked => (goes blocked).elim, fun _ manager present => ?_⟩
    exact indexed manager (same ▸ present)
  | pushes _ goes _ _ woken =>
    refine ⟨fun _ blocked => (goes blocked).elim, fun _ => indexed_map woken ?_ indexed⟩
    exact fun manager held => Function.Iterate.rec BlockingManager.Indexed held
      (fun inner indexed => indexed.wakesOne (inner.wakeClient_wakesOne _)) _
  | adds _ goes _ woken =>
    refine ⟨fun _ blocked => (goes blocked).elim, fun _ => indexed_map woken ?_ indexed⟩
    exact fun manager held => Function.Iterate.rec BlockingManager.Indexed held
      (fun inner indexed => indexed.wakesOne (inner.wakeClientForStream_wakesOne _ _)) _
  | @blocks blocking _ _ _ _ _ _ blocked present added =>
    have held := (indexed _ present).indexed
    have told : execution.before.isBlocked execution.fd = blocking.isBlocked execution.fd := by
      rw [HandlerState.isBlocked, present, Option.any_some]
    constructor
    · intro after _
      rw [told, ← Bool.not_eq_true]
      exact fun waits => BlockingManager.block_twice held waits (after _ added).indexed
    · intro once manager result
      cases added.symm.trans result
      exact (held.block (told.symm.trans (once blocked)) _ _ _ _).consistent

end Execution

theorem HandlerState.Between.indexed {before after : HandlerState} (between : before.Between after)
    (indexed : before.Indexed) : after.Indexed := by
  rcases between.waiting with same | ⟨fd, left⟩ | ⟨now, swept⟩
  · exact fun manager present => indexed manager (same ▸ present)
  · exact Execution.indexed_map left (fun _ held => held.unblock fd) indexed
  · exact Execution.indexed_map swept (fun _ held => held.expire now) indexed

namespace CommandContext

/-- Every state of the manager that a run passes through is in step exactly when
no command of the run blocks a client that already waits. -/
theorem waiting_index_in_step_iff {start ctx : CommandContext} {events : List Event}
    {observations : List (Option Observation)} (empty : start.blockingManager = some .empty)
    (ran : Run.run handle start events = .ok (ctx, observations)) :
    ((∀ execution ∈ start.history events, execution.after.Indexed) ∧
        ctx.toHandlerState.Indexed) ↔
      ∀ execution ∈ start.history events, execution.BlocksOnce := by
  have first : start.toHandlerState.Indexed := by
    intro manager present
    cases empty.symm.trans present
    exact BlockingManager.empty_indexed.consistent
  have rule := fun condition kept => @history_inOrder (fun _ state => state.Indexed)
    (fun _ => condition) kept (fun _ _ _ between => between.indexed) start ctx events observations
    [] ran first
  constructor
  · rintro ⟨after, -⟩ execution member
    obtain ⟨-, each⟩ := rule (fun execution => execution.after.Indexed)
      (fun _ _ _ _ indexed => indexed) (Run.inOrder_forall.mpr after)
    obtain ⟨before, runs⟩ := Run.inOrder_forall.mp each execution member
    exact (runs.moves.indexed_iff before).mp (after execution member)
  · intro once
    obtain ⟨last, each⟩ := rule Execution.BlocksOnce
      (fun _ _ runs before holds => (runs.moves.indexed_iff before).mpr holds)
      (Run.inOrder_forall.mpr once)
    refine ⟨fun execution member => ?_, last⟩
    obtain ⟨before, runs⟩ := Run.inOrder_forall.mp each execution member
    exact (runs.moves.indexed_iff before).mpr (once execution member)

theorem served_wait_in_step :
    ∃ run, Run.run handle (twoClients 0) [.words 5 ["BLPOP", "k", "0"],
        .words 6 ["RPUSH", "k", "v"], .words 5 ["BLPOP", "k", "0"], .disconnect 5] = .ok run ∧
      run.1.toHandlerState.Indexed := by
  refine Run.of_checked (fun _ => True) (by decide +kernel) fun run ran _ => ?_
  exact ((waiting_index_in_step_iff rfl ran).mpr (by decide +kernel)).2

/-- The index knows only the second wait of a client, so the first one stays in its
queue when the client goes. -/
theorem second_wait_out_of_step :
    ∃ run, Run.run handle (twoClients 0)
        [.words 5 ["BLPOP", "k1", "0"], .words 5 ["BLPOP", "k2", "0"]] = .ok run ∧
      ∃ manager, run.1.blockingManager = some manager ∧
        manager.entries.map BlockedClient.fd = [5, 5] ∧
        ((manager.unblockClient 5).queue (ascii "k1")).map BlockedClient.fd = [5] ∧
        ¬ run.1.toHandlerState.Indexed := by
  refine Run.of_checked (fun run => ∃ manager, run.1.blockingManager = some manager ∧
    manager.entries.map BlockedClient.fd = [5, 5] ∧
    ((manager.unblockClient 5).queue (ascii "k1")).map BlockedClient.fd = [5])
    (by decide +kernel) fun run _ ⟨manager, present, entries, left⟩ => ?_
  refine ⟨manager, present, entries, left, fun indexed => ?_⟩
  have once := (indexed manager present).once
  rw [entries] at once
  exact absurd once (by decide)

end CommandContext

end Credis
