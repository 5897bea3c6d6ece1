import Credis.DispatchChecks

/-! The output of the connections. Bytes wait in the buffer of a connection that is
marked and listed, and a flush hands them to the sockets once and in order. -/

namespace Credis

open ByteString ConnectionPool Connection

variable {fd target : Fd} {connection : Connection}

namespace ConnectionPool

variable {pool : ConnectionPool} {fd other : Fd}

theorem find_add (pool : ConnectionPool) (fd other : Fd) :
    (pool.add fd).find other = if other = fd then some fresh else pool.find other := by
  by_cases same : other = fd
  · subst same
    simp [add, find]
  · simp [add, find, same, AList.lookup_insert_ne same]

theorem find_remove (pool : ConnectionPool) (fd other : Fd) :
    (pool.remove fd).find other = if other = fd then none else pool.find other := by
  by_cases same : other = fd
  · subst same
    simp [remove, find]
  · simp [remove, find, same, AList.lookup_erase_ne same]

theorem dirtyFds_modify (pool : ConnectionPool) (fd : Fd) (change : Connection → Connection) :
    (pool.modify fd change).dirtyFds = pool.dirtyFds := by
  unfold modify
  split <;> rfl

theorem find_markDirty_eq (pool : ConnectionPool) (fd other : Fd) :
    (pool.markDirty fd).find other =
      if other = fd then (pool.find fd).map fun connection => { connection with dirty := true }
      else pool.find other := by
  unfold markDirty
  split
  · rename_i absent
    by_cases same : other = fd
    · subst same
      simp [absent]
    · rw [if_neg same]
  · rename_i connection found
    split
    · rename_i dirty
      by_cases same : other = fd
      · subst same
        rw [if_pos rfl, found, Option.map_some, ← dirty]
      · rw [if_neg same]
    · exact find_modify pool fd other _

theorem mem_markDirty (found : pool.find fd = some connection)
    (listed : connection.dirty = true → fd ∈ pool.dirtyFds) :
    fd ∈ (pool.markDirty fd).dirtyFds := by
  unfold markDirty
  rw [found]
  dsimp only
  split
  · rename_i dirty
    exact listed dirty
  · simp

theorem mem_markDirty_of_mem (listed : other ∈ pool.dirtyFds) :
    other ∈ (pool.markDirty fd).dirtyFds := by
  unfold markDirty
  split
  · exact listed
  · split
    · exact listed
    · simp [listed]

theorem sendTo_eq (pool : ConnectionPool) (fd : Fd) (response : Bytes) :
    pool.sendTo fd response = (pool.markDirty fd).modify fd (·.sendData response) := by
  unfold sendTo markDirty modify
  cases found : pool.find fd with
  | none => simp only [found]
  | some connection =>
    have there : ∀ stored : Connection,
        find ⟨pool.connections.insert fd stored, pool.dirtyFds⟩ fd = some stored :=
      fun stored => by simp [find]
    cases dirty : connection.dirty with
    | true => simp only [found, there, dirty, sendData, if_true]
    | false =>
      simp only [there, dirty, sendData, Bool.false_eq_true, if_false]
      simp [find]

theorem markDirty_marks (found : (pool.markDirty fd).find fd = some connection) :
    connection.dirty = true := by
  rw [find_markDirty_eq, if_pos rfl, Option.map_eq_some_iff] at found
  obtain ⟨before, -, rfl⟩ := found
  rfl

theorem find_flushStep (state : ConnectionPool × List (Fd × Bytes)) (fd other : Fd) :
    (flushStep state fd).1.find other =
      if other = fd then
        (state.1.find fd).map fun connection => { (connection.flush fd).1 with dirty := false }
      else state.1.find other := by
  unfold flushStep
  split
  · rename_i absent
    by_cases same : other = fd
    · subst same
      simp [absent]
    · rw [if_neg same]
  · exact find_modify _ _ _ _

end ConnectionPool

def bytesTo (fd : Fd) (messages : List (Fd × Bytes)) : Bytes :=
  messages.flatMap fun message => if message.1 = fd then message.2 else []

namespace ConnectionPool

theorem bytesTo_flushStep (state : ConnectionPool × List (Fd × Bytes)) (fd other : Fd) :
    bytesTo other (flushStep state fd).2 = bytesTo other state.2 ++
      if other = fd then ((state.1.find fd).map fun connection => (connection.flush fd).2).getD []
      else [] := by
  unfold flushStep
  split
  · rename_i absent
    simp [absent]
  rename_i connection found
  by_cases same : other = fd
  · subst same
    simp [bytesTo, found]
  · simp [bytesTo, same, Ne.symm same]

theorem flush_socket (connection : Connection) (socket : 0 ≤ fd) :
    connection.flush fd = ({ connection with pendingWrite := [] }, connection.pendingWrite) := by
  unfold flush
  split
  · rename_i idle
    have empty : connection.pendingWrite = [] := idle.resolve_right (Int.not_lt.mpr socket)
    rw [← empty]
  · rfl

theorem flushSteps_gone (fds : List Fd) {state : ConnectionPool × List (Fd × Bytes)}
    (absent : state.1.find fd = none) : (fds.foldl flushStep state).1.find fd = none := by
  induction fds generalizing state with
  | nil => exact absent
  | cons first fds ih =>
    refine ih ?_
    rw [find_flushStep]
    split
    · rename_i same
      rw [← same, absent, Option.map_none]
    · exact absent

theorem flushSteps_spec (fds : List Fd) {state : ConnectionPool × List (Fd × Bytes)} {fd : Fd}
    (socket : 0 ≤ fd) {connection : Connection} (present : state.1.find fd = some connection) :
    ∃ after, (fds.foldl flushStep state).1.find fd = some after ∧
      bytesTo fd (fds.foldl flushStep state).2 ++ after.pendingWrite =
        bytesTo fd state.2 ++ connection.pendingWrite ∧
      (after = connection ∧ fd ∉ fds ∨ after.pendingWrite = [] ∧ after.dirty = false) := by
  induction fds generalizing state connection with
  | nil => exact ⟨connection, present, rfl, .inl ⟨rfl, by simp⟩⟩
  | cons first fds ih =>
    have found := find_flushStep state first fd
    have bytes := bytesTo_flushStep state first fd
    by_cases same : fd = first
    · subst same
      rw [if_pos rfl, present, Option.map_some, flush_socket connection socket] at found bytes
      obtain ⟨after, reached, total, change⟩ := ih found
      refine ⟨after, reached, ?_, .inr ?_⟩
      · rw [List.foldl_cons, total, bytes, List.append_nil]
        rfl
      · rcases change with ⟨rfl, -⟩ | settled
        · exact ⟨rfl, rfl⟩
        · exact settled
    · rw [if_neg same] at found bytes
      rw [List.append_nil] at bytes
      obtain ⟨after, reached, total, change⟩ := ih (found.trans present)
      rw [bytes] at total
      refine ⟨after, reached, total, change.imp_left fun ⟨unchanged, absent⟩ => ⟨unchanged, ?_⟩⟩
      rw [List.mem_cons, not_or]
      exact ⟨same, absent⟩

end ConnectionPool

inductive WritePart
  | append (data : Bytes)
  | sendTo (fd : Fd) (response : Bytes)

/-- The calls that change the output of a pool; `write` is `get_pending_write` with what
comes behind it. -/
inductive PoolCall
  | add (fd : Fd)
  | remove (fd : Fd)
  | sendTo (fd : Fd) (response : Bytes)
  | write (fd : Fd) (parts : List WritePart)
  | flushAll

/-- A pool with two accounts for each descriptor, both since its connection was added: what
was appended, for connections that are there, and what was sent. -/
structure PoolRun where
  pool : ConnectionPool
  appended : Fd → Option Bytes
  sent : Fd → Bytes

namespace PoolRun

def initial : PoolRun := ⟨.empty, fun _ => none, fun _ => []⟩

def took (run : PoolRun) (pool : ConnectionPool) (fd : Fd) (data : Bytes) : PoolRun :=
  { run with
    pool := pool
    appended := fun other =>
      if other = fd then (run.appended other).map (· ++ data) else run.appended other }

def sendTo (run : PoolRun) (fd : Fd) (response : Bytes) : PoolRun :=
  run.took (run.pool.sendTo fd response) fd response

def writePart (fd : Fd) (run : PoolRun) : WritePart → PoolRun
  | .append data => run.took (run.pool.modify fd (·.sendData data)) fd data
  | .sendTo other response => run.sendTo other response

def step (run : PoolRun) : PoolCall → PoolRun
  | .add fd =>
    { pool := run.pool.add fd
      appended := fun other => if other = fd then some [] else run.appended other
      sent := fun other => if other = fd then [] else run.sent other }
  | .remove fd =>
    { run with
      pool := run.pool.remove fd
      appended := fun other => if other = fd then none else run.appended other }
  | .sendTo fd response => run.sendTo fd response
  | .write fd parts =>
    match run.pool.getPendingWrite fd with
    | .error _ => run
    | .ok marked => parts.foldl (writePart fd) { run with pool := marked }
  | .flushAll =>
    { run with
      pool := run.pool.flushAll.1
      sent := fun other => run.sent other ++ bytesTo other run.pool.flushAll.2 }

def after (calls : List PoolCall) : PoolRun := calls.foldl step initial

/-- What was appended for a connection is what has been sent with what is pending, and a
connection with pending bytes is marked and listed. -/
structure Accounted (run : PoolRun) (fd : Fd) : Prop where
  gone : run.pool.find fd = none → run.appended fd = none
  socket : ∀ connection, run.pool.find fd = some connection → 0 ≤ fd
  whole : ∀ connection, run.pool.find fd = some connection →
    run.appended fd = some (run.sent fd ++ connection.pendingWrite)
  marked : ∀ connection, run.pool.find fd = some connection →
    connection.pendingWrite ≠ [] → connection.dirty = true
  listed : ∀ connection, run.pool.find fd = some connection →
    connection.dirty = true → fd ∈ run.pool.dirtyFds

namespace Accounted

variable {run : PoolRun} {fd : Fd}

theorem initial (fd : Fd) : PoolRun.initial.Accounted fd := by
  constructor <;> simp [PoolRun.initial, ConnectionPool.empty, ConnectionPool.find]

section

variable (accounted : run.Accounted fd)

include accounted

theorem transfer {later : PoolRun} (pool : later.pool.find fd = run.pool.find fd)
    (appended : later.appended fd = run.appended fd) (sent : later.sent fd = run.sent fd)
    (listed : fd ∈ run.pool.dirtyFds → fd ∈ later.pool.dirtyFds) : later.Accounted fd := by
  constructor
  all_goals rw [pool]
  · rw [appended]
    exact accounted.gone
  · exact accounted.socket
  · rw [appended, sent]
    exact accounted.whole
  · exact accounted.marked
  · exact fun connection found dirty => listed (accounted.listed connection found dirty)

theorem add {added : Fd} (socket : 0 ≤ added) : (run.step (.add added)).Accounted fd := by
  by_cases same : fd = added
  · subst same
    constructor
    all_goals simp [step, find_add, fresh, socket]
  · exact accounted.transfer ((find_add _ _ _).trans (if_neg same)) (if_neg same)
      (if_neg same) id

theorem remove (removed : Fd) : (run.step (.remove removed)).Accounted fd := by
  by_cases same : fd = removed
  · subst same
    constructor
    all_goals simp [step, find_remove]
  · exact accounted.transfer ((find_remove _ _ _).trans (if_neg same)) (if_neg same)
      rfl id

theorem mark (target : Fd) :
    ({ run with pool := run.pool.markDirty target } : PoolRun).Accounted fd := by
  by_cases same : fd = target
  · subst same
    have found := run.pool.find_markDirty_eq fd fd
    rw [if_pos rfl] at found
    cases present : run.pool.find fd with
    | none =>
      rw [present, Option.map_none] at found
      exact accounted.transfer (found.trans present.symm) rfl rfl
        mem_markDirty_of_mem
    | some connection =>
      rw [present, Option.map_some] at found
      have whole := accounted.whole connection present
      have socket := accounted.socket connection present
      constructor
      all_goals simp only [found, reduceCtorEq, Option.some.injEq, forall_eq', false_imp_iff]
      · exact socket
      · exact whole
      · exact fun _ => trivial
      · exact fun _ => mem_markDirty present (accounted.listed connection present)
  · exact accounted.transfer ((run.pool.find_markDirty_eq target fd).trans (if_neg same)) rfl rfl
      mem_markDirty_of_mem

theorem took (data : Bytes)
    (marked : ∀ connection, run.pool.find target = some connection → connection.dirty = true) :
    (run.took (run.pool.modify target (·.sendData data)) target data).Accounted fd := by
  have found := run.pool.find_modify target fd (·.sendData data)
  have list := run.pool.dirtyFds_modify target (·.sendData data)
  by_cases same : fd = target
  · subst same
    rw [if_pos rfl] at found
    cases present : run.pool.find fd with
    | none =>
      rw [present, Option.map_none] at found
      refine accounted.transfer (found.trans present.symm) ?_ rfl
        (by rw [PoolRun.took, list]; exact id)
      simp [PoolRun.took, accounted.gone present]
    | some connection =>
      rw [present, Option.map_some] at found
      have whole := accounted.whole connection present
      have dirty := marked connection present
      constructor
      all_goals simp only [PoolRun.took, found, reduceCtorEq, Option.some.injEq, forall_eq',
        false_imp_iff, if_true]
      · exact accounted.socket connection present
      · simp [whole, sendData]
      · exact fun _ => dirty
      · rw [list]
        exact fun _ => accounted.listed connection present dirty
  · exact accounted.transfer (found.trans (if_neg same)) (if_neg same) rfl
      (by rw [PoolRun.took, list]; exact id)

theorem sendTo (target : Fd) (response : Bytes) : (run.sendTo target response).Accounted fd := by
  rw [PoolRun.sendTo, sendTo_eq]
  exact (accounted.mark target).took response fun _ found => markDirty_marks found

end

end Accounted

structure Writing (run : PoolRun) (target : Fd) : Prop where
  accounted : ∀ fd, run.Accounted fd
  marked : ∀ connection, run.pool.find target = some connection → connection.dirty = true

variable {run : PoolRun}

theorem Writing.part (writing : run.Writing target) (part : WritePart) :
    (run.writePart target part).Writing target := by
  cases part with
  | append data =>
    refine ⟨fun fd => (writing.accounted fd).took data writing.marked, fun connection found => ?_⟩
    rw [writePart, took, find_modify, if_pos rfl, Option.map_eq_some_iff] at found
    obtain ⟨before, present, rfl⟩ := found
    exact writing.marked before present
  | sendTo other response =>
    refine ⟨fun fd => (writing.accounted fd).sendTo other response, fun connection found => ?_⟩
    rw [writePart, sendTo, took, sendTo_eq, find_modify] at found
    split at found
    · rename_i same
      subst same
      obtain ⟨before, present, rfl⟩ := Option.map_eq_some_iff.mp found
      have marked := markDirty_marks present
      exact marked
    · rename_i different
      rw [find_markDirty_eq, if_neg different] at found
      exact writing.marked connection found

theorem Accounted.flushAll (accounted : run.Accounted fd) :
    (run.step .flushAll).Accounted fd ∧
      ∀ bytes, run.appended fd = some bytes → (run.step .flushAll).sent fd = bytes := by
  cases present : run.pool.find fd with
  | none =>
    have absent : (run.step .flushAll).pool.find fd = none :=
      flushSteps_gone run.pool.dirtyFds present
    constructor
    · constructor
      all_goals simp only [absent, reduceCtorEq, false_imp_iff, implies_true]
      exact fun _ => accounted.gone present
    · simp [accounted.gone present]
  | some connection =>
    have socket := accounted.socket connection present
    obtain ⟨after, reached, total, change⟩ := @flushSteps_spec
      run.pool.dirtyFds (run.pool, []) fd socket connection present
    have settled : after.pendingWrite = [] ∧ after.dirty = false := by
      rcases change with ⟨rfl, unlisted⟩ | settled
      · have clean : after.dirty = false := by
          rw [← Bool.not_eq_true]
          exact fun dirty => unlisted (accounted.listed after present dirty)
        refine ⟨?_, clean⟩
        by_contra pending
        rw [accounted.marked after present pending] at clean
        cases clean
      · exact settled
    have found : (run.step .flushAll).pool.find fd = some after := reached
    rw [settled.1, List.append_nil] at total
    have sent : (run.step .flushAll).sent fd = run.sent fd ++ connection.pendingWrite :=
      congrArg (run.sent fd ++ ·) total
    constructor
    · constructor
      all_goals simp only [found, reduceCtorEq, Option.some.injEq, forall_eq', false_imp_iff]
      · exact socket
      · rw [sent, settled.1, List.append_nil]
        exact accounted.whole connection present
      · exact fun pending => absurd settled.1 pending
      · exact fun dirty => by rw [settled.2] at dirty; cases dirty
    · rw [accounted.whole connection present, sent]
      exact fun _ => Option.some.inj

theorem accounted_step (accounted : ∀ fd, run.Accounted fd) {call : PoolCall}
    (socket : ∀ fd, call = .add fd → 0 ≤ fd) (fd : Fd) : (run.step call).Accounted fd := by
  cases call with
  | add added => exact (accounted fd).add (socket added rfl)
  | remove removed => exact (accounted fd).remove removed
  | sendTo target response => exact (accounted fd).sendTo target response
  | write target parts =>
    rw [step, getPendingWrite]
    by_cases known : run.pool.contains target = true
    · rw [if_pos known]
      have writing : Writing { run with pool := run.pool.markDirty target } target :=
        ⟨fun other => (accounted other).mark target,
          fun _ found => markDirty_marks found⟩
      exact (List.foldlRecOn (motive := (Writing · target)) parts (writePart target) writing
        fun _ writing part _ => writing.part part).accounted fd
    · rw [if_neg known]
      exact accounted fd
  | flushAll => exact (accounted fd).flushAll.1

theorem accounted_steps (accounted : ∀ fd, run.Accounted fd) {calls : List PoolCall}
    (sockets : ∀ fd, .add fd ∈ calls → 0 ≤ fd) (fd : Fd) : (calls.foldl step run).Accounted fd := by
  induction calls generalizing run with
  | nil => exact accounted fd
  | cons call calls ih =>
    refine ih (accounted_step accounted ?_) fun other inside => sockets other (by simp [inside])
    rintro other rfl
    exact sockets other (by simp)

theorem after_concat (calls : List PoolCall) (last : PoolCall) :
    after (calls ++ [last]) = (after calls).step last := by
  rw [after, List.foldl_append]
  rfl

/-- Pending bytes are marked and listed, and behind a flush the bytes sent to a connection are
those appended for it since it was added; one that takes over a descriptor is sent nothing. -/
theorem output_complete (calls : List PoolCall) (sockets : ∀ fd, .add fd ∈ calls → 0 ≤ fd) :
    (∀ fd connection, (after calls).pool.find fd = some connection →
      connection.pendingWrite ≠ [] →
      connection.dirty = true ∧ fd ∈ (after calls).pool.dirtyFds) ∧
    (∀ fd connection, (after (calls ++ [.flushAll])).pool.find fd = some connection →
      (after (calls ++ [.flushAll])).appended fd =
        some ((after (calls ++ [.flushAll])).sent fd)) ∧
    ∀ fd, 0 ≤ fd → (after (calls ++ [.remove fd, .add fd, .flushAll])).sent fd = [] := by
  have accounted : ∀ fd, (after calls).Accounted fd := accounted_steps Accounted.initial sockets
  refine ⟨?_, ?_, ?_⟩
  · intro fd connection found pending
    have marked := (accounted fd).marked connection found pending
    exact ⟨marked, (accounted fd).listed connection found marked⟩
  · intro fd connection found
    rw [after_concat] at found ⊢
    obtain ⟨next, flushed⟩ := (accounted fd).flushAll
    have total := next.whole connection found
    rw [flushed _ total]
    exact total
  · intro fd socket
    have reused : after (calls ++ [.remove fd, .add fd, .flushAll]) =
        (((after calls).step (.remove fd)).step (.add fd)).step .flushAll := by
      rw [after, List.foldl_append]
      rfl
    rw [reused]
    exact (((accounted fd).remove fd).add socket).flushAll.2 [] (if_pos rfl)

def reusedCalls : List PoolCall :=
  [.add 5, .sendTo 5 (ascii "old"), .remove 5, .add 5,
    .write 5 [.append (ascii "a"), .sendTo 5 (ascii "b"), .append (ascii "c")]]

theorem reusedCalls_complete :
    (after (reusedCalls ++ [.flushAll])).appended 5 =
        some ((after (reusedCalls ++ [.flushAll])).sent 5) ∧
      (after (reusedCalls ++ [.flushAll])).sent 5 = ascii "abc" := by
  refine ⟨(output_complete reusedCalls ?_).2.1 5 Connection.fresh rfl, by decide +kernel⟩
  intro fd inside
  obtain rfl : fd = 5 := by simpa [reusedCalls] using inside
  decide

end PoolRun

end Credis
