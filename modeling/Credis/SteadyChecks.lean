import Credis.DispatchCore
import Credis.HandlerChecks

/-! The commands whose effect on the keyspace is the same wherever and whenever
they run: on a keyspace without expiry times and with nobody blocked, the clock,
the descriptor, the callback and the rest of the state make no difference. -/

namespace Credis

open ByteString

variable {args : List Bytes}

open Store (Reads NoExpiry Steady Operation)
open Relational (Matches Alike)

theorem setOptions_plain (options : List Bytes) (ttlMs : Option Nat)
    (plain : ∀ option ∈ options, toUpper option ≠ ascii "EX" ∧ toUpper option ≠ ascii "PX") :
    setOptions options ttlMs = .ok ttlMs := by
  fun_induction setOptions options ttlMs with
  | case1 => rfl
  | case2 option ttlMs timed =>
    have neither := plain option (by simp)
    exact absurd timed (by simp [neither])
  | case3 => rfl
  | case4 option amount rest ttlMs timed | case5 option amount rest ttlMs timed =>
    have neither := plain option (by simp)
    exact absurd timed (by simp [neither])
  | case6 option amount rest ttlMs untimed ih =>
    exact ih fun other member => plain other (by simp [member])

namespace HandlerState

def FreeAt (state : HandlerState) (key : Key) : Prop :=
  ∀ manager, state.blockingManager = some manager → manager.queue key = []

def NobodyBlocked (state : HandlerState) : Prop := ∀ key, state.FreeAt key

end HandlerState

theorem tryWake_free {now : Time} {key : Key} {state : PushState}
    (free : ∀ manager, state.manager = some manager → manager.queue key = []) :
    tryWake now key state = (state, false) := by
  unfold tryWake
  split
  · rfl
  · rename_i manager found
    rw [BlockingManager.wakeClient, free manager found]

theorem pushSteps_free (push : Store → Time → Key → Bytes → Store × Int) (now : Time) (key : Key)
    (manager : Option BlockingManager) (free : ∀ blocking, manager = some blocking →
      blocking.queue key = []) (values : List Bytes) (store : Store) (count : Int) :
    values.foldl (pushStep push now key) ⟨store, manager, count, []⟩ =
      ⟨(values.foldl (fun (state : Store × Int) value => push state.1 now key value)
          (store, count)).1, manager,
        (values.foldl (fun (state : Store × Int) value => push state.1 now key value)
          (store, count)).2, []⟩ := by
  induction values generalizing store count with
  | nil => simp only [List.foldl_nil]
  | cons value values ih =>
    have turn : pushStep push now key ⟨store, manager, count, []⟩ value =
        ⟨(push store now key value).1, manager, (push store now key value).2, []⟩ := by
      rw [pushStep, tryWake_free free]
    simp only [List.foldl_cons, turn, ih]

theorem handlePushWithBlocking_free
    (pushIfValidType : Store → Time → Key → Bytes → Store × Option Int)
    (push : Store → Time → Key → Bytes → Store × Int) (store : Store)
    (manager : Option BlockingManager) (now : Time) (args : List Bytes)
    (free : ∀ blocking, manager = some blocking → blocking.queue (args.getD 1 []) = []) :
    handlePushWithBlocking pushIfValidType push store manager now args =
      (handlePush pushIfValidType push store now args).map fun result =>
        ⟨result.1, manager, false, result.2, []⟩ := by
  unfold handlePushWithBlocking handlePush
  split
  · rename_i key value values
    split
    · rfl
    rename_i after count found
    rw [tryWake_free free]
    dsimp only
    rw [pushSteps_free push now key manager free]
    rfl
  · rfl

theorem readWithBlocking_unblocked (store : Store) (manager : Option BlockingManager) (now : Time)
    (fd : Fd) (args : List Bytes) (steady : store.NoExpiry) :
    ∃ reply, readWithBlocking store manager now fd none args =
      ⟨store, manager, false, reply, []⟩ := by
  have kept := fun streams => steady.reads (readStreams_reads now streams store)
  unfold readWithBlocking
  dsimp only
  split
  · exact ⟨_, rfl⟩
  split
  · exact ⟨_, rfl⟩
  split
  · exact ⟨_, rfl⟩
  · simp only [kept]
    exact ⟨_, rfl⟩

theorem handleXread_unblocked (store : Store) (manager : Option BlockingManager) (now : Time)
    (fd : Fd) (args : List Bytes) (steady : store.NoExpiry)
    (unblocked : toUpper (args.getD 1 []) ≠ ascii "BLOCK") :
    ∃ reply, handleXreadWithBlocking store manager now fd args =
      ⟨store, manager, false, reply, []⟩ := by
  unfold handleXreadWithBlocking
  split
  · rename_i option rest
    rw [List.getD_cons_succ, List.getD_cons_zero] at unblocked
    rw [if_neg unblocked]
    exact readWithBlocking_unblocked store manager now fd _ steady
  · exact readWithBlocking_unblocked store manager now fd _ steady

namespace Command

/-- The command runs alike everywhere: a read that cannot block, or a write that
sets no expiry time, takes no ID from the clock and has its pairs complete. -/
def isSteady (args : List Bytes) : Command → Bool
  | .ping | .echo | .get | .llen | .lrange | .type | .keys | .zrank | .zrange | .zcard | .zscore
  | .geopos | .geodist | .geosearch | .xrange | .info => true
  | .mset | .incr | .rpush | .lpush | .lpop | .rpop | .zrem | .geoadd => true
  | .xread => toUpper (args.getD 1 []) ≠ ascii "BLOCK"
  | .set => (args.drop 3).all fun option =>
    toUpper option ≠ ascii "EX" ∧ toUpper option ≠ ascii "PX"
  | .zadd => args.length % 2 = 0
  | .xadd => args.getD 2 [] ≠ ascii "*"
  | _ => false

def wakes : Command → Bool
  | .rpush | .lpush | .xadd => true
  | _ => false

def Leaves (command : Command) (args : List Bytes) (store after : Store) : Prop :=
  ∀ (state : HandlerState) (now : Instant) (forked : Bool) (fd : Fd) (send : Bool),
    state.store = store → (command.wakes = true → state.FreeAt (args.getD 1 [])) →
    ∃ reply, command.handler state now forked fd send args =
      .ok ⟨{ state with store := after }, .normal, reply, [], false⟩

def HasEffect (command : Command) (args : List Bytes) (store : Store) : Prop :=
  ∃ after : Store, after.NoExpiry ∧ (isWriteCommand command.name = false → after = store) ∧
    command.Leaves args store after

end Command

theorem onBlocking_plain (state : HandlerState) (send : Bool)
    (handled : Except Fault (Store × Bytes)) :
    state.onBlocking send (handled.map fun result =>
      ⟨result.1, state.blockingManager, false, result.2, []⟩) = state.onStore handled := by
  cases handled with
  | error fault => rfl
  | ok result => rfl

theorem handleXaddWithBlocking_free (store : Store) (manager : Option BlockingManager)
    (now : Instant) (args : List Bytes)
    (free : ∀ blocking, manager = some blocking → blocking.queue (args.getD 1 []) = []) :
    handleXaddWithBlocking store manager now args =
      ((handleXaddWithBlocking store none now args).map fun outcome =>
        (outcome.store, outcome.reply)).map fun result =>
          ⟨result.1, manager, false, result.2, []⟩ := by
  unfold handleXaddWithBlocking
  split
  · rename_i key id fields
    split
    · rfl
    split
    · rfl
    split
    · rfl
    cases manager with
    | none => rfl
    | some blocking =>
      have empty : blocking.queue key = [] := free blocking rfl
      simp only [empty, List.length_nil, wakeStreamClients]
      rfl
  · rfl

def bareState (store : Store) : HandlerState :=
  (CommandContext.fresh store ⟨none, [], [], []⟩ (fun _ => ⟨0, 0⟩) fun _ => false).toHandlerState

namespace Command

def write (args : List Bytes) (store : Store) (now : Instant) :
    Command → Except Fault (Store × Bytes)
  | .set => handleSet store now.steady args
  | .mset => handleMset store now.steady args
  | .incr => handleIncr store now.steady args
  | .rpush => handleRpush store now.steady args
  | .lpush => handleLpush store now.steady args
  | .lpop => handleLpop store now.steady args
  | .rpop => handleRpop store now.steady args
  | .zadd => handleZadd store now.steady args
  | .zrem => handleZrem store now.steady args
  | .geoadd => handleGeoadd store now.steady args
  | .xadd => (handleXaddWithBlocking store none now args).map fun outcome =>
    (outcome.store, outcome.reply)
  | _ => .ok (store, [])

theorem handler_write {command : Command} (writes : isWriteCommand command.name = true)
    {state : HandlerState} (free : command.wakes = true → state.FreeAt (args.getD 1 []))
    (now : Instant) (forked : Bool) (fd : Fd) (send : Bool) :
    command.handler state now forked fd send args =
      state.onStore (command.write args state.store now) := by
  cases command with
  | set | mset | incr | lpop | rpop | zadd | zrem | geoadd => rfl
  | rpush | lpush =>
    cases send with
    | false => rfl
    | true =>
      refine Eq.trans ?_ (onBlocking_plain state true _)
      exact congrArg (state.onBlocking true)
        (handlePushWithBlocking_free _ _ _ _ _ _ (free rfl))
  | xadd =>
    refine Eq.trans ?_ (onBlocking_plain state send _)
    exact congrArg (state.onBlocking send) (handleXaddWithBlocking_free _ _ _ _ (free rfl))
  | ping | echo | get | llen | lrange | blpop | type | keys | zrank | zrange | zcard | zscore
  | geopos | geodist | geosearch | xrange | xread | info | bgrewriteaof | config | acl | auth
  | replconf | wait | psync | subscribe | unsubscribe | publish =>
    exact absurd writes (by decide)

theorem bareState_freeAt (store : Store) (key : Key) : (bareState store).FreeAt key :=
  fun _ present => by cases present

theorem write_related {related : Store → Store → Prop} {left right : Store} {now later : Instant}
    {command : Command} (writes : isWriteCommand command.name = true)
    (kept : ∀ operation, command.Uses args operation → operation.Keeps related now later)
    (same : related left right) :
    Alike (fun _ => command.Faulty args) (Matches related) (command.write args left now)
      (command.write args right later) := by
  have data : command.readsClock = true ∧ command ≠ .bgrewriteaof := by
    cases command <;> first | exact absurd writes (by decide) | exact ⟨rfl, by decide⟩
  have alike : Alike (command.Fails args true) (Outcome.Related related)
      (command.handler (bareState left) now false 0 true args)
      (command.handler (bareState right) later false 0 true args) :=
    handler_related data.1 data.2 kept (bareState left) same false 0
  rw [handler_write writes fun _ => bareState_freeAt left _,
    handler_write writes fun _ => bareState_freeAt right _] at alike
  change Alike _ _ ((bareState left).onStore (command.write args left now))
    ((bareState right).onStore (command.write args right later)) at alike
  generalize command.write args left now = one at alike ⊢
  generalize command.write args right later = other at alike ⊢
  cases one with
  | error fault =>
    cases other with
    | error fault =>
      cases alike with
      | fault failed =>
        rcases failed with faulty | silent
        · exact .fault faulty.1
        · cases silent.2.1
    | ok done => cases alike
  | ok result =>
    cases other with
    | error fault => cases alike
    | ok done => exact .ok ⟨alike.of_ok.2, alike.of_ok.1⟩

theorem danglingScore_even {pairs : List Bytes} (even : pairs.length % 2 = 0) :
    danglingScore pairs = false := by
  fun_induction danglingScore pairs with
  | case1 => rfl
  | case2 => simp at even
  | case3 score _ rest ih =>
    rw [ih (by simp only [List.length_cons] at even; omega), Bool.and_false]

variable {command : Command} {store : Store}

theorem Uses.timeless {operation : Operation} (writes : isWriteCommand command.name = true)
    (fits : command.isSteady args = true) (used : command.Uses args operation) :
    operation.timeless = true := by
  cases used with
  | reads reader => exact absurd (reader.symm.trans writes) (by decide)
  | set parsed =>
    rw [setOptions_plain _ none (by simpa [isSteady] using fits)] at parsed
    cases parsed
    rfl
  | xadd => simpa [isSteady, Operation.timeless] using fits
  | blpop => cases fits
  | _ => rfl

theorem not_faulty (arity : command.minArgs ≤ args.length) (fits : command.isSteady args = true) :
    ¬command.Faulty args := by
  rintro (short | ⟨rfl, dangling⟩)
  · omega
  · have even : args.length % 2 = 0 := by simpa [isSteady] using fits
    have pairs : (args.drop 2).length % 2 = 0 := by
      rw [List.length_drop]
      omega
    rw [danglingScore_even pairs] at dangling
    cases dangling

theorem writer_effect (writes : isWriteCommand command.name = true)
    (arity : command.minArgs ≤ args.length) (fits : command.isSteady args = true)
    (steady : store.NoExpiry) : command.HasEffect args store := by
  have alike : ∀ now : Instant, Alike (fun _ => command.Faulty args)
      (Matches fun left right => left = right ∧ left.NoExpiry)
      (command.write args store ⟨0, 0⟩) (command.write args store now) := by
    intro now
    refine write_related writes (fun operation used => ?_) ⟨rfl, steady⟩
    rintro left _ ⟨rfl, steady⟩
    have same := Operation.call_steady (used.timeless writes fits) steady
    exact ⟨congrArg Prod.snd (same.timeless _ _), congrArg Prod.fst (same.timeless _ _),
      same.noExpiry _⟩
  obtain ⟨⟨after, reply⟩, _, ran, -, -, -, kept⟩ :=
    (alike ⟨0, 0⟩).exists_ok fun _ => not_faulty arity fits
  refine ⟨after, kept, fun reader => absurd (reader.symm.trans writes) (by decide), ?_⟩
  intro state now forked fd send same free
  obtain ⟨_, ⟨_, said⟩, first, second, -, rfl, -⟩ :=
    (alike now).exists_ok fun _ => not_faulty arity fits
  rw [ran] at first
  cases first
  exact ⟨said, by rw [handler_write writes free, same, second]; rfl⟩

theorem reader_effect (data : command.readsClock = true)
    (plain : command ∉ [.rpush, .lpush, .blpop, .xadd, .xread, .bgrewriteaof])
    (reader : isWriteCommand command.name = false) (arity : command.minArgs ≤ args.length)
    (fits : command.isSteady args = true) (steady : store.NoExpiry) :
    command.HasEffect args store := by
  refine ⟨store, steady, fun _ => rfl, ?_⟩
  rintro state now forked fd send rfl -
  have kept : ∀ operation, command.Uses args operation → operation.Keeps
      (fun left right => left = right ∧ left = state.store) now now := by
    rintro operation used left _ ⟨rfl, rfl⟩
    refine ⟨rfl, rfl, ?_⟩
    cases used with
    | reads _ passes => exact steady.reads (operation.reads_of_touchless passes)
    | blpop => cases fits
    | _ => exact absurd reader (by decide)
  have alike := @handler_related args send _ state.store now now command data
    (fun rewrites => plain (by simp [rewrites])) kept state ⟨rfl, rfl⟩ forked fd
  cases handled : command.handler state now forked fd send args with
  | error fault =>
    rw [handled] at alike
    rcases alike.of_error with ⟨faulty, -⟩ | ⟨blocks, -⟩
    · exact absurd faulty (not_faulty arity fits)
    · simp only [List.mem_cons, List.not_mem_nil, or_false] at blocks plain
      tauto
  | ok outcome =>
    rw [handled] at alike
    have here := alike.of_ok.1.2
    cases Command.handled handled with
    | store after reply =>
      obtain rfl : after = state.store := here
      exact ⟨reply, rfl⟩
    | blocking _ member =>
      simp only [List.mem_cons, List.not_mem_nil, or_false] at member plain
      tauto
    | replied reply => exact ⟨reply, rfl⟩
    | bgrewriteaof => exact absurd (by decide) plain
    | _ => cases data

theorem steady_effect (command : Command) {store : Store} (arity : command.minArgs ≤ args.length)
    (fits : command.isSteady args = true) (steady : store.NoExpiry) :
    command.HasEffect args store := by
  cases command with
  | get | llen | lrange | zrange | type | keys | zrank | zcard | zscore | geopos | geodist
  | geosearch | xrange =>
    exact reader_effect rfl (by decide) (by decide) arity fits steady
  | set | mset | incr | lpop | rpop | zadd | zrem | geoadd | rpush | lpush | xadd =>
    exact writer_effect (by decide) arity fits steady
  | xread =>
    refine ⟨store, steady, fun _ => rfl, ?_⟩
    intro state now forked fd send same free
    obtain ⟨reply, handled⟩ := handleXread_unblocked store state.blockingManager now.steady fd
      args steady (by simpa [isSteady] using fits)
    refine ⟨reply, ?_⟩
    rw [handler, same, handled]
    rfl
  | ping | info =>
    refine ⟨store, steady, fun _ => rfl, ?_⟩
    rintro state now forked fd send rfl free
    exact ⟨_, rfl⟩
  | echo =>
    refine ⟨store, steady, fun _ => rfl, ?_⟩
    rintro state now forked fd send rfl free
    rcases args with _ | ⟨name, _ | ⟨message, rest⟩⟩ <;> simp [minArgs] at arity
    exact ⟨_, rfl⟩
  | blpop | bgrewriteaof | config | acl | auth | replconf | wait | psync | subscribe
  | unsubscribe | publish => cases fits

end Command

end Credis
