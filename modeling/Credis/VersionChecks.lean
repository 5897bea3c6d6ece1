import Credis.TransactionLogChecks
import Credis.WatchChecks

/-! What the operations of the keyspace do to the versions of the keys, and to the
transactions that watch them. -/

namespace Credis

open ByteString

variable {final start store : Store} {keys : List Key} {results : List Returned}
  {steps : List (Instant × Operation)}

namespace Store

/-- At every instant from the operation on: a key whose live value differs has a
greater version, no version is smaller, and only the key argument is affected. -/
theorem change_bumps_version (store : Store) (operation : Operation) (now : Instant)
    {moment : Time} (later : now.steady ≤ moment) (key : Key) :
    let after := (operation.call store now).1
    (after.liveValue moment key ≠ store.liveValue moment key →
      store.getKeyVersion key < after.getKeyVersion key) ∧
    store.getKeyVersion key ≤ after.getKeyVersion key ∧
    (operation.key? ≠ some key → after.liveValue moment key = store.liveValue moment key ∧
      after.getKeyVersion key = store.getKeyVersion key) := by
  intro after
  have effect := call_effect store now operation
  have evolves := effect.evolves later
  refine ⟨evolves.changes key, evolves.versions key, fun other => ?_⟩
  have same := effect.version_eq_of_ne other
  refine ⟨?_, same⟩
  by_contra differs
  have grown := evolves.changes key differs
  omega

theorem first_push_bumps_version :
    empty.getKeyVersion (ascii "k") <
      ((Operation.rpush (ascii "k") (ascii "v")).call empty ⟨0, 0⟩).1.getKeyVersion (ascii "k") ∧
    ((Operation.rpush (ascii "k") (ascii "v")).call empty ⟨0, 0⟩).1.getKeyVersion (ascii "j") =
      empty.getKeyVersion (ascii "j") := by
  have own := change_bumps_version empty (.rpush (ascii "k") (ascii "v")) ⟨0, 0⟩ (Int.le_refl 0)
    (ascii "k")
  have other := change_bumps_version empty (.rpush (ascii "k") (ascii "v")) ⟨0, 0⟩ (Int.le_refl 0)
    (ascii "j")
  refine ⟨own.1 ?_, (other.2.2 (by decide +kernel)).2⟩
  intro same
  have present := congrArg Option.isSome same
  revert present
  decide +kernel

theorem touchlessOn_of_report {now : Instant} {operation : Operation}
    (nothing : operation.reportsNoChange (operation.call store now).2 = true) :
    operation.touchlessOn store now.steady = operation.checksFirst store now.steady := by
  cases operation with
  | set | rpush | lpush | zadd => cases nothing
  | setIfValidType key value ttlMs =>
    refine (setIfValidType_acts now.steady key value ttlMs).refused fun _ accepted => ?_
    rw [Operation.call, Operation.returning, accepted] at nothing
    cases nothing
  | rpushIfValidType key value =>
    refine (pushIfValidType_acts now.steady key pushBack value rfl).refused fun _ accepted => ?_
    rw [Operation.call, Operation.returning, rpushIfValidType, accepted] at nothing
    cases nothing
  | lpushIfValidType key value =>
    refine (pushIfValidType_acts now.steady key pushFront value rfl).refused fun _ accepted => ?_
    rw [Operation.call, Operation.returning, lpushIfValidType, accepted] at nothing
    cases nothing
  | zaddIfValidType key score member =>
    refine (zaddIfValidType_acts now.steady key score member).refused fun _ accepted => ?_
    rw [Operation.call, Operation.returning, accepted] at nothing
    cases nothing
  | _ => rfl

def perform (store : Store) (step : Instant × Operation) : Except Fault (Store × Returned) :=
  .ok (step.2.call store step.1)

def FailsOn (keys : List Key) (store : Store) (step : Instant × Operation) : Prop :=
  (∃ key ∈ keys, step.2.key? = some key) →
    step.2.reportsNoChange (step.2.call store step.1).2 = true

def TouchlessOn (keys : List Key) (store : Store) (step : Instant × Operation) : Prop :=
  (∃ key ∈ keys, step.2.key? = some key) → step.2.touchlessOn store step.1.steady = true

def ChecksFirst (keys : List Key) (store : Store) (step : Instant × Operation) : Prop :=
  (∃ key ∈ keys, step.2.key? = some key) → step.2.checksFirst store step.1.steady = true

instance (keys : List Key) (store : Store) (step : Instant × Operation) :
    Decidable (FailsOn keys store step) :=
  inferInstanceAs (Decidable (_ → _))

instance (keys : List Key) (store : Store) (step : Instant × Operation) :
    Decidable (ChecksFirst keys store step) :=
  inferInstanceAs (Decidable (_ → _))

variable {step : Instant × Operation}

theorem call_versions :
    TouchlessOn keys store step ↔
      ∀ key ∈ keys, (step.2.call store step.1).1.getKeyVersion key = store.getKeyVersion key := by
  have effect := call_effect store step.1 step.2
  constructor
  · intro passes key member
    by_cases own : step.2.key? = some key
    · exact (effect.version_eq_iff own).mpr (passes ⟨key, member, own⟩)
    · exact effect.version_eq_of_ne own
  · rintro kept ⟨key, member, own⟩
    exact (effect.version_eq_iff own).mp (kept key member)

theorem perform_cons (ran : Run.run perform start (step :: steps) = .ok (final, results)) :
    ∃ later, Run.run perform (step.2.call start step.1).1 steps = .ok (final, later) := by
  obtain ⟨next, result, later, taken, rest, -⟩ := Run.run_cons ran
  obtain rfl : (step.2.call start step.1).1 = next := congrArg Prod.fst (Except.ok.inj taken)
  exact ⟨later, rest⟩

theorem run_versions_le (ran : Run.run perform start steps = .ok (final, results)) (key : Key) :
    start.getKeyVersion key ≤ final.getKeyVersion key := by
  induction steps generalizing start results with
  | nil =>
    cases ran
    exact Nat.le_refl _
  | cons step steps ih =>
    obtain ⟨later, rest⟩ := perform_cons ran
    have first := ((call_effect start step.1 step.2).evolves (Int.le_refl _)).versions key
    exact Nat.le_trans first (ih rest)

theorem run_versions (ran : Run.run perform start steps = .ok (final, results))
    (failing : Run.Along perform (FailsOn keys) start steps) :
    (∀ key ∈ keys, final.getKeyVersion key = start.getKeyVersion key) ↔
      Run.Along perform (ChecksFirst keys) start steps := by
  induction steps generalizing start results with
  | nil =>
    cases ran
    simp [Run.Along]
  | cons step steps ih =>
    obtain ⟨later, rest⟩ := perform_cons ran
    have first : TouchlessOn keys start step ↔ ChecksFirst keys start step :=
      forall_congr' fun named => by rw [touchlessOn_of_report (failing.1 named)]
    have here := first.symm.trans call_versions
    have ends := ih rest failing.2
    simp only [Run.Along, perform, here]
    constructor
    · intro kept
      have first : ∀ key ∈ keys,
          (step.2.call start step.1).1.getKeyVersion key = start.getKeyVersion key := by
        intro key member
        have low := ((call_effect start step.1 step.2).evolves (Int.le_refl _)).versions key
        have high := run_versions_le rest key
        have same := kept key member
        omega
      refine ⟨first, ends.mp fun key member => ?_⟩
      rw [kept key member, first key member]
    · rintro ⟨first, along⟩ key member
      rw [ends.mpr along key member, first key member]

end Store

theorem CommandContext.isDirty_iff {store since : Store} {tx : TransactionState} {keys : List Key}
    (watched : tx.watchedKeys = (watchKeys since TransactionState.fresh keys).watchedKeys) :
    isDirty store tx = false ↔
      ∀ key ∈ keys, store.getKeyVersion key = since.getKeyVersion key := by
  have known : ∀ key, tx.watchedKeys.lookup key =
      if key ∈ keys then some (since.getKeyVersion key) else none := by
    intro key
    rw [watched, watchKeys_lookup]
    simp [TransactionState.fresh]
  simp only [isDirty, List.any_eq_false, bne_iff_ne, ne_eq, Decidable.not_not]
  constructor
  · intro clean key member
    have entry := known key
    rw [if_pos member] at entry
    exact clean ⟨key, _⟩ (AList.mem_lookup_iff.mp entry)
  · rintro kept ⟨key, version⟩ member
    have entry := known key
    rw [AList.mem_lookup_iff.mpr member] at entry
    split at entry
    · rename_i named
      rw [kept key named]
      exact (Option.some.inj entry).symm
    · cases entry

/-- Since a client has read the versions of the keys it watches, the operations on
them have reported that they changed nothing. The versions are as they were, and
the `EXEC` of the client runs, exactly when none of them touched the key first. -/
theorem failed_operations_keep_watches_iff {start final : Store} {keys : List Key}
    {steps : List (Instant × Store.Operation)} {results : List Store.Returned}
    {ctx : CommandContext} {request : Request}
    (ran : Run.run Store.perform start steps = .ok (final, results))
    (failing : Run.Along Store.perform (Store.FailsOn keys) start steps)
    (current : ctx.store = final)
    (watched : (ctx.txGet request.fd).watchedKeys =
      (CommandContext.watchKeys start TransactionState.fresh keys).watchedKeys)
    (exec : request.name = ascii "EXEC") (passed : ctx.passes request = true)
    (inside : ctx.txInMulti request.fd = true) :
    ((∀ key ∈ keys, final.getKeyVersion key = start.getKeyVersion key) ↔
      Run.Along Store.perform (Store.ChecksFirst keys) start steps) ∧
    (ctx.commits request = true ↔
      Run.Along Store.perform (Store.ChecksFirst keys) start steps) := by
  have versions := Store.run_versions ran failing
  refine ⟨versions, ?_⟩
  have clean := @CommandContext.isDirty_iff ctx.store start _ keys watched
  rw [current, versions] at clean
  rw [← clean, ← current]
  simp [CommandContext.commits, exec, passed, inside]

def Store.withText : Store := Store.empty.set 0 (ascii "k") (ascii "v") none

def CommandContext.watchingText : CommandContext :=
  { twoClients 0 with store := Store.withText }.setTx 5
    { watchKeys Store.withText TransactionState.fresh [ascii "k"] with inMulti := true }

theorem refused_push_keeps_watch :
    CommandContext.watchingText.commits (.ofArgs 5 [ascii "EXEC"]) = true := by
  have kept := @failed_operations_keep_watches_iff Store.withText _ [ascii "k"]
    [(⟨0, 0⟩, .rpushIfValidType (ascii "k") (ascii "x")), (⟨0, 0⟩, .get (ascii "k"))] _
    CommandContext.watchingText (.ofArgs 5 [ascii "EXEC"]) rfl (by decide +kernel) rfl rfl
    (by decide) (by decide +kernel) (by decide +kernel)
  exact kept.2.mpr (by decide +kernel)

/-- Failed operations on a text and on an absent key that give the key a version,
and a pop of an absent list between `WATCH` and `EXEC`. -/
theorem failed_operations_touch_keys :
    (∀ operation ∈ [Store.Operation.incrIfValidType (ascii "k"), .incr (ascii "k"),
          .lpop (ascii "k"), .lpopCount (ascii "k") 1, .rpop (ascii "k"),
          .rpopCount (ascii "k") 1, .zrem (ascii "k") (ascii "m"), .del (ascii "j"),
          .xadd (ascii "j") (ascii "0-0") []],
        operation.reportsNoChange (operation.call Store.withText ⟨0, 0⟩).2 = true ∧
        ∃ key, operation.key? = some key ∧ Store.withText.getKeyVersion key <
          (operation.call Store.withText ⟨0, 0⟩).1.getKeyVersion key) ∧
    ∃ final, Run.run CommandContext.handle (CommandContext.twoClients 0)
        [.words 5 ["WATCH", "k"], .words 6 ["LPOP", "k"], .words 5 ["MULTI"],
          .words 5 ["EXEC"]] = .ok final ∧
      (final.2.map fun seen => seen.map fun seen => seen.effect.reply) =
        [some respOk, some encodeNullBulkString, some respOk, some encodeNullArray] := by
  refine ⟨?_, Run.Succeeds.ok (by decide +kernel)⟩
  simp only [List.forall_mem_cons, List.not_mem_nil, false_implies, implies_true, and_true]
  refine ⟨⟨?_, _, rfl, ?_⟩, ⟨?_, _, rfl, ?_⟩, ⟨?_, _, rfl, ?_⟩, ⟨?_, _, rfl, ?_⟩, ⟨?_, _, rfl, ?_⟩,
    ⟨?_, _, rfl, ?_⟩, ⟨?_, _, rfl, ?_⟩, ⟨?_, _, rfl, ?_⟩, ⟨?_, _, rfl, ?_⟩⟩ <;> decide +kernel

end Credis
