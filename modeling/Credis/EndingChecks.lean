import Credis.KindChecks
import Credis.ThresholdChecks

/-! Which commands end a call of `process_with_fd`, told by their arguments and by the state
that they meet: a `BLPOP` or a blocking `XREAD` that finds nothing, a `WAIT`, a `PSYNC`. -/

namespace Credis

open ByteString

namespace Store

theorem lpopCount_isEmpty (store : Store) (now : Time) (key : Key) :
    (store.lpopCount now key 1).2.isEmpty = ((store.foundList now key).getD []).isEmpty := by
  have popped := congrArg Prod.snd (popMany_acts now key takeFront 1 store)
  dsimp only at popped
  rw [lpopCount, popped]
  unfold foundList liveValue actOn popManyAct content
  cases store.liveEntry now key with
  | none => rfl
  | some entry =>
    obtain ⟨value, expiry⟩ := entry
    cases value with
    | list items =>
      cases items with
      | nil => rfl
      | cons first rest => simp [Value.list?, takeMany, takeFront]
    | string _ | stream _ | zset _ => rfl

/-- The `BLPOP` finds no list with an element, and its timeout is no error. -/
def blpopWaits (store : Store) (now : Time) : List Bytes → Bool
  | _ :: key :: timeout :: _ =>
    (Double.parse timeout).any (fun seconds => !decide (seconds < 0)) &&
      ((store.foundList now key).getD []).isEmpty
  | _ => false

theorem blpopWaits_short {store : Store} {now : Time} {args : List Bytes}
    (short : args.length < 3) : store.blpopWaits now args = false := by
  unfold blpopWaits
  split
  · simp only [List.length_cons] at short
    omega
  · rfl

/-- What is named behind `STREAMS` is one stream without an entry behind the ID. -/
def isReadUp (store : Store) (now : Time) : List Bytes → Bool
  | [key, id] => (store.xread now key (resolveId store now key id).2).2.isEmpty
  | _ => false

theorem isReadUp_length {store : Store} {now : Time} {names : List Bytes}
    (other : names.length ≠ 2) : store.isReadUp now names = false := by
  unfold isReadUp
  split
  · exact absurd rfl other
  · rfl

def xreadWaits (store : Store) (now : Time) : List Bytes → Bool
  | _ :: option :: timeout :: args =>
    decide (toUpper option = ascii "BLOCK") && (parseInt64 timeout).isSome &&
      store.isReadUp now ((args.dropWhile fun arg => toUpper arg ≠ ascii "STREAMS").drop 1)
  | _ => false

theorem xreadWaits_short {store : Store} {now : Time} {args : List Bytes}
    (short : args.length < 4) : store.xreadWaits now args = false := by
  unfold xreadWaits
  split
  · rename_i rest
    have vacant : rest = [] := by
      simp only [List.length_cons] at short
      exact List.eq_nil_of_length_eq_zero (by omega)
    rw [vacant, isReadUp_length (by simp), Bool.and_false]
  · rfl

end Store

section Handlers

variable {store : Store} {manager : Option BlockingManager} {now : Time} {fd : Fd}
  {args : List Bytes}

theorem handleBlpop_blocked {outcome : BlockingOutcome}
    (done : handleBlpop store manager now fd args = .ok outcome) :
    outcome.blocked = (manager.isSome && store.blpopWaits now args) := by
  unfold handleBlpop at done
  split at done
  · rename_i key timeout _
    rw [Store.blpopWaits, ← Store.lpopCount_isEmpty]
    split at done
    · rename_i unread
      cases done
      simp [unread]
    rename_i seconds parsed
    split at done
    · rename_i negative
      cases done
      simp [parsed, negative]
    rename_i allowed
    split at done
    · rename_i popped
      cases done
      simp [popped]
    rename_i popped
    split at done
    · cases done
      simp [parsed, allowed, popped]
    · cases done
      rfl
  · cases done

theorem resolveId_reads (store : Store) (now : Time) (key : Key) (id : Bytes) :
    Store.Reads now store (resolveId store now key id).1 := by
  unfold resolveId
  split
  · exact @Store.Operation.reads_of_touchless (.getStreamMaxId key) store ⟨now, 0⟩ rfl
  · exact .refl

theorem readStreams_single (store : Store) (now : Time) (key : Key) (id : Bytes) :
    (readStreams now [(key, id)] store).2 =
      [(key, (store.xread now key (resolveId store now key id).2).2)] := by
  simp only [readStreams]
  rw [(resolveId_reads store now key id).xread]

theorem readWithBlocking_blocked (store : Store) (manager : Option BlockingManager) (now : Time)
    (fd : Fd) (block : Option Int) (args : List Bytes) :
    (readWithBlocking store manager now fd block args).blocked =
      (manager.isSome && (block.isSome && store.isReadUp now
        ((args.dropWhile fun arg => toUpper arg ≠ ascii "STREAMS").drop 1))) := by
  unfold readWithBlocking
  dsimp only
  generalize args.dropWhile _ = behind
  split
  · rename_i nothing
    rw [nothing, Store.isReadUp_length (by simp)]
    simp
  generalize behind.drop 1 = names
  split
  · rename_i odd
    rw [Store.isReadUp_length (by omega)]
    simp
  rename_i even
  cases block with
  | none =>
    rw [if_neg (by simp)]
    simp
  | some timeoutMs =>
    split
    · rename_i several
      rw [Store.isReadUp_length fun two => several.2 (by simp [two])]
      simp
    rename_i single
    -- one stream is one key and one ID
    obtain ⟨key, id, rfl⟩ : ∃ key id, names = [key, id] := by
      simp only [List.length_zip, List.length_take, List.length_drop, Option.isSome_some,
        true_and, ne_eq, not_not] at single
      exact List.length_eq_two.mp (by omega)
    have read := readStreams_single store now key id
    simp only [List.length_cons, List.length_nil, List.take, List.drop, List.zip_cons_cons,
      List.zip_nil_right, Nat.reduceAdd, Nat.reduceDiv]
    generalize readStreams now [(key, id)] store = done at read
    obtain ⟨after, results⟩ := done
    cases read
    dsimp only
    split
    · rename_i found
      have filled : (store.xread now key (resolveId store now key id).2).2 ≠ [] := by
        simpa using found
      simp [Store.isReadUp, filled]
    · rename_i nothing
      cases manager with
      | none => rfl
      | some blocking => simpa [Store.isReadUp] using nothing

theorem handleXread_blocked (store : Store) (manager : Option BlockingManager) (now : Time)
    (fd : Fd) (args : List Bytes) :
    (handleXreadWithBlocking store manager now fd args).blocked =
      (manager.isSome && store.xreadWaits now args) := by
  unfold handleXreadWithBlocking
  split
  · rename_i name option rest
    split
    · rename_i blocks
      split
      · simp [Store.xreadWaits]
      · rename_i timeout args
        rw [Store.xreadWaits, decide_eq_true blocks, Bool.true_and]
        split
        · rename_i unread
          simp [unread]
        · rename_i parsed
          rw [readWithBlocking_blocked, parsed]
    · rename_i plain
      rw [readWithBlocking_blocked]
      cases rest <;> simp [Store.xreadWaits, plain]
  · rename_i short
    rw [readWithBlocking_blocked]
    rcases args with _ | ⟨name, _ | ⟨option, rest⟩⟩
    · simp [Store.xreadWaits]
    · simp [Store.xreadWaits]
    · exact (short name option rest rfl).elim

end Handlers

namespace HandlerState

/-- The command is going to block: it is a `BLPOP` or an `XREAD` that has to wait. -/
def willBlock (state : HandlerState) (cmd : Bytes) (args : List Bytes) : Bool :=
  state.blockingManager.isSome &&
    if cmd = ascii "BLPOP" then state.store.blpopWaits (state.clock state.ticks).steady args
    else if cmd = ascii "XREAD" then state.store.xreadWaits (state.clock state.ticks).steady args
    else false

def isWait : List Bytes → Bool
  | _ :: numreplicas :: timeout :: _ =>
    (parseInt64 numreplicas).isSome && (parseInt64 timeout).isSome
  | _ => false

/-- The command is going to end the call: it blocks, it is a `WAIT` with two numbers or a
`PSYNC`. -/
def willEnd (state : HandlerState) (cmd : Bytes) (args : List Bytes) : Bool :=
  if cmd = ascii "WAIT" then isWait args
  else if cmd = ascii "PSYNC" then !args.isEmpty
  else state.willBlock cmd args

theorem handleWait_normal (args : List Bytes) :
    (handleWait args).1 = .normal ↔ isWait args = false := by
  unfold handleWait isWait
  split
  · rename_i numreplicas timeout _
    split
    · rename_i first second
      simp [first, second]
    · rename_i other
      refine iff_of_true rfl (Bool.eq_false_iff.mpr fun both => ?_)
      rw [Bool.and_eq_true, Option.isSome_iff_exists, Option.isSome_iff_exists] at both
      obtain ⟨⟨number, first⟩, time, second⟩ := both
      exact other number time first second
  · simp

end HandlerState

namespace Execution

variable {execution : Execution}

theorem Runs.block_iff (runs : execution.Runs) :
    execution.outcome.result = .block ↔
      execution.before.willBlock execution.cmd execution.args = true := by
  have told : ∀ {result : BlockingOutcome}, execution.Leaves result →
      (execution.outcome.result = .block ↔ result.blocked = true) := by
    intro result leaves
    rw [leaves.result]
    cases result.blocked <;> simp
  have silent : ∀ {reply : Bytes} {waits : Bool},
      execution.outcome = execution.before.replied reply → waits = false →
      (execution.outcome.result = .block ↔
        (execution.before.blockingManager.isSome && waits) = true) := by
    rintro reply waits replied rfl
    rw [replied]
    simp [HandlerState.replied]
  unfold HandlerState.willBlock
  split
  · rename_i blpop
    rcases @Runs.named execution runs .blpop blpop with ⟨short, replied⟩ | ⟨-, called⟩
    · exact silent replied (Store.blpopWaits_short short)
    · obtain ⟨result, handled, leaves⟩ := called.blpop
      rw [told leaves, handleBlpop_blocked handled]
      rfl
  rename_i other
  split
  · rename_i xread
    rcases @Runs.named execution runs .xread xread with ⟨short, replied⟩ | ⟨-, called⟩
    · exact silent replied (Store.xreadWaits_short short)
    · rw [told called.xread, handleXread_blocked]
      rfl
  · rename_i neither
    rw [Bool.and_false]
    refine iff_of_false ?_ (by simp)
    cases runs.moves with
    | stays goes | pushes _ goes | adds _ goes => exact goes
    | blocks name => exact (name.elim other neither).elim

theorem Runs.normal_or_block (runs : execution.Runs) (wait : execution.cmd ≠ ascii "WAIT")
    (psync : execution.cmd ≠ ascii "PSYNC") :
    execution.outcome.result = .normal ∨ execution.outcome.result = .block := by
  rcases runs.cases with ⟨reply, replied⟩ | ⟨command, name, -, called⟩
  · rw [replied]
    exact .inl rfl
  · unfold Calls at called
    generalize execution.outcome = outcome at called
    cases Command.handled called with
    | blocking result _ =>
      dsimp only
      split
      · exact .inr rfl
      · exact .inl rfl
    | wait => exact (wait name).elim
    | psync => exact (psync name).elim
    | _ => exact .inl rfl

theorem Runs.normal_iff (runs : execution.Runs) :
    execution.outcome.result = .normal ↔
      execution.before.willEnd execution.cmd execution.args = false := by
  unfold HandlerState.willEnd
  split
  · rename_i wait
    rw [← HandlerState.handleWait_normal]
    rcases @Runs.named execution runs .wait wait with ⟨short, replied⟩ | ⟨-, called⟩
    · rw [replied]
      refine iff_of_true rfl ?_
      rw [HandlerState.handleWait_normal]
      unfold HandlerState.isWait
      split
      · rename_i given
        simp only [given, List.length_cons, Command.minArgs] at short
        omega
      · rfl
    · have done : (.ok ⟨execution.before, (handleWait execution.args).1,
          (handleWait execution.args).2, [], false⟩ : Except Fault Outcome) =
          .ok execution.outcome := called
      rw [← Except.ok.inj done]
  rename_i other
  split
  · rename_i psync
    rcases @Runs.named execution runs .psync psync with ⟨short, replied⟩ | ⟨enough, called⟩
    · rw [replied, List.eq_nil_of_length_eq_zero (Nat.lt_one_iff.mp short)]
      exact iff_of_true rfl rfl
    · have done : (.ok ⟨execution.before, .replicaHandshake, handlePsync execution.before, [],
          false⟩ : Except Fault Outcome) = .ok execution.outcome := called
      have given : execution.args ≠ [] := List.length_pos_iff.mp enough
      rw [← Except.ok.inj done]
      simp [given]
  · rename_i neither
    rw [← Bool.not_eq_true, ← runs.block_iff]
    rcases runs.normal_or_block other neither with normal | block
    · simp [normal]
    · simp [block]

end Execution

end Credis
