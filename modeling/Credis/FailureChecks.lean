import Credis.ExpiryChecks
import Credis.StreamIdChecks

/-! Writes that are answered with an error: what they leave of the keyspace. -/

namespace Credis

open ByteString CommandContext

variable {state : HandlerState} {outcome : Outcome} {send : Bool}

variable {now : Time} {args : List Bytes} {command : Command} {fd : Fd} {store : Store}

def IsError (reply : Bytes) : Prop := reply.head? = some 45

instance (reply : Bytes) : Decidable (IsError reply) :=
  inferInstanceAs (Decidable (_ = _))

namespace IsError

theorem encodeError (text : Bytes) : IsError (Credis.encodeError text) := rfl

theorem not_encodeInteger (value : Int) : ¬ IsError (encodeInteger value) := by
  rw [IsError, Credis.encodeInteger, List.cons_append, List.head?_cons]
  decide

theorem not_encodeBulkString (text : Bytes) : ¬ IsError (encodeBulkString text) := by
  rw [IsError, Credis.encodeBulkString, List.cons_append, List.cons_append, List.cons_append,
    List.head?_cons]
  decide

theorem not_encodeArray (elements : List Bytes) : ¬ IsError (encodeArray elements) := by
  rw [IsError, Credis.encodeArray, arrayHeader, List.cons_append, List.cons_append,
    List.head?_cons]
  decide

theorem not_optionalBulkString (text : Option Bytes) : ¬ IsError (optionalBulkString text) := by
  cases text with
  | none => decide
  | some text => exact not_encodeBulkString text

end IsError

namespace Store

variable {now : Time} {before after : Store}

/-- Every key has the same live value and the same expiry, from now on. -/
def Unchanged (now : Time) (before after : Store) : Prop :=
  ∀ moment, now ≤ moment → ∀ key, after.liveEntry moment key = before.liveEntry moment key

theorem Unchanged.of_data (same : after.data = before.data) : Unchanged now before after := by
  intro moment _ key
  rw [liveEntry, liveEntry, same]

end Store

def FailsClean (store : Store) (now : Time) (handled : Except Fault (Store × Bytes)) : Prop :=
  ∀ result, handled = .ok result → IsError result.2 → store.Unchanged now result.1

section Handlers

variable {store : Store} {now : Time}

theorem FailsClean.same (reply : Bytes) : FailsClean store now (.ok (store, reply)) := by
  intro result done _
  cases done
  exact .of_data rfl

theorem FailsClean.success {after : Store} {reply : Bytes} (fine : ¬ IsError reply) :
    FailsClean store now (.ok (after, reply)) := by
  intro result done failed
  cases done
  exact absurd failed fine

theorem FailsClean.fault (fault : Fault) : FailsClean store now (.error fault) := by
  intro result done
  cases done

open IsError

theorem handleSet_failsClean (args : List Bytes) :
    FailsClean store now (handleSet store now args) := by
  unfold handleSet
  split
  · rename_i key value options
    split
    · exact .same _
    split
    · exact .success (by decide)
    rename_i refused
    rw [(Store.setIfValidType_acts now key value _).failed (by simp) refused]
    exact .same _
  · exact .fault _

theorem handleIncr_failsClean (args : List Bytes) :
    FailsClean store now (handleIncr store now args) := by
  unfold handleIncr
  split
  · rename_i key rest
    split
    · rename_i refused
      -- only the version of a text that is no number moves
      unfold Store.incrIfValidType at refused
      split at refused
      · split at refused
        · cases refused
        · split at refused
          · dsimp only at refused
            split at refused
            · cases refused
              intro result done _
              cases done
              exact .of_data rfl
            · cases refused
          · cases refused
            exact .same _
      · cases refused
    · exact .success (not_encodeInteger _)
  · exact .fault _

theorem handleMset_failsClean (args : List Bytes) :
    FailsClean store now (handleMset store now args) := by
  unfold handleMset
  split
  · split
    · exact .same _
    · split
      · exact .success (by decide)
      · exact .same _
  · exact .fault _

theorem handlePop_failsClean (pop : Store → Time → Key → Store × Option Bytes)
    (popCount : Store → Time → Key → Int → Store × List Bytes) (args : List Bytes) :
    FailsClean store now (handlePop pop popCount store now args) := by
  unfold handlePop
  split
  · exact .success (not_optionalBulkString _)
  · split
    · exact .same _
    · split
      · exact .same _
      · exact .success (not_encodeArray _)
  · exact .fault _

theorem handleZrem_failsClean (args : List Bytes) :
    FailsClean store now (handleZrem store now args) := by
  unfold handleZrem
  split
  · exact .success (not_encodeInteger _)
  · exact .fault _

theorem handleGeoadd_failsClean (args : List Bytes) :
    FailsClean store now (handleGeoadd store now args) := by
  unfold handleGeoadd
  split
  · split
    · split
      · split
        · exact .same _
        · exact .success (not_encodeInteger _)
      · exact .same _
    · exact .same _
  · exact .fault _

theorem handlePush_failsClean (place : List Bytes → Bytes → List Bytes)
    (single : ∀ value, (place [] value).length = 1)
    (push : Store → Time → Key → Bytes → Store × Int) (args : List Bytes) :
    FailsClean store now (handlePush (Store.pushIfValidType place) push store now args) := by
  unfold handlePush
  split
  · split
    · rename_i refused
      rw [(Store.pushIfValidType_acts now _ place _ (single _)).failed (by simp) refused]
      exact .same _
    · exact .success (not_encodeInteger _)
  · exact .fault _

theorem handlePushWithBlocking_failsClean (place : List Bytes → Bytes → List Bytes)
    (single : ∀ value, (place [] value).length = 1)
    (push : Store → Time → Key → Bytes → Store × Int) (manager : Option BlockingManager)
    (args : List Bytes) :
    FailsClean store now
      ((handlePushWithBlocking (Store.pushIfValidType place) push store manager now args).map
        fun result => (result.store, result.reply)) := by
  unfold handlePushWithBlocking
  split
  · split
    · rename_i refused
      rw [(Store.pushIfValidType_acts now _ place _ (single _)).failed (by simp) refused]
      exact .same _
    · exact .success (not_encodeInteger _)
  · exact .fault _

end Handlers

def Command.plainWrites : List Command :=
  [.set, .mset, .incr, .rpush, .lpush, .lpop, .rpop, .zrem, .geoadd]

theorem Command.plainWrites_not_control : ∀ command ∈ plainWrites,
    ∀ control ∈ controlCommands, toUpper control ≠ command.name := by
  decide

theorem FailsClean.onStore {handled : Except Fault (Store × Bytes)}
    (clean : FailsClean store now handled) (done : state.onStore handled = .ok outcome)
    (failed : IsError outcome.reply) : store.Unchanged now outcome.state.store := by
  obtain ⟨result, rfl, rfl⟩ := onStore_ok done
  exact clean result rfl failed

theorem FailsClean.onBlocking {handled : Except Fault BlockingOutcome}
    (clean : FailsClean store now (handled.map fun result => (result.store, result.reply)))
    (done : state.onBlocking send handled = .ok outcome) (failed : IsError outcome.reply) :
    store.Unchanged now outcome.state.store := by
  obtain ⟨result, rfl, -, rfl⟩ := onBlocking_ok done
  exact clean _ rfl failed

theorem Command.handler_failsClean (write : command ∈ plainWrites) {now : Instant} {forked : Bool}
    (done : command.handler state now forked fd send args = .ok outcome)
    (failed : IsError outcome.reply) : state.store.Unchanged now.steady outcome.state.store := by
  simp only [plainWrites, List.mem_cons, List.not_mem_nil, or_false] at write
  rcases write with rfl | rfl | rfl | rfl | rfl | rfl | rfl | rfl | rfl
  · exact (handleSet_failsClean args).onStore done failed
  · exact (handleMset_failsClean args).onStore done failed
  · exact (handleIncr_failsClean args).onStore done failed
  · cases send with
    | true =>
      exact (handlePushWithBlocking_failsClean _ (fun _ => rfl) _ _ args).onBlocking done failed
    | false => exact (handlePush_failsClean _ (fun _ => rfl) _ args).onStore done failed
  · cases send with
    | true =>
      exact (handlePushWithBlocking_failsClean _ (fun _ => rfl) _ _ args).onBlocking done failed
    | false => exact (handlePush_failsClean _ (fun _ => rfl) _ args).onStore done failed
  · exact (handlePop_failsClean _ _ args).onStore done failed
  · exact (handlePop_failsClean _ _ args).onStore done failed
  · exact (handleZrem_failsClean args).onStore done failed
  · exact (handleGeoadd_failsClean args).onStore done failed

theorem executeCommand_failsClean (write : command ∈ Command.plainWrites) {cmd : Bytes}
    (name : toUpper cmd = command.name) (done : executeCommand state fd send args cmd = .ok outcome)
    (failed : IsError outcome.reply) :
    state.store.Unchanged (state.clock state.ticks).steady outcome.state.store := by
  unfold executeCommand at done
  split at done
  · cases done
    exact .of_data rfl
  rename_i other found
  have same : other = command := by
    rw [lookup_name found, Command.toUpper_name] at name
    have again := other.lookup_name_self
    rw [name, command.lookup_name_self] at again
    exact (Option.some.inj again).symm
  subst same
  split at done
  · cases done
    exact .of_data rfl
  have store : (if other.readsClock then state.tick else state).store = state.store := by
    split <;> rfl
  rw [← store]
  exact Command.handler_failsClean write done failed

/-- One of the other writes that is answered with an error leaves every key its live
value and its expiry, wherever the error comes from: the gates, the table, or the
handler, on a connection as in a transaction. -/
theorem failed_writes_change_nothing {command : Command}
    (write : command ∈ Command.plainWrites) {cmd : Bytes} (name : toUpper cmd = command.name)
    (fd : Fd) (send : Bool) (args : List Bytes) :
    (∀ (state : HandlerState) outcome, executeCommand state fd send args cmd = .ok outcome →
      IsError outcome.reply →
      state.store.Unchanged (state.clock state.ticks).steady outcome.state.store) ∧
    ∀ (ctx : CommandContext) outcome,
      ctx.processSingleCommand fd send args cmd = .ok outcome → IsError outcome.reply →
      ctx.store.Unchanged (ctx.clock ctx.ticks).steady outcome.ctx.store := by
  refine ⟨fun state outcome done failed => executeCommand_failsClean write name done failed, ?_⟩
  intro ctx outcome done failed
  by_cases vacant : args = []
  · rw [processSingleCommand, if_pos vacant] at done
    cases done
    exact .of_data rfl
  have plain : ∀ control ∈ controlCommands, cmd ≠ control := by
    rintro control member rfl
    exact absurd name (Command.plainWrites_not_control command write cmd member)
  cases processSingleCommand_serves vacant done with
  | rejected => exact .of_data rfl
  | multi _ same | discard _ same | watch _ same | unwatch _ same =>
    exact absurd same (plain _ (by simp [controlCommands]))
  | exec _ same => exact absurd same (plain _ (by simp [controlCommands]))
  | queued passed =>
    refine .of_data ?_
    rw [queueCommand, CommandContext.replied,
      setTx_toHandlerState, gate_toHandlerState passed]
  | executed passed _ _ ran =>
    obtain ⟨handled, runs, state, -, -, reply, -⟩ := execute_ok ran
    rw [gate_toHandlerState passed] at runs
    rw [reply] at failed
    rw [show outcome.ctx.store = handled.state.store by rw [state]]
    exact executeCommand_failsClean write name runs failed

theorem refused_push_changes_nothing :
    ∃ run, Run.run CommandContext.handle (twoClients 0)
        [.words 5 ["SET", "k", "v", "EX", "9"]] = .ok run ∧
      ∃ outcome, run.1.processSingleCommand 6 true [ascii "rpush", ascii "k", ascii "w"]
          (ascii "RPUSH") = .ok outcome ∧
        IsError outcome.reply ∧
        run.1.store.Unchanged (run.1.clock run.1.ticks).steady outcome.ctx.store := by
  refine Run.of_checked (fun run => Run.Succeeds _ fun outcome => IsError outcome.reply) ?_
    fun run _ refused => Run.of_checked _ refused fun outcome done failed => ⟨failed,
      (@failed_writes_change_nothing .rpush (by decide) (ascii "RPUSH") (by decide) 6 true
        [ascii "rpush", ascii "k", ascii "w"]).2 run.1 outcome done failed⟩
  decide +kernel

namespace Store

variable {now : Time} {before after : Store}

structure AnswersAlike (now : Time) (before after : Store) : Prop where
  type : ∀ moment key, now ≤ moment → (after.getType moment key).2 = (before.getType moment key).2
  keys : ∀ moment, now ≤ moment → (after.keys moment).2 = (before.keys moment).2
  set : ∀ moment key value ttlMs, now ≤ moment →
    (after.setIfValidType moment key value ttlMs).2 =
      (before.setIfValidType moment key value ttlMs).2
  incr : ∀ moment key, now ≤ moment →
    (after.incrIfValidType moment key).2 = (before.incrIfValidType moment key).2
  push : ∀ place moment key value, now ≤ moment →
    (after.pushIfValidType place moment key value).2 =
      (before.pushIfValidType place moment key value).2
  zadd : ∀ moment key score member, now ≤ moment →
    (after.zaddIfValidType moment key score member).2 =
      (before.zaddIfValidType moment key score member).2
  xadd : ∀ (moment : Instant) key id fields, now ≤ moment.steady →
    (after.xaddIfValidType moment key id fields).2 =
      (before.xaddIfValidType moment key id fields).2
  holds : ∀ moment holds key, now ≤ moment →
    keyIsAbsentOrHolds holds after moment key = keyIsAbsentOrHolds holds before moment key

theorem AnswersAlike.of_data (same : after.data = before.data) : AnswersAlike now before after where
  type moment key _ := Returned.text.inj
    ((@Operation.call_acts ⟨moment, 0⟩ (.getType key) key rfl rfl).data same).1
  keys moment _ := by rw [keys_list, keys_list, same]
  set moment key value ttlMs _ := ((setIfValidType_acts moment key value ttlMs).data same).1
  incr moment key _ := ((incrIfValidType_acts moment key).data same).1
  push place moment key value _ := by
    unfold pushIfValidType
    rw [same]
    cases before.data.lookup key with
    | none => rfl
    | some entry =>
      dsimp only
      split
      · rfl
      · split <;> rfl
  zadd moment key score member _ := ((zaddIfValidType_acts moment key score member).data same).1
  xadd moment key id fields _ := ((xaddIfValidType_acts moment key id fields).data same).1
  holds moment holds key _ := by rw [keyIsAbsentOrHolds, keyIsAbsentOrHolds, same]

def FindsValue (store : Store) (now : Time) : List Bytes → Prop
  | _ :: key :: _ :: field :: fields =>
    (field :: fields).length % 2 = 0 → (store.liveEntry now key).isSome = true
  | _ => True

theorem Opened.unchanged_iff {key : Key} {expiry : Option Time}
    (opened : before.Opened now key after expiry) :
    (Unchanged now before after ∧ AnswersAlike now before after) ↔
      (before.liveEntry now key).isSome = true := by
  constructor
  · rintro ⟨unchanged, -⟩
    rw [← unchanged now (le_refl now) key,
      liveEntry_some.mpr ⟨opened.found, opened.live _⟩, Option.isSome_some]
  · intro live
    obtain ⟨entry, live⟩ := Option.isSome_iff_exists.mp live
    exact ⟨.of_data (opened.kept entry live), .of_data (opened.kept entry live)⟩

end Store

/-- An `XADD` that is answered with an error leaves the keyspace alone exactly when it
has no pairs to add or finds a live value under its key. -/
theorem refused_xadd_changes_nothing_iff {state : HandlerState} {fd : Fd} {send : Bool}
    {args : List Bytes} {outcome : Outcome}
    (done : executeCommand state fd send args (ascii "XADD") = .ok outcome)
    (failed : IsError outcome.reply) :
    (state.store.Unchanged (state.clock state.ticks).steady outcome.state.store ∧
        state.store.AnswersAlike (state.clock state.ticks).steady outcome.state.store) ↔
      state.store.FindsValue (state.clock state.ticks).steady args := by
  rcases executeCommand_xadd_ok done with ⟨short, rfl⟩ |
    ⟨first, key, id, field, fields, result, rfl, leaves, store, reply⟩
  · have finds : state.store.FindsValue (state.clock state.ticks).steady args := by
      unfold Store.FindsValue
      split
      · simp only [List.length_cons] at short
        omega
      · trivial
    exact iff_of_true ⟨.of_data rfl, .of_data rfl⟩ finds
  · rw [store, Store.FindsValue]
    rw [reply] at failed
    cases leaves with
    | odd odd same =>
      rw [same]
      exact iff_of_true ⟨.of_data rfl, .of_data rfl⟩ fun even => absurd even odd
    | wrongType _ other same =>
      rw [same]
      refine iff_of_true ⟨.of_data rfl, .of_data rfl⟩ fun _ => ?_
      obtain ⟨value, live, -⟩ := (Option.any_eq_true _ _).mp other
      obtain ⟨entry, found, -⟩ := Option.map_eq_some_iff.mp live
      exact Option.isSome_iff_exists.mpr ⟨entry, found⟩
    | refused failure even free refused left =>
      obtain ⟨created, expiry, opened, fails, -⟩ := @Store.xadd_settles
        state.store (state.clock state.ticks) key id (pairUp (field :: fields)) free
      rw [left, fails failure refused, opened.unchanged_iff]
      exact ⟨fun live _ => live, fun live => live even⟩
    | added parsed text _ _ _ _ answer =>
      rw [answer] at failed
      exact absurd failed (IsError.not_encodeBulkString _)

theorem small_id_changes_nothing :
    ∃ run, Run.run CommandContext.handle (twoClients 0)
        [.words 5 ["XADD", "s", "5-1", "f", "v"]] = .ok run ∧
      ∃ outcome, executeCommand run.1.toHandlerState 6 true
          [ascii "XADD", ascii "s", ascii "4-1", ascii "g", ascii "w"] (ascii "XADD") =
            .ok outcome ∧
        IsError outcome.reply ∧
        run.1.store.Unchanged (run.1.clock run.1.ticks).steady outcome.state.store := by
  refine Run.of_checked (fun run =>
    (run.1.store.liveEntry (run.1.clock run.1.ticks).steady (ascii "s")).isSome = true ∧
    Run.Succeeds _ fun outcome => IsError outcome.reply) ?_ fun run _ ⟨live, refused⟩ =>
      Run.of_checked _ refused fun outcome done failed =>
        ⟨failed, ((refused_xadd_changes_nothing_iff done failed).mpr fun _ => live).1⟩
  decide +kernel

/-- The ID `0-0` is refused, and the key holds a stream from then on. -/
theorem refused_xadd_creates_stream :
    Run.Succeeds (Run.run CommandContext.handle (twoClients 0)
        [.words 5 ["XADD", "s", "0-0", "f", "v"]])
      fun result => result.2.map (fun seen => seen.map fun observation =>
          observation.effect.reply) = [some (encodeError Store.zeroId)] ∧
        (result.1.store.getType 0 (ascii "s")).2 = ascii "stream" ∧
        (result.1.store.keys 0).2 = [ascii "s"] ∧
        (result.1.store.setIfValidType 0 (ascii "s") (ascii "v") none).2 = false ∧
        (Store.empty.setIfValidType 0 (ascii "s") (ascii "v") none).2 = true := by
  decide +kernel

end Credis
