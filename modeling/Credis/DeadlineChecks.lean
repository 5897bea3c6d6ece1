import Credis.PipelineChecks
import Credis.Rounding
import Credis.WakeChecks

/-! Lifetimes and deadlines in the integers that hold them: 64-bit nanoseconds in the
keyspace and the queues, 32-bit milliseconds in the event loop. -/

namespace Credis

open ByteString Store BlockingManager

variable {options : List Bytes} {ttlMs : Option Nat} {nanos : Int} {found : Option Time}
  {now : Time} {after store : Store} {due : Time → Prop}

theorem addMillis_eq (now : Time) (millis : Int) :
    addMillis now millis = wrap64 (now + millis * 1000000) := by
  simp only [addMillis, wrap64, Int.add_bmod_bmod, Int.bmod_mul_bmod]

theorem wrap64_eq_iff {value : Int} (low : -(2 ^ 63) ≤ value) :
    wrap64 value = value ↔ value ≤ int64Max := by
  have small : value ≤ int64Max ↔ value < 2 ^ 63 := by
    unfold int64Max
    omega
  rw [small]
  refine ⟨fun same => ?_, wrap64_of_range low⟩
  rw [← same]
  exact (wrap64_range value).2

/-- The nanoseconds that the options of `SET` ask for: those of the last `EX` or `PX`. -/
def askedNanos : List Bytes → Option Int
  | option :: amount :: rest =>
    if toUpper option = ascii "EX" ∨ toUpper option = ascii "PX" then
      (askedNanos rest).or ((parseUInt64 amount).map fun (parsed : Nat) =>
        parsed * if toUpper option = ascii "EX" then 1000000000 else 1000000)
    else askedNanos (amount :: rest)
  | _ => none

theorem askedNanos_nonneg (asked : askedNanos options = some nanos) : 0 ≤ nanos := by
  fun_induction askedNanos options with
  | case1 option amount rest timed ih =>
    rcases Option.or_eq_some_iff.mp asked with later | ⟨-, here⟩
    · exact ih later
    · obtain ⟨parsed, -, rfl⟩ := Option.map_eq_some_iff.mp here
      split <;> omega
  | case2 option amount rest other ih => exact ih asked
  | case3 => cases asked

theorem addMillis_seconds (now : Time) (amount : Nat) :
    addMillis now ((amount * 1000 % 2 ^ 64 : Nat) : Int) = wrap64 (now + amount * 1000000000) := by
  have parts := Nat.div_add_mod (amount * 1000) (2 ^ 64)
  generalize amount * 1000 / 2 ^ 64 = wraps at parts
  generalize amount * 1000 % 2 ^ 64 = rest at parts ⊢
  have precise : (amount : Int) * 1000000000 =
      rest * 1000000 + ((2 ^ 64 : Nat) : Int) * (wraps * 1000000) := by
    omega
  rw [addMillis_eq, wrap64, wrap64, precise, ← Int.add_assoc, Int.add_mul_bmod_self_left]

theorem setOptions_asked (now : Time) {result : Option Nat}
    (read : setOptions options ttlMs = .ok result) :
    expiryAfter now result = ((askedNanos options).map fun nanos => wrap64 (now + nanos)).or
      (expiryAfter now ttlMs) := by
  fun_induction setOptions options ttlMs with
  | case1 | case3 =>
    cases read
    rfl
  | case2 | case4 => cases read
  | case5 option amount rest ttlMs timed parsed found ih =>
    rw [ih read, askedNanos, if_pos timed, found, Option.map_or, Option.or_assoc]
    refine congrArg _ ?_
    by_cases seconds : toUpper option = ascii "EX"
    · simp only [seconds, if_true, expiryAfter, Option.map_some, Option.some_or,
        addMillis_seconds]
    · simp only [seconds, if_false, expiryAfter, Option.map_some, Option.some_or,
        addMillis_eq]
  | case6 option amount rest ttlMs other ih =>
    rw [ih read, askedNanos, if_neg other]

theorem setOptions_refused {reply : Bytes} (failed : setOptions options ttlMs = .error reply) :
    reply ≠ respOk := by
  fun_induction setOptions options ttlMs with
  | case1 | case3 => cases failed
  | case2 | case4 =>
    cases failed
    exact encodeError_ne_respOk _
  | case5 option amount rest ttlMs timed parsed found ih => exact ih failed
  | case6 option amount rest ttlMs other ih => exact ih failed

theorem setIfValidType_stores {key : Key} {value : Bytes}
    (done : store.setIfValidType now key value ttlMs = (after, true)) :
    after.data.lookup key = some ⟨.string value, expiryAfter now ttlMs⟩ := by
  unfold setIfValidType at done
  split at done
  · split at done
    · cases done
      exact put_lookup _ _ _
    · split at done
      · cases done
        exact put_lookup _ _ _
      · cases done
  · cases done
    exact put_lookup _ _ _

theorem handleSet_stores {args : List Bytes}
    (done : handleSet store now args = .ok (after, respOk)) :
    ∃ ttlMs, setOptions (args.drop 3) none = .ok ttlMs ∧
      after.data.lookup (args.getD 1 []) =
        some ⟨.string (args.getD 2 []), expiryAfter now ttlMs⟩ := by
  rcases args with _ | ⟨name, _ | ⟨key, _ | ⟨value, options⟩⟩⟩
  iterate 3 cases done
  dsimp only [handleSet] at done
  split at done
  · rename_i reply failed
    cases done
    exact absurd rfl (setOptions_refused failed)
  · rename_i ttlMs read
    refine ⟨ttlMs, read, ?_⟩
    split at done
    · rename_i written stored
      cases done
      exact setIfValidType_stores stored
    · cases done

variable {cmd : Bytes} {args : List Bytes} {asked : ℚ} {millis : Int}

/-- The timeout of a blocking command: the nanoseconds that it stands for, and the whole
milliseconds that it is cut down to. -/
def blockingTimeout (cmd : Bytes) (args : List Bytes) : Option (ℚ × Int) :=
  if cmd = ascii "BLPOP" then
    (Double.parse (args.getD 2 [])).bind fun seconds =>
      (Double.exact seconds).map fun precise =>
        (precise * 1000000000, Double.toInt64 (seconds * 1000))
  else (parseInt64 (args.getD 2 [])).map fun (parsed : Int) => (parsed * 1000000, parsed)

theorem blockingTimeout_cases (timeout : blockingTimeout cmd args = some (asked, millis)) :
    (∃ seconds precise, cmd = ascii "BLPOP" ∧ Double.parse (args.getD 2 []) = some seconds ∧
      Double.exact seconds = some precise ∧ asked = precise * 1000000000 ∧
      millis = Double.toInt64 (seconds * 1000)) ∨
    (cmd ≠ ascii "BLPOP" ∧ parseInt64 (args.getD 2 []) = some millis ∧
      asked = millis * 1000000) := by
  unfold blockingTimeout at timeout
  split at timeout
  · rename_i name
    obtain ⟨seconds, parsed, value⟩ := Option.bind_eq_some_iff.mp timeout
    obtain ⟨precise, found, same⟩ := Option.map_eq_some_iff.mp value
    obtain ⟨rfl, rfl⟩ := Prod.mk.inj same
    exact .inl ⟨seconds, precise, name, parsed, found, rfl, rfl⟩
  · rename_i other
    obtain ⟨parsed, found, same⟩ := Option.map_eq_some_iff.mp timeout
    obtain ⟨rfl, rfl⟩ := Prod.mk.inj same
    exact .inr ⟨other, found, rfl⟩

theorem blockingTimeout_zero (timeout : blockingTimeout cmd args = some (0, millis)) :
    millis = 0 := by
  rcases blockingTimeout_cases timeout with
    ⟨seconds, precise, -, -, found, zero, rfl⟩ | ⟨-, -, zero⟩
  · rw [show precise = 0 by linarith] at found
    exact Double.toInt64_zero found
  · have whole : (millis : ℚ) = 0 := by linarith
    exact_mod_cast whole

theorem blockingTimeout_near (timeout : blockingTimeout cmd args = some (asked, millis))
    (positive : 0 < asked) (least : 0 < millis) (small : millis < 2 ^ 53) :
    |asked - millis * 1000000| < 1000000 := by
  rcases blockingTimeout_cases timeout with ⟨seconds, precise, -, -, found, rfl, rfl⟩ | ⟨-, -, rfl⟩
  · have near := Double.toInt64_mul_thousand found (by linarith) least small
    rw [abs_sub_lt_iff] at near ⊢
    constructor <;> linarith
  · rw [sub_self, abs_zero]
    norm_num

namespace Execution

variable {execution : Execution}

theorem Runs.set_stores (runs : execution.Runs) (name : execution.cmd = Command.set.name)
    (accepted : execution.outcome.reply = respOk)
    (asked : askedNanos (execution.args.drop 3) = some nanos) :
    execution.after.store.data.lookup execution.key =
      some ⟨.string (execution.args.getD 2 []), some (wrap64 (execution.now.steady + nanos))⟩ := by
  rcases runs.named name with ⟨-, short⟩ | ⟨-, called⟩
  · rw [short] at accepted
    exact absurd accepted (encodeError_ne_respOk _)
  obtain ⟨⟨written, reply⟩, handled, same⟩ := onStore_ok called
  rw [same] at accepted
  cases accepted
  obtain ⟨ttlMs, read, stored⟩ := handleSet_stores handled
  rw [setOptions_asked _ read, asked] at stored
  rw [after, same]
  exact stored

/-- An accepted `SET` with a lifetime sets the expiry to the instant it asks for, and
the key lives until then, exactly if that instant is one of the clock's. -/
theorem set_lives_as_asked_iff (runs : execution.Runs) (name : execution.cmd = Command.set.name)
    (accepted : execution.outcome.reply = respOk) {nanos : Int}
    (asked : askedNanos (execution.args.drop 3) = some nanos)
    (clock : -(2 ^ 63) ≤ execution.now.steady) :
    ((∃ text, execution.after.store.data.lookup execution.key =
          some ⟨.string text, some (execution.now.steady + nanos)⟩) ∧
        ∀ instant < execution.now.steady + nanos,
          (execution.after.store.liveEntry instant execution.key).isSome = true) ↔
      execution.now.steady + nanos ≤ timeMax := by
  have stored := runs.set_stores name accepted asked
  have positive := askedNanos_nonneg asked
  rw [timeMax, ← wrap64_eq_iff (le_add_of_le_of_nonneg clock positive)]
  constructor
  · rintro ⟨⟨text, precise⟩, -⟩
    have entries := Option.some.inj (stored.symm.trans precise)
    exact Option.some.inj (congrArg Entry.expiry entries)
  · intro precise
    rw [precise] at stored
    refine ⟨⟨_, stored⟩, fun instant early => ?_⟩
    rw [liveEntry, stored]
    simp [isExpired, early]

theorem ten_seconds_live_as_asked :
    ∃ execution : Execution, execution.Runs ∧
      execution.args = ["SET", "k", "v", "EX", "10"].map ascii ∧ execution.now.steady = 0 ∧
      ((∃ text, execution.after.store.data.lookup execution.key =
          some ⟨.string text, some (0 + 10000000000)⟩) ∧
        ∀ instant < (0 + 10000000000 : Time),
          (execution.after.store.liveEntry instant execution.key).isSome = true) := by
  obtain ⟨outcome, ran, accepted⟩ : ∃ outcome, executeCommand ServerState.plain.handler 7 true
      (["SET", "k", "v", "EX", "10"].map ascii) (ascii "SET") = .ok outcome ∧
      outcome.reply = respOk := Run.Succeeds.ok (by decide +kernel)
  have asked : askedNanos ((["SET", "k", "v", "EX", "10"].map ascii).drop 3) =
      some 10000000000 := by decide +kernel
  have clock : (-(2 ^ 63) : Time) ≤ 0 := by decide
  have early : (0 : Time) + 10000000000 ≤ timeMax := by decide
  exact ⟨⟨_, _, _, _, outcome⟩, ran, rfl, rfl,
    (@set_lives_as_asked_iff ⟨_, _, _, _, outcome⟩ ran rfl accepted _ asked clock).mpr early⟩

/-- 292 years and a quarter lie behind the last instant of the clock, so that a key set
for so long is gone at once. -/
theorem centuries_expire_at_once :
    ∃ outcome, executeCommand ServerState.plain.handler 7 true
        (["SET", "k", "v", "EX", "9223372037"].map ascii) (ascii "SET") = .ok outcome ∧
      outcome.reply = respOk ∧
      (outcome.state.store.data.lookup (ascii "k")).bind Entry.expiry =
        some (-9223372036709551616) ∧
      (outcome.state.store.liveEntry 0 (ascii "k")).isNone = true :=
  Run.Succeeds.ok (by decide +kernel)

theorem Runs.registers (runs : execution.Runs) (blocked : execution.outcome.result = .block)
    (timeout : blockingTimeout execution.cmd execution.args = some (asked, millis)) :
    ∃ client : BlockedClient, client.fd = execution.fd ∧
      client.deadline = (if millis = 0 then timeMax else addMillis execution.now.steady millis) ∧
      execution.after.queue client.key = execution.before.queue client.key ++ [client] := by
  obtain ⟨blocking, key, lastId, present, left⟩ : ∃ blocking key lastId,
      execution.before.blockingManager = some blocking ∧ execution.after.blockingManager =
        some (blocking.blockClientForStream execution.now.steady execution.fd key lastId
          millis) := by
    rcases blockingTimeout_cases timeout with
      ⟨seconds, _, name, parsed, -, -, rfl⟩ | ⟨other, parsed, -⟩
    · obtain ⟨result, handled, leaves⟩ := (@Runs.calls execution runs .blpop name blocked).blpop
      obtain ⟨blocking, key, lastId, _, present, ⟨_, _, _, _, args, found, -, -, rfl⟩, left⟩ :=
        leaves.waits blocked (handleBlpop_ends handled)
      rw [args] at parsed
      cases parsed.symm.trans found
      exact ⟨blocking, key, lastId, present, left⟩
    · have name : execution.cmd = ascii "XREAD" := by
        cases runs.moves with
        | blocks name => exact name.resolve_left other
        | stays goes | pushes _ goes | adds _ goes => exact absurd blocked goes
      have called := @Runs.calls execution runs .xread name blocked
      obtain ⟨blocking, key, lastId, _, present, ⟨_, _, _, -, -, -, _, _, _, _, args, -, found⟩,
        left⟩ := called.xread.waits blocked (handleXread_ends _ _ _ _ _)
      rw [args] at parsed
      cases parsed.symm.trans found
      exact ⟨blocking, key, lastId, present, left⟩
  refine ⟨⟨execution.fd, key, if millis = 0 then timeMax else addMillis execution.now.steady millis,
    lastId, blocking.nextNode⟩, rfl, rfl, ?_⟩
  rw [HandlerState.queue_some left, HandlerState.queue_some present]
  simp only [blockClientForStream, queue, AList.lookup_insert,
    Option.getD_some]

/-- The client is let go when it asked to be, up to a millisecond, and no integer on the
way to that instant overflows. -/
structure Honours (now : Time) (asked : ℚ) (millis : Int) (client : BlockedClient) : Prop where
  finite : client.isIndefinite = false
  near : |(client.deadline : ℚ) - (now + asked)| ≤ 1000000
  fits : wrap64 (millis * 1000000) = millis * 1000000 ∧
    wrap64 (now + millis * 1000000) = now + millis * 1000000

/-- A timeout of zero never ends. Any other one is honoured exactly if it is at least a
millisecond, its nanoseconds fit and they end before the last instant of the clock. -/
theorem timeouts_are_honoured_iff (runs : execution.Runs)
    (blocked : execution.outcome.result = .block) {asked : ℚ} {millis : Int}
    (timeout : blockingTimeout execution.cmd execution.args = some (asked, millis))
    (clock : -(2 ^ 63) ≤ execution.now.steady) :
    ∃ client : BlockedClient, client.fd = execution.fd ∧
      execution.after.queue client.key = execution.before.queue client.key ++ [client] ∧
      (asked = 0 → client.isIndefinite = true) ∧
      (0 < asked → (Honours execution.now.steady asked millis client ↔
        0 < millis ∧ millis * 1000000 ≤ timeMax ∧
          execution.now.steady + millis * 1000000 < timeMax)) := by
  obtain ⟨client, own, deadline, queued⟩ := runs.registers blocked timeout
  refine ⟨client, own, queued, ?_, fun positive => ⟨?_, ?_⟩⟩
  · rintro rfl
    rw [BlockedClient.isIndefinite, deadline, blockingTimeout_zero timeout, if_pos rfl,
      beq_self_eq_true]
  · rintro ⟨finite, near, short, fits⟩
    rw [BlockedClient.isIndefinite, beq_eq_false_iff_ne, deadline] at finite
    have given : millis ≠ 0 := fun zero => finite (if_pos zero)
    rw [if_neg given, addMillis_eq, fits] at finite
    rw [deadline, if_neg given, addMillis_eq, fits, abs_sub_le_iff] at near
    push_cast at near
    have least : -1 < (millis : ℚ) := by linarith
    have whole : -1 < millis := by exact_mod_cast least
    have range := wrap64_range (millis * 1000000)
    have reach := wrap64_range (execution.now.steady + millis * 1000000)
    rw [short] at range
    rw [fits] at reach
    unfold timeMax int64Max at *
    exact ⟨by omega, by omega, lt_of_le_of_ne (Int.le_of_lt_add_one reach.2) finite⟩
  · rintro ⟨least, short, early⟩
    have fits := (wrap64_eq_iff (le_add_of_le_of_nonneg clock (by omega))).mpr early.le
    have same : client.deadline = execution.now.steady + millis * 1000000 := by
      rw [deadline, if_neg least.ne', addMillis_eq, fits]
    refine ⟨?_, ?_, (wrap64_eq_iff (by omega)).mpr short, fits⟩
    · rw [BlockedClient.isIndefinite, same, beq_eq_false_iff_ne]
      exact early.ne
    · unfold timeMax int64Max at short
      have near := blockingTimeout_near timeout positive least (by omega)
      rw [abs_sub_lt_iff] at near
      rw [same, abs_sub_le_iff]
      push_cast
      constructor <;> linarith

theorem half_a_second_is_honoured :
    ∃ execution : Execution, execution.Runs ∧
      execution.args = ["BLPOP", "k", "0.5"].map ascii ∧ execution.now.steady = 0 ∧
      ∃ client : BlockedClient, client ∈ execution.after.queue client.key ∧
        Honours 0 500000000 500 client := by
  obtain ⟨outcome, ran, blocked⟩ : ∃ outcome, executeCommand ServerState.plain.handler 7 true
      (["BLPOP", "k", "0.5"].map ascii) (ascii "BLPOP") = .ok outcome ∧
      outcome.result = .block := Run.Succeeds.ok (by decide +kernel)
  have timeout : blockingTimeout (ascii "BLPOP") (["BLPOP", "k", "0.5"].map ascii) =
      some (500000000, 500) := by decide +kernel
  have clock : (-(2 ^ 63) : Time) ≤ 0 := by decide
  have early : 0 < (500 : Int) ∧ 500 * 1000000 ≤ timeMax ∧
      (0 : Time) + 500 * 1000000 < timeMax := by
    decide
  obtain ⟨client, -, queued, -, honoured⟩ :=
    @timeouts_are_honoured_iff ⟨_, _, _, _, outcome⟩ ran blocked _ _ timeout clock
  exact ⟨⟨_, _, _, _, outcome⟩, ran, rfl, rfl, client, by rw [queued]; simp,
    (honoured (by norm_num)).mpr early⟩

/-- Half a millisecond never ends, and 292 years and a quarter are over at once. -/
theorem timeouts_go_wrong :
    (∃ outcome, executeCommand ServerState.plain.handler 7 true
        (["BLPOP", "k", "0.0005"].map ascii) (ascii "BLPOP") = .ok outcome ∧
      outcome.result = .block ∧
      ((Double.parse (ascii "0.0005")).bind Double.exact).any (fun asked => 0 < asked) = true ∧
      (outcome.state.queue (ascii "k")).map BlockedClient.isIndefinite = [true]) ∧
    ∃ outcome, executeCommand ServerState.plain.handler 7 true
        (["XREAD", "BLOCK", "9223372036855", "STREAMS", "s", "0"].map ascii) (ascii "XREAD") =
          .ok outcome ∧ outcome.result = .block ∧
      (outcome.state.queue (ascii "s")).map BlockedClient.deadline = [-9223372036854551616] :=
  ⟨Run.Succeeds.ok (by decide +kernel), Run.Succeeds.ok (by decide +kernel)⟩

end Execution

def sooner : Option Time → Option Time → Option Time
  | some first, some second => some (if second < first then second else first)
  | some first, none => some first
  | none, second => second

def Earliest (due : Time → Prop) (found : Option Time) : Prop :=
  (found = none ∧ ∀ time, ¬ due time) ∨ ∃ time, found = some time ∧ IsLeast {time | due time} time

theorem Earliest.congr {other : Time → Prop} (earliest : Earliest due found)
    (same : ∀ time, due time ↔ other time) : Earliest other found := by
  rwa [← funext fun time => propext (same time)]

theorem earliest_option (found : Option Time) : Earliest (fun time => found = some time) found := by
  cases found with
  | none => exact .inl ⟨rfl, by simp⟩
  | some time => exact .inr ⟨time, rfl, rfl, fun other same => (Option.some.inj same).le⟩

theorem Earliest.sooner {left right : Time → Prop} {first second : Option Time}
    (one : Earliest left first) (other : Earliest right second) :
    Earliest (fun time => left time ∨ right time) (sooner first second) := by
  rcases one with ⟨rfl, absent⟩ | ⟨time, rfl, least⟩
  · exact other.congr fun time => by simp [absent]
  rcases other with ⟨rfl, absent⟩ | ⟨later, rfl, lower⟩
  · exact .inr ⟨time, rfl, .inl least.1, fun any due => least.2 (due.resolve_right (absent any))⟩
  refine .inr ⟨_, rfl, ?_⟩
  split
  · rename_i before
    exact ⟨.inr lower.1, fun any due =>
      due.elim (fun here => before.le.trans (least.2 here)) fun here => lower.2 here⟩
  · rename_i before
    exact ⟨.inl least.1, fun any due =>
      due.elim (fun here => least.2 here) fun here => (not_lt.mp before).trans (lower.2 here)⟩

namespace BlockingManager

def Due (manager : BlockingManager) (time : Time) : Prop :=
  ∃ key, ∃ client ∈ manager.queue key, client.isIndefinite = false ∧ client.deadline = time

def finiteDeadline (client : BlockedClient) : Option Time :=
  if client.isIndefinite then none else some client.deadline

theorem earlier_eq (earliest : Option Time) (client : BlockedClient) :
    earlier earliest client = sooner earliest (finiteDeadline client) := by
  unfold earlier finiteDeadline
  split
  · cases earliest <;> rfl
  cases earliest with
  | none => rfl
  | some time =>
    simp only [sooner]
    split <;> rfl

theorem finiteDeadline_eq_some {client : BlockedClient} {time : Time} :
    finiteDeadline client = some time ↔ client.isIndefinite = false ∧ client.deadline = time := by
  unfold finiteDeadline
  cases client.isIndefinite <;> simp

theorem foldl_earlier (clients : List BlockedClient) (earliest : Earliest due found) :
    Earliest (fun time => due time ∨ ∃ client ∈ clients, finiteDeadline client = some time)
      (clients.foldl earlier found) := by
  induction clients generalizing due found with
  | nil => exact earliest.congr fun time => by simp
  | cons client clients ih =>
    rw [List.foldl_cons, earlier_eq]
    refine (ih (earliest.sooner (earliest_option _))).congr fun time => ?_
    simp [or_assoc]

theorem getNextDeadline_earliest (manager : BlockingManager) :
    Earliest manager.Due manager.getNextDeadline := by
  have start : Earliest (fun _ => False) none := .inl ⟨rfl, fun _ => id⟩
  refine (foldl_earlier _ start).congr fun time => ?_
  simp only [false_or, List.mem_flatMap, finiteDeadline_eq_some, Due]
  constructor
  · rintro ⟨client, ⟨key, -, member⟩, finite⟩
    exact ⟨key, client, member, finite⟩
  · rintro ⟨key, client, member, finite⟩
    refine ⟨client, ⟨key, ?_, member⟩, finite⟩
    by_contra absent
    rw [queue, AList.lookup_eq_none.mpr absent] at member
    cases member

end BlockingManager

namespace ServerState

variable (server : ServerState)

def TimeoutDue (time : Time) : Prop :=
  (∃ manager, server.handler.blockingManager = some manager ∧ manager.Due time) ∨
    server.replicaMgr.nextDeadline = some time

theorem earliestDeadline_earliest : Earliest server.TimeoutDue server.earliestDeadline := by
  have blocked : Earliest
      (fun time => ∃ manager, server.handler.blockingManager = some manager ∧ manager.Due time)
      (server.handler.blockingManager.bind getNextDeadline) := by
    cases server.handler.blockingManager with
    | none => exact .inl ⟨rfl, by simp⟩
    | some manager => exact manager.getNextDeadline_earliest.congr fun time => by simp
  have merged : server.earliestDeadline = sooner
      (server.handler.blockingManager.bind getNextDeadline)
      server.replicaMgr.nextDeadline := by
    unfold earliestDeadline
    generalize server.handler.blockingManager.bind getNextDeadline = blocking
    cases blocking <;> cases server.replicaMgr.nextDeadline <;> rfl
  rw [merged]
  exact blocked.sooner (earliest_option _)

theorem epollTimeout_nonneg {timeoutMs : Int} (positive : 0 ≤ timeoutMs) :
    (0 ≤ epollTimeout timeoutMs ↔ timeoutMs % 2 ^ 32 < 2 ^ 31) ∧
      epollTimeout timeoutMs ≤ timeoutMs := by
  rw [epollTimeout, if_neg (by omega), wrap32, Int.bmod_def]
  omega

/-- What the event loop may sleep: without end if nothing is due, otherwise at most up
to the earliest deadline, in milliseconds. -/
def SleepsInTime (now : Time) (timeout : Int) : Prop :=
  ((∀ time, ¬ server.TimeoutDue time) → timeout = -1) ∧
    ∀ earliest, IsLeast {time | server.TimeoutDue time} earliest →
      0 ≤ timeout ∧ timeout ≤ max 0 ((earliest - now) / 1000000)

theorem computeTimeout_eq (now : Time) (status : AofManager.ChildStatus) :
    (server.computeTimeout now status).2.2 =
      (server.computeTimeout now status).1.earliestDeadline.elim (-1) fun deadline =>
        if deadline ≤ now then 0 else (deadline - now) / 1000000 := by
  unfold computeTimeout
  dsimp only
  cases (server.settleTimeouts now status).1.earliestDeadline <;> rfl

/-- The deadline is the earliest of all queues and the pending `WAIT`. The loop wakes up
in time exactly if the milliseconds to it, as an `int`, are not negative. -/
theorem loop_sleeps_in_time_iff (server : ServerState) (now : Time)
    (status : AofManager.ChildStatus) :
    Earliest (server.computeTimeout now status).1.TimeoutDue
        (server.computeTimeout now status).1.earliestDeadline ∧
      ((server.computeTimeout now status).1.SleepsInTime now
          (epollTimeout (server.computeTimeout now status).2.2) ↔
        ∀ earliest, IsLeast {time | (server.computeTimeout now status).1.TimeoutDue time} earliest →
          earliest ≤ now ∨ (earliest - now) / 1000000 % 2 ^ 32 < 2 ^ 31) := by
  have found := (server.computeTimeout now status).1.earliestDeadline_earliest
  rw [computeTimeout_eq]
  generalize (server.computeTimeout now status).1 = settled at found ⊢
  refine ⟨found, ?_⟩
  rcases found with ⟨absent, nothing⟩ | ⟨deadline, given, least⟩
  · rw [absent]
    exact ⟨fun _ earliest least => absurd least.1 (nothing earliest),
      fun _ => ⟨fun _ => rfl, fun earliest least => absurd least.1 (nothing earliest)⟩⟩
  · have only : ∀ {earliest}, IsLeast {time | settled.TimeoutDue time} earliest →
        earliest = deadline :=
      fun other => other.unique least
    rw [given, Option.elim_some]
    by_cases past : deadline ≤ now
    · rw [if_pos past]
      exact ⟨fun _ earliest other => .inl (only other ▸ past),
        fun _ => ⟨fun nothing => absurd least.1 (nothing deadline),
          fun earliest other => ⟨by decide, le_max_left _ _⟩⟩⟩
    · rw [if_neg past]
      have ahead : 0 ≤ (deadline - now) / 1000000 :=
        Int.ediv_nonneg (Int.sub_nonneg_of_le (not_le.mp past).le) (by decide)
      obtain ⟨whole, below⟩ := epollTimeout_nonneg ahead
      constructor
      · rintro ⟨-, sleeps⟩ earliest other
        rw [only other]
        exact .inr (whole.mp (sleeps deadline least).1)
      · intro fits
        refine ⟨fun nothing => absurd least.1 (nothing deadline), fun earliest other => ?_⟩
        rw [only other]
        exact ⟨whole.mpr ((fits deadline least).resolve_left past), below.trans (le_max_right _ _)⟩

/-- A client that blocks for 30 days makes the loop sleep without end. -/
theorem month_sleeps_forever :
    ∃ run, Run.run turn plain
        [.accept 3 7, .input 7 [["XREAD", "BLOCK", "2592000000", "STREAMS", "s", "0"]]] = .ok run ∧
      (run.1.computeTimeout 0 .running).1.earliestDeadline = some 2592000000000000 ∧
      epollTimeout (run.1.computeTimeout 0 .running).2.2 = -1702967296 :=
  Run.Succeeds.ok (by decide +kernel)

end ServerState

end Credis
