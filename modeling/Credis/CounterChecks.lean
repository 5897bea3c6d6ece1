import Credis.TraceChecks

/-! `INCR` as a counter: what one call does to the number under its key, and what the calls
of a whole run add up to. -/

namespace Credis

open ByteString Store List

variable {number : Int} {key : Key} {live : Option Entry} {moment : Time} {args : List Bytes}
  {text : Bytes}

namespace Store

/-- The number that `INCR` finds: that of a numeral below the largest one, or zero where
nothing lives. -/
def Counts (live : Option Entry) (number : Int) : Prop :=
  (live = none ∧ number = 0) ∨ ∃ text expiry, live = some ⟨.string text, expiry⟩ ∧
    IsNumeral text number ∧ -(2 ^ 63) ≤ number ∧ number < int64Max

theorem incrementable_eq_some :
    incrementable text = some number ↔
      IsNumeral text number ∧ -(2 ^ 63) ≤ number ∧ number < int64Max := by
  rw [incrementable, Option.filter_eq_some_iff, parseInt64_eq_some, decide_eq_true_eq, and_assoc,
    and_assoc]
  unfold int64Max
  constructor
  · rintro ⟨numeral, low, high, other⟩
    exact ⟨numeral, low, by omega⟩
  · rintro ⟨numeral, low, high⟩
    exact ⟨numeral, low, by omega, by omega⟩

theorem Counts.incrAct (counts : Counts live number) :
    incrAct live = (some ⟨.string (intText (number + 1)), expiryOf live⟩, some (number + 1)) := by
  rcases counts with ⟨rfl, rfl⟩ | ⟨text, expiry, rfl, numeral⟩
  · rfl
  · rw [incrAct, Value.string?, Option.bind_some, incrementable_eq_some.mpr numeral]
    rfl

theorem incrAct_refuses (absent : ∀ number, ¬ Counts live number) :
    incrAct live = (none, none) := by
  rcases live with _ | ⟨value, expiry⟩
  · exact absurd (.inl ⟨rfl, rfl⟩) (absent 0)
  rw [incrAct]
  cases read : value.string?.bind incrementable with
  | none => rfl
  | some number =>
    obtain ⟨text, string, numeral⟩ := Option.bind_eq_some_iff.mp read
    cases value <;> cases string
    exact absurd (.inr ⟨text, expiry, rfl, incrementable_eq_some.mp numeral⟩) (absent number)

theorem Counts.bounds (counts : Counts live number) : -(2 ^ 63) ≤ number ∧ number < int64Max := by
  rcases counts with ⟨-, rfl⟩ | ⟨text, expiry, -, -, bounds⟩
  · decide
  · exact bounds

end Store

theorem Store.Works.spares {uses : Operation → Prop} {now : Instant} {before after : Store}
    (works : Works uses now before after)
    (apart : ∀ operation, uses operation → ∃ other, operation.key? = some other ∧ other ≠ key)
    (order : now.steady ≤ moment) :
    after.liveEntry moment key = before.liveEntry moment key ∧
      after.getKeyVersion key = before.getKeyVersion key := by
  induction works with
  | refl => exact ⟨rfl, rfl⟩
  | reads _ reads ih => rwa [reads.liveEntry order, reads.getKeyVersion]
  | @calls middle operation used _ ih =>
    rw [← ih.1, ← ih.2]
    cases call_effect middle now operation with
    | reads _ reads => exact ⟨reads.liveEntry order key, reads.getKeyVersion key⟩
    | touches _ keyed touches =>
      obtain ⟨other, named, different⟩ := apart operation used
      cases named.symm.trans keyed
      rw [liveEntry, liveEntry, touches.others key different.symm]
      exact ⟨rfl, touches.getKeyVersion_ne different.symm⟩

theorem mem_pairUp {items : List Bytes} {pair : Bytes × Bytes} (member : pair ∈ pairUp items) :
    pair.1 ∈ items := by
  fun_induction pairUp items with
  | case1 first second rest ih =>
    rcases mem_cons.mp member with rfl | member
    · simp
    · simp [ih member]
  | case2 => cases member

theorem Command.Uses.apart {command : Command} {operation : Operation}
    (used : command.Uses args operation) (enough : command.minArgs ≤ args.length)
    (spares : key ∉ args ∨ (isWriteCommand command.name = false ∧
      command.name ≠ Command.blpop.name)) :
    operation.touchless none = true ∨ ∃ other, operation.key? = some other ∧ other ≠ key := by
  rcases spares with absent | ⟨reader, other⟩
  · have first : 2 ≤ command.minArgs → args.getD 1 [] ≠ key := by
      rintro many rfl
      refine absent ?_
      rw [getD_eq_getElem?_getD, getElem?_eq_getElem (by omega)]
      exact getElem_mem _
    cases used with
    | reads _ passes => exact .inl passes
    | check | geoCheck | xaddWakes => exact .inl rfl
    | mset member =>
      refine .inr ⟨_, rfl, ?_⟩
      rintro rfl
      exact absent (mem_of_mem_drop (mem_pairUp member))
    | _ => exact .inr ⟨_, rfl, first (by decide)⟩
  · cases used with
    | reads _ passes => exact .inl passes
    | blpop => exact absurd rfl other
    | _ => exact absurd reader (by decide)

theorem handleIncr_acts (store : Store) (now : Time) (enough : 2 ≤ args.length) :
    handleIncr store now args = .ok
      ((store.actOn now (args.getD 1 [])
          (isOther Value.string? (store.liveEntry now (args.getD 1 [])))
          (incrAct (store.liveEntry now (args.getD 1 [])))).1,
        (incrAct (store.liveEntry now (args.getD 1 []))).2.elim notIntegerReply
          encodeInteger) := by
  rcases args with _ | ⟨_, _ | ⟨key, rest⟩⟩
  iterate 2 exact absurd enough (by simp)
  have acts := incrIfValidType_acts now key store
  dsimp only at acts
  simp only [handleIncr, acts, actOn, getD_cons_succ, getD_cons_zero]
  cases (incrAct (store.liveEntry now key)).2 <;> rfl

namespace Execution

variable {execution : Execution} {key : Key}

def found (execution : Execution) (key : Key) : Option Entry :=
  execution.before.store.liveEntry execution.now.steady key

def increments (execution : Execution) (key : Key) : Bool :=
  decide (execution.cmd = Command.incr.name ∧ 2 ≤ execution.args.length ∧ execution.key = key)

theorem Runs.incr (runs : execution.Runs) (counted : execution.increments key = true) :
    execution.outcome.reply =
        (incrAct (execution.found key)).2.elim notIntegerReply encodeInteger ∧
      execution.after.store = (execution.before.store.actOn execution.now.steady key
        (isOther Value.string? (execution.found key))
        (incrAct (execution.found key))).1 := by
  obtain ⟨name, enough, rfl⟩ := of_decide_eq_true counted
  rcases runs.named name with ⟨short, -⟩ | ⟨-, called⟩
  · exact absurd short (Nat.not_lt.mpr enough)
  obtain ⟨result, handled, same⟩ := onStore_ok called
  cases handled.symm.trans (handleIncr_acts execution.before.store execution.now.steady enough)
  rw [after, same]
  exact ⟨rfl, rfl⟩

theorem Runs.incr_counts (runs : execution.Runs) (counted : execution.increments key = true)
    (counts : Counts (execution.found key) number) :
    execution.outcome.reply = encodeInteger (number + 1) ∧
      execution.after.store.data.lookup key =
        some ⟨.string (intText (number + 1)), expiryOf (execution.found key)⟩ := by
  obtain ⟨reply, left⟩ := runs.incr counted
  rw [counts.incrAct] at reply left
  refine ⟨reply, ?_⟩
  rw [left]
  exact put_lookup _ _ _

theorem Runs.incr_refuses (runs : execution.Runs) (counted : execution.increments key = true)
    (lacking : ∀ number, ¬ Counts (execution.found key) number) :
    execution.outcome.reply = notIntegerReply ∧
      execution.after.store.data.lookup key = execution.before.store.data.lookup key := by
  obtain ⟨reply, left⟩ := runs.incr counted
  rw [incrAct_refuses lacking] at reply left
  refine ⟨reply, ?_⟩
  have live : execution.before.store.unexpired execution.now.steady key =
      execution.before.store := by
    cases execution.before.store.looked execution.now.steady key with
    | absent _ live | old _ _ _ live => exact absurd (.inl ⟨live, rfl⟩) (lacking 0)
    | live _ _ _ _ kept => exact kept
  rw [left, actOn, live]
  split <;> rfl

def Spares (execution : Execution) (key : Key) : Prop :=
  key ∉ execution.args ∨
    (isWriteCommand execution.cmd = false ∧ execution.cmd ≠ Command.blpop.name)

theorem Runs.spared (runs : execution.Runs) (spares : execution.Spares key)
    (order : execution.now.steady ≤ moment) :
    execution.after.store.liveEntry moment key = execution.before.store.liveEntry moment key ∧
      execution.after.store.getKeyVersion key = execution.before.store.getKeyVersion key := by
  rcases runs.cases with ⟨reply, replied⟩ | ⟨command, name, enough, called⟩
  · rw [after, replied]
    exact ⟨rfl, rfl⟩
  rw [Spares, name] at spares
  have works := handler_calls (fun operation used => used.apart enough spares) called
  have same : (if command.readsClock then execution.before.tick else execution.before).store =
      execution.before.store := by
    split <;> rfl
  rw [same] at works
  exact works.spares (fun _ => id) order

end Execution

def incrTimes (key : Key) (executions : List Execution) : List Time :=
  (executions.filter fun execution => execution.increments key).map
    fun execution => execution.now.steady

/-- The key counted over these instants. As long as the entry of the start lives, they add
up to its number; from its expiry on they are counted from zero. -/
structure Store.Tally (key : Key) (times : List Time) (late : Time → Prop) (first last : Store) :
    Prop where
  idle : times = [] → ∀ moment, late moment →
    last.liveEntry moment key = first.liveEntry moment key
  adds : times ≠ [] → (∀ time ∈ times, (first.liveEntry time key).isSome = true) →
    ∃ text number expiry,
      (∀ time ∈ times, first.liveEntry time key = some ⟨.string text, expiry⟩) ∧
      IsNumeral text number ∧ number + times.length ≤ int64Max ∧
      ∀ moment, late moment → last.liveEntry moment key =
        (first.liveEntry moment key).map fun _ =>
          ⟨.string (intText (number + times.length)), expiry⟩
  restarts : (∃ time ∈ times, first.liveEntry time key = none) → ∀ moment, late moment →
    last.liveEntry moment key = some
      ⟨.string (intText (times.filter fun time => (first.liveEntry time key).isNone).length), none⟩

namespace Store

variable {first last next : Store} {expiry : Option Time} {now : Time}

theorem Counts.eq_of_intText {value : Int}
    (counts : Counts (some ⟨.string (intText value), expiry⟩) number) : number = value := by
  rcases counts with ⟨absent, -⟩ | ⟨_, _, same, numeral, -⟩
  · cases absent
  · cases same
    exact Option.some.inj
      ((parseInteger_eq_some.mpr numeral).symm.trans (parseInteger_intText value))

theorem liveEntry_rewritten {old value : Value} (held : first.data.lookup key = some ⟨old, expiry⟩)
    (stored : next.data.lookup key = some ⟨value, expiry⟩) (moment : Time) :
    next.liveEntry moment key = (first.liveEntry moment key).map fun _ => ⟨value, expiry⟩ := by
  have same : isExpired moment ⟨value, expiry⟩ = isExpired moment ⟨old, expiry⟩ := rfl
  rw [liveEntry, liveEntry, held, stored, Option.filter_some, Option.filter_some, same]
  split <;> rfl

theorem liveEntry_stays_none (gone : first.liveEntry now key = none) (order : now ≤ moment) :
    first.liveEntry moment key = none := by
  rw [liveEntry_none] at gone ⊢
  exact gone.imp_right fun ⟨entry, found, expired⟩ =>
    ⟨entry, found, isExpired_later expired order⟩

namespace Tally

variable {times : List Time} {late : Time → Prop}

theorem start : Tally key [] late first first :=
  ⟨fun _ _ _ => rfl, fun given => absurd rfl given,
    fun ⟨_, member, _⟩ => absurd member not_mem_nil⟩

theorem spared (tally : Tally key times late first last)
    (same : ∀ moment, now ≤ moment → next.liveEntry moment key = last.liveEntry moment key) :
    Tally key times (fun moment => late moment ∧ now ≤ moment) first next := by
  refine ⟨fun absent moment is => ?_, fun given lives => ?_, fun gone moment is => ?_⟩
  · rw [same moment is.2, tally.idle absent moment is.1]
  · obtain ⟨text, number, expiry, held, numeral, bound, total⟩ := tally.adds given lives
    refine ⟨text, number, expiry, held, numeral, bound, fun moment is => ?_⟩
    rw [same moment is.2, total moment is.1]
  · rw [same moment is.2, tally.restarts gone moment is.1]

/-- The entry of the start is gone, so what is counted is the number of calls since. -/
theorem recounted (tally : Tally key times late first last) (reached : late now)
    (gone : first.liveEntry now key = none) (counts : Counts (last.liveEntry now key) number) :
    number = (times.filter fun time => (first.liveEntry time key).isNone).length ∧
      expiryOf (last.liveEntry now key) = none := by
  by_cases since : ∃ time ∈ times, first.liveEntry time key = none
  · rw [tally.restarts since now reached] at counts ⊢
    exact ⟨counts.eq_of_intText, rfl⟩
  · have lives : ∀ time ∈ times, (first.liveEntry time key).isSome = true := by
      intro time member
      rw [Option.isSome_iff_ne_none]
      exact fun lacking => since ⟨time, member, lacking⟩
    have absent : last.liveEntry now key = none := by
      by_cases lacking : times = []
      · rw [tally.idle lacking now reached, gone]
      · obtain ⟨_, _, _, -, -, -, total⟩ := tally.adds lacking lives
        rw [total now reached, gone]
        rfl
    have lacking : (times.filter fun time => (first.liveEntry time key).isNone) = [] := by
      refine filter_eq_nil_iff.mpr fun time member => ?_
      simp [Option.isSome_iff_ne_none.mp (lives time member)]
    rw [absent] at counts ⊢
    rcases counts with ⟨-, rfl⟩ | ⟨_, _, found, -⟩
    · rw [lacking]
      exact ⟨rfl, rfl⟩
    · cases found

/-- The entry of the start still lives, so its number has been raised by every call. -/
theorem continued (tally : Tally key times late first last) (reached : late now)
    (lives : ∀ time ∈ times, (first.liveEntry time key).isSome = true)
    (alive : (first.liveEntry now key).isSome = true)
    (counts : Counts (last.liveEntry now key) number) :
    ∃ text start expiry, first.data.lookup key = some ⟨.string text, expiry⟩ ∧
      IsNumeral text start ∧ number = start + times.length ∧
      expiryOf (last.liveEntry now key) = expiry := by
  obtain ⟨entry, found⟩ := Option.isSome_iff_exists.mp alive
  by_cases vacant : times = []
  · rw [tally.idle vacant now reached, found] at counts ⊢
    rcases counts with ⟨nothing, -⟩ | ⟨text, expiry, same, numeral, -⟩
    · cases nothing
    · cases same
      refine ⟨text, number, expiry, (liveEntry_some.mp found).1, numeral, ?_, rfl⟩
      rw [vacant, length_nil, Nat.cast_zero, Int.add_zero]
  · obtain ⟨text, start, expiry, held, numeral, -, total⟩ := tally.adds vacant lives
    obtain ⟨time, member⟩ := exists_mem_of_ne_nil times vacant
    rw [total now reached, found, Option.map_some] at counts ⊢
    exact ⟨text, start, expiry, (liveEntry_some.mp (held time member)).1, numeral,
      counts.eq_of_intText, rfl⟩

theorem counted (tally : Tally key times late first last) (reached : late now)
    (earlier : ∀ time ∈ times, time ≤ now) (counts : Counts (last.liveEntry now key) number)
    (stored : next.data.lookup key =
      some ⟨.string (intText (number + 1)), expiryOf (last.liveEntry now key)⟩) :
    Tally key (times ++ [now]) (fun moment => late moment ∧ now ≤ moment) first next := by
  refine ⟨fun absent => absurd absent (by simp), fun _ lives => ?_, fun gap moment _ => ?_⟩
  · obtain ⟨before, alive⟩ := forall_mem_append.mp lives
    obtain ⟨text, start, expiry, held, numeral, sum, same⟩ :=
      tally.continued reached before (alive now (by simp)) counts
    have total : number + 1 = start + ((times ++ [now]).length : Int) := by
      rw [length_append, sum, Nat.cast_add]
      exact Int.add_assoc _ _ _
    have bound := Int.add_one_le_of_lt counts.bounds.2
    rw [same, total] at stored
    rw [total] at bound
    refine ⟨text, start, expiry, fun time member => ?_, numeral, bound,
      fun moment _ => liveEntry_rewritten held stored moment⟩
    obtain ⟨entry, found⟩ := Option.isSome_iff_exists.mp (lives time member)
    cases held.symm.trans (liveEntry_some.mp found).1
    exact found
  · have gone : first.liveEntry now key = none := by
      obtain ⟨time, member, gone⟩ := gap
      rcases mem_append.mp member with before | here
      · exact liveEntry_stays_none gone (earlier time before)
      · rwa [mem_singleton.mp here] at gone
    obtain ⟨count, fresh⟩ := tally.recounted reached gone counts
    rw [filter_append, filter_singleton, gone, length_append, Nat.cast_add, ← count]
    exact liveEntry_some.mpr ⟨by rw [stored, fresh]; rfl, rfl⟩

end Tally

end Store

theorem Execution.Spares.not_increments {execution : Execution} (spares : execution.Spares key) :
    execution.increments key = false := by
  refine decide_eq_false ?_
  rintro ⟨name, enough, rfl⟩
  rcases spares with absent | ⟨reader, -⟩
  · refine absent ?_
    rw [Execution.key, getD_eq_getElem?_getD, getElem?_eq_getElem (by omega)]
    exact getElem_mem _
  · rw [name] at reader
    exact absurd reader (by decide)

theorem incrTimes_append (past : List Execution) (execution : Execution) :
    incrTimes key (past ++ [execution]) = incrTimes key past ++
      if execution.increments key = true then [execution.now.steady] else [] := by
  rw [incrTimes, filter_append, map_append, ← incrTimes, filter_singleton]
  cases execution.increments key <;> rfl

theorem Execution.Runs.tally {first : Store} {past : List Execution} {execution : Execution}
    (runs : execution.Runs)
    (tally : Tally key (incrTimes key past)
      (fun moment => ∀ earlier ∈ past, earlier.now.steady ≤ moment) first execution.before.store)
    (ordered : ∀ earlier ∈ past, earlier.now.steady ≤ execution.now.steady)
    (fits : (execution.increments key = true ∧ execution.outcome.reply ≠ notIntegerReply) ∨
      execution.Spares key) :
    Tally key (incrTimes key (past ++ [execution]))
      (fun moment => ∀ earlier ∈ past ++ [execution], earlier.now.steady ≤ moment) first
      execution.after.store := by
  simp only [forall_mem_append, forall_mem_singleton]
  rw [incrTimes_append]
  rcases fits with ⟨counted, accepted⟩ | spares
  · rw [if_pos counted]
    by_cases counts : ∃ number, Counts (execution.found key) number
    · obtain ⟨number, counts⟩ := counts
      refine tally.counted ordered (fun time member => ?_) counts
        (runs.incr_counts counted counts).2
      obtain ⟨earlier, inside, rfl⟩ := mem_map.mp member
      exact ordered earlier (mem_filter.mp inside).1
    · exact absurd (runs.incr_refuses counted (not_exists.mp counts)).1 accepted
  · rw [spares.not_increments, if_neg Bool.false_ne_true, append_nil]
    exact tally.spared fun moment order => (runs.spared spares order).1

theorem history_tally {ctx last : CommandContext} {events : List Event}
    {observations : List (Option Observation)}
    (ran : Run.run CommandContext.handle ctx events = .ok (last, observations))
    (ordered : (ctx.history events).Pairwise fun one other => one.now.steady ≤ other.now.steady)
    (each : ∀ execution ∈ ctx.history events, (execution.increments key = true ∧
      execution.outcome.reply ≠ notIntegerReply) ∨ execution.Spares key) :
    Tally key (incrTimes key (ctx.history events))
      (fun moment => ∀ execution ∈ ctx.history events, execution.now.steady ≤ moment)
      ctx.store last.store :=
  (@CommandContext.history_inOrder (fun past state => Tally key (incrTimes key past)
      (fun moment => ∀ execution ∈ past, execution.now.steady ≤ moment) ctx.store state.store) _
    (fun _ _ runs tally meets => runs.tally tally meets.1 meets.2)
    (fun _ _ _ pause tally => by rwa [pause.store]) ctx last events observations [] ran .start
    ((Run.inOrder_of_pairwise ordered).and (Run.inOrder_forall.mpr each))).1

theorem encodeInteger_ne_notIntegerReply (number : Int) :
    encodeInteger number ≠ notIntegerReply := by
  intro same
  have heads : some 58 = notIntegerReply.head? := congrArg head? same
  exact absurd heads (by decide)

/-- A whole `INCR` succeeds exactly where it finds a number below the largest one, answers
with the next number and stores it beside the old expiry; otherwise the text stays. The
successful ones of a run, by whatever clients, add up. -/
theorem incr_is_exact (key : Key) :
    (∀ execution : Execution, execution.Runs → execution.increments key = true →
      ((∃ number, execution.outcome.reply = encodeInteger number) ↔
        ∃ number, Store.Counts (execution.found key) number) ∧
      (∀ number, Store.Counts (execution.found key) number →
        execution.outcome.reply = encodeInteger (number + 1) ∧
          ∃ text, execution.after.store.data.lookup key =
              some ⟨.string text, Store.expiryOf (execution.found key)⟩ ∧
            parseInt64 text = some (number + 1)) ∧
      ((∀ number, ¬ Store.Counts (execution.found key) number) →
        execution.outcome.reply = notIntegerReply ∧
          execution.after.store.data.lookup key = execution.before.store.data.lookup key)) ∧
    ∀ (ctx last : CommandContext) events observations,
      Run.run CommandContext.handle ctx events = .ok (last, observations) →
      (ctx.history events).Pairwise (fun one other => one.now.steady ≤ other.now.steady) →
      (∀ execution ∈ ctx.history events, (execution.increments key = true ∧
        execution.outcome.reply ≠ notIntegerReply) ∨ execution.Spares key) →
      Store.Tally key (incrTimes key (ctx.history events))
        (fun moment => ∀ execution ∈ ctx.history events, execution.now.steady ≤ moment)
        ctx.store last.store := by
  refine ⟨fun execution runs counted => ⟨⟨?_, ?_⟩, fun number counts => ?_, ?_⟩,
    fun ctx last events observations ran => history_tally ran⟩
  · rintro ⟨number, accepted⟩
    by_contra absent
    exact encodeInteger_ne_notIntegerReply number
      (accepted.symm.trans (runs.incr_refuses counted (not_exists.mp absent)).1)
  · rintro ⟨number, counts⟩
    exact ⟨number + 1, (runs.incr_counts counted counts).1⟩
  · obtain ⟨reply, stored⟩ := runs.incr_counts counted counts
    refine ⟨reply, _, stored, ?_⟩
    have bounds := counts.bounds
    unfold int64Max at bounds
    exact parseInt64_intText (by omega) (by omega)
  · exact runs.incr_refuses counted

def fortyOne : CommandContext :=
  { CommandContext.twoClients 0 with store := empty.set 0 (ascii "k") (ascii "41") none }

theorem forty_one_counts_to_forty_three :
    ∃ run, Run.run CommandContext.handle fortyOne
        [.words 5 ["INCR", "k"], .timeouts 0 .running, .words 6 ["INCR", "k"]] = .ok run ∧
      run.1.store.liveEntry 0 (ascii "k") = some ⟨.string (ascii "43"), none⟩ := by
  refine Run.of_checked (fun _ => True) (by decide +kernel) fun run ran _ => ?_
  have counted : ∀ execution ∈ fortyOne.history
      [.words 5 ["INCR", "k"], .timeouts 0 .running, .words 6 ["INCR", "k"]],
      execution.increments (ascii "k") = true ∧ execution.outcome.reply ≠ notIntegerReply := by
    decide +kernel
  have tally := (incr_is_exact (ascii "k")).2 _ _ _ _ ran (by decide +kernel)
    fun execution member => .inl (counted execution member)
  have times : incrTimes (ascii "k") (fortyOne.history
      [.words 5 ["INCR", "k"], .timeouts 0 .running, .words 6 ["INCR", "k"]]) = [0, 0] := by
    decide +kernel
  have found : fortyOne.store.liveEntry 0 (ascii "k") = some ⟨.string (ascii "41"), none⟩ := rfl
  rw [times] at tally
  obtain ⟨text, number, expiry, held, numeral, -, total⟩ := tally.adds (by decide) (by decide)
  cases found.symm.trans (held 0 (by decide))
  have start : number = 41 := Option.some.inj
    ((parseInteger_eq_some.mpr numeral).symm.trans (by decide +kernel))
  rw [total 0 (by decide +kernel), found, start, Option.map_some]
  congr 3

end Credis
