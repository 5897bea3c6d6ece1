import Credis.RangeChecks

/-! The IDs that `XADD` settles on: when a generated one goes up, when its arithmetic
overflows, and which entries hide from a read of the whole stream. -/

namespace Credis

open ByteString Store StreamId Command

variable {execution : Execution}

variable {fields : List (Bytes × Bytes)} {sum : Int} {store : Store}

namespace Store

variable {system : Int} {entries : List StreamEntry} {id text : Bytes} {parsed : StreamId}

def autoTimestamp (system : Int) (id : Bytes) : Option Int :=
  if id = ascii "*" then some system
  else if 2 ≤ id.length ∧ id.drop (id.length - 2) = ascii "-*" then
    (id.idxOf? 45).bind fun dash => parseInt64 (id.take dash)
  else none

/-- The sum that `xadd` forms for the next sequence number, before 64 bits cut it. -/
def sequenceSum (system : Int) (entries : List StreamEntry) (id : Bytes) : Option Int :=
  (entries.getLast?.filter fun last =>
    autoTimestamp system id == some last.parsedId.timestamp).map
      fun last => last.parsedId.sequence + 1

theorem sequenceSum_eq_some : sequenceSum system entries id = some sum ↔
    ∃ last, entries.getLast? = some last ∧
      autoTimestamp system id = some last.parsedId.timestamp ∧
      last.parsedId.sequence + 1 = sum := by
  simp only [sequenceSum, Option.map_eq_some_iff, Option.filter_eq_some_iff, beq_iff_eq, and_assoc]

theorem chooseId_sum (formed : sequenceSum system entries id = some sum) :
    ∃ timestamp, chooseId system entries id =
      .ok (⟨timestamp, wrap64 sum⟩, toText ⟨timestamp, wrap64 sum⟩) := by
  obtain ⟨last, final, auto, rfl⟩ := sequenceSum_eq_some.mp formed
  refine ⟨last.parsedId.timestamp, ?_⟩
  unfold autoTimestamp at auto
  unfold chooseId
  rw [final, Option.map_some]
  dsimp only
  split at auto
  · rename_i full
    rw [if_pos full]
    cases auto
    rw [if_pos rfl]
  · rename_i other
    rw [if_neg other]
    split at auto
    · rename_i ending
      rw [if_pos ending]
      obtain ⟨dash, found, number⟩ := Option.bind_eq_some_iff.mp auto
      rw [found]
      dsimp only
      rw [number]
      dsimp only
      rw [if_pos rfl]
    · cases auto

theorem chooseId_sequence (chosen : chooseId system entries id = .ok (parsed, text)) :
    -(2 ^ 63) ≤ parsed.sequence ∧ parsed.sequence < 2 ^ 63 := by
  cases chooseId_ok chosen with
  | auto _ fits => exact fits
  | given plain => exact (parse_range plain).sequence

def SequencesFit (entries : List StreamEntry) : Prop :=
  ∀ entry ∈ entries, -(2 ^ 63) ≤ entry.parsedId.sequence ∧ entry.parsedId.sequence < 2 ^ 63

theorem SequencesFit.append (fit : SequencesFit entries)
    (chosen : chooseId system entries id = .ok (parsed, text)) :
    SequencesFit (entries ++ [⟨text, parsed, fields⟩]) :=
  Run.forall_mem_snoc fit (chooseId_sequence chosen)

theorem SequencesFit.nil : SequencesFit [] := fun _ member => (List.not_mem_nil member).elim

theorem SequencesFit.last (fit : SequencesFit entries) {last : StreamEntry}
    (final : entries.getLast? = some last) :
    -(2 ^ 63) ≤ last.parsedId.sequence ∧ last.parsedId.sequence < 2 ^ 63 :=
  fit last (List.mem_of_getLast? final)

def CanAdvance (system : Int) : Option StreamId → Prop
  | none => system ≠ 0
  | some last =>
    (last.timestamp < system ∧ system ≠ 0) ∨
      (last.timestamp = system ∧ last.sequence < int64Max ∧
        ¬ (system = 0 ∧ last.sequence = -1))

theorem settles_iff (chosen : chooseId system entries id = .ok (parsed, text)) :
    (∃ parsed text, settleId system entries id = .ok (parsed, text)) ↔
      ¬ (parsed.timestamp = 0 ∧ parsed.sequence = 0) ∧
        ∀ last, entries.getLast? = some last → lt last.parsedId parsed = true := by
  have above : (entries.getLast?.any fun last => !lt last.parsedId parsed) = false ↔
      ∀ last, entries.getLast? = some last → lt last.parsedId parsed = true := by
    cases entries.getLast? <;> simp
  constructor
  · rintro ⟨other, spelled, settled⟩
    obtain ⟨same, nonzero, greater⟩ := settleId_ok.mp settled
    cases chosen.symm.trans same
    exact ⟨nonzero, above.mp greater⟩
  · rintro ⟨nonzero, greater⟩
    exact ⟨parsed, text, settleId_ok.mpr ⟨chosen, nonzero, above.mpr greater⟩⟩

theorem chooseId_star_none (empty : entries.getLast? = none) :
    chooseId system entries (ascii "*") = .ok (⟨system, 0⟩, toText ⟨system, 0⟩) := by
  rw [chooseId, if_pos rfl, empty]
  rfl

theorem chooseId_star_some {last : StreamEntry} (final : entries.getLast? = some last) :
    chooseId system entries (ascii "*") = .ok
      (⟨system,
        if last.parsedId.timestamp = system then wrap64 (last.parsedId.sequence + 1) else 0⟩,
        toText ⟨system,
          if last.parsedId.timestamp = system then wrap64 (last.parsedId.sequence + 1)
          else 0⟩) := by
  rw [chooseId, if_pos rfl, final]
  rfl

theorem settleId_star_iff (fit : SequencesFit entries) :
    (∃ parsed text, settleId system entries (ascii "*") = .ok (parsed, text)) ↔
      CanAdvance system (entries.getLast?.map StreamEntry.parsedId) := by
  cases final : entries.getLast? with
  | none =>
    rw [settles_iff (chooseId_star_none final), final]
    simp [CanAdvance]
  | some last =>
    obtain ⟨low, high⟩ := fit.last final
    rw [settles_iff (chooseId_star_some final), final]
    simp only [Option.some.injEq, forall_eq', Option.map_some, CanAdvance, lt_iff,
      int64Max]
    split
    · rename_i same
      by_cases spent : last.parsedId.sequence = 2 ^ 63 - 1
      · have wrapped : wrap64 (2 ^ 63 - 1 + 1) = -(2 ^ 63) := by decide
        rw [spent, wrapped]
        omega
      · rw [wrap64_of_range (by omega) (by omega)]
        omega
    · omega

def LiesBefore (system : Int) (id : Bytes) : Prop :=
  (id = ascii "*" ∧ system < 0) ∨
    (parse id).any (fun sid => sid.timestamp = 0 ∧ sid.sequence < 0) = true

instance (system : Int) (id : Bytes) : Decidable (LiesBefore system id) :=
  inferInstanceAs (Decidable (_ ∨ _))

structure Visible (entries : List StreamEntry) : Prop where
  ascending : StreamAscending entries
  positive : ∀ entry ∈ entries, lt ⟨0, 0⟩ entry.parsedId = true
  bounded : ∀ entry ∈ entries, entry.parsedId.timestamp < 2 ^ 63 ∧ entry.parsedId.sequence < 2 ^ 63

def AllVisible (store : Store) : Prop :=
  store.Each fun _ value => ∀ entries, value = .stream entries → Visible entries

theorem Visible.nil : Visible [] :=
  ⟨.nil, fun _ member => (List.not_mem_nil member).elim,
    fun _ member => (List.not_mem_nil member).elim⟩

theorem chooseId_timestamp (clock : system < 2 ^ 63)
    (chosen : chooseId system entries id = .ok (parsed, text)) : parsed.timestamp < 2 ^ 63 := by
  cases chooseId_ok chosen with
  | auto source => exact source.elim (fun star => star.2.1 ▸ clock) fun dash => dash.2.1
  | given plain => exact (parse_range plain).timestamp.2

theorem chooseId_positive (settled : settleId system [] id = .ok (parsed, text))
    (ahead : ¬ LiesBefore system id) : lt ⟨0, 0⟩ parsed = true := by
  obtain ⟨chosen, nonzero, -⟩ := settleId_ok.mp settled
  rw [lt_iff]
  cases chooseId_ok chosen with
  | auto source =>
    rcases source with ⟨full, same, sequence⟩ | ⟨unsigned, -, sequence⟩
    · rw [sequence rfl] at nonzero ⊢
      have clock : ¬ system < 0 := fun early => ahead (.inl ⟨full, early⟩)
      dsimp only at nonzero ⊢
      omega
    · rw [sequence rfl]
      dsimp only
      split <;> omega
  | given plain =>
    have unsigned := (parse_range plain).timestamp.1
    obtain ⟨timestamp, sequence⟩ := parsed
    dsimp only at unsigned nonzero ⊢
    by_contra behind
    refine ahead (.inr ?_)
    rw [plain, Option.any_some, decide_eq_true_iff]
    dsimp only
    omega

theorem LiesBefore.settles (before : LiesBefore system id) :
    ∃ parsed text, settleId system [] id = .ok (parsed, text) ∧
      lt ⟨0, 0⟩ parsed = false := by
  rcases before with ⟨rfl, early⟩ | negative
  · refine ⟨⟨system, 0⟩, toText ⟨system, 0⟩, settleId_ok.mpr
      ⟨chooseId_star_none rfl, ?_, rfl⟩, ?_⟩
    · dsimp only
      omega
    · rw [Bool.eq_false_iff, ne_eq, lt_iff]
      dsimp only
      omega
  · obtain ⟨sid, plain, negative⟩ := (Option.any_eq_true _ _).mp negative
    rw [decide_eq_true_iff] at negative
    refine ⟨sid, id, settleId_ok.mpr ⟨chooseId_plain plain, ?_, rfl⟩, ?_⟩
    · omega
    · rw [Bool.eq_false_iff, ne_eq, lt_iff]
      dsimp only
      omega

theorem Visible.append (visible : Visible entries) (clock : system < 2 ^ 63)
    (settled : settleId system entries id = .ok (parsed, text))
    (ahead : entries = [] → ¬ LiesBefore system id) :
    Visible (entries ++ [⟨text, parsed, fields⟩]) := by
  obtain ⟨chosen, -, greater⟩ := settleId_ok.mp settled
  have positive : lt ⟨0, 0⟩ parsed = true := by
    cases final : entries.getLast? with
    | none =>
      rw [List.getLast?_eq_none_iff.mp final] at settled ahead
      exact chooseId_positive settled (ahead rfl)
    | some last =>
      have member := List.mem_of_getLast? final
      exact lt_trans (visible.positive last member)
        (StreamAscending.above visible.ascending greater last member)
  exact ⟨StreamAscending.append visible.ascending greater,
    Run.forall_mem_snoc visible.positive positive, Run.forall_mem_snoc visible.bounded
      ⟨chooseId_timestamp clock chosen, (chooseId_sequence chosen).2⟩⟩

def ShowsAll (store : Store) : Prop :=
  ∀ moment key,
    (store.xrange moment key (ascii "-") (ascii "+")).2 = store.streamAt moment key ∧
      (store.xread moment key (ascii "0-0")).2 = store.streamAt moment key

theorem readThreshold_zero : readThreshold (ascii "0-0") = ⟨0, 0⟩ := by decide

theorem showsAll_of_visible (visible : ∀ moment key, Visible (store.streamAt moment key)) :
    store.ShowsAll := by
  intro moment key
  have shown := visible moment key
  constructor
  · rw [xrange_between shown.ascending]
    refine List.filter_eq_self.mpr fun entry member => ?_
    have bound := shown.bounded entry member
    have first : rangeStart (ascii "-") = ⟨0, 0⟩ := by decide
    have last : rangeEnd (ascii "+") = ⟨int64Max, int64Max⟩ := by decide
    rw [Bool.and_eq_true, first, last]
    refine ⟨(le_iff _ _).mpr (.inl (shown.positive entry member)), ?_⟩
    rw [le, Bool.not_eq_true', Bool.eq_false_iff, ne_eq, lt_iff]
    dsimp only [int64Max]
    omega
  · rw [xread_behind shown.ascending, readThreshold_zero]
    exact List.filter_eq_self.mpr fun entry member => shown.positive entry member

theorem Opened.each {created : Store} {now : Time} {key : Key} {expiry : Option Time}
    {holds : Key → Value → Prop} (opened : store.Opened now key created expiry)
    (each : store.Each holds) (stream : holds key (.stream (store.streamAt now key))) :
    created.Each holds := by
  intro other entry present
  by_cases same : other = key
  · subst same
    rw [opened.found] at present
    cases present
    exact stream
  · rw [opened.others other same] at present
    exact each other entry present

end Store

theorem executeCommand_xadd_outcome (state : HandlerState) (fd : Fd) (name key id field : Bytes)
    (fields : List Bytes) :
    ∃ outcome result, executeCommand state fd true (name :: key :: id :: field :: fields)
        (ascii "XADD") = .ok outcome ∧
      XaddOutcome state.store (state.clock state.ticks) key id (field :: fields) result ∧
      outcome.state.store = result.store ∧ outcome.reply = result.reply := by
  obtain ⟨result, handled, leaves⟩ := handleXaddWithBlocking_outcome state.tick.store
    state.tick.blockingManager (state.clock state.ticks) name key id (field :: fields)
  have found : lookup (ascii "XADD") = some .xadd := lookup_name_self .xadd
  have enough : ¬ (name :: key :: id :: field :: fields).length < minArgs .xadd := by
    simp only [List.length_cons, minArgs]
    omega
  unfold executeCommand
  rw [found]
  dsimp only
  rw [if_neg enough]
  simp only [readsClock, if_true, handler, handled, HandlerState.onBlocking]
  rw [if_neg (by simp)]
  exact ⟨_, result, rfl, leaves, rfl, rfl⟩

theorem executeCommand_xadd_ok {state : HandlerState} {fd : Fd} {send : Bool} {args : List Bytes}
    {outcome : Outcome} (done : executeCommand state fd send args (ascii "XADD") = .ok outcome) :
    (args.length < 4 ∧ outcome = state.replied (arityReply (ascii "XADD"))) ∨
    ∃ first key id field fields result, args = first :: key :: id :: field :: fields ∧
      XaddOutcome state.store (state.clock state.ticks) key id (field :: fields) result ∧
      outcome.state.store = result.store ∧ outcome.reply = result.reply := by
  have found : lookup (ascii "XADD") = some .xadd := lookup_name_self .xadd
  unfold executeCommand at done
  rw [found] at done
  dsimp only at done
  split at done
  · rename_i short
    cases done
    exact .inl ⟨short, rfl⟩
  · rename_i enough
    obtain ⟨first, key, id, field, fields, rfl⟩ := four_arguments (Nat.le_of_not_lt enough)
    obtain ⟨result, handled, leaves⟩ := handleXaddWithBlocking_outcome state.store
      state.blockingManager (state.clock state.ticks) first key id (field :: fields)
    obtain ⟨same, again, -, rfl⟩ := onBlocking_ok done
    cases handled.symm.trans again
    exact .inr ⟨first, key, id, field, fields, result, rfl, leaves, rfl, rfl⟩

theorem Execution.Runs.xadd (runs : execution.Runs) (name : execution.cmd = ascii "XADD") :
    (execution.args.length < 4 ∧
      execution.outcome = execution.before.replied (arityReply execution.cmd)) ∨
    ∃ first key id field fields result,
      execution.args = first :: key :: id :: field :: fields ∧
      XaddOutcome execution.before.store execution.now key id (field :: fields) result ∧
      execution.after.store = result.store ∧ execution.outcome.reply = result.reply := by
  unfold Execution.Runs at runs
  rw [name] at runs ⊢
  exact executeCommand_xadd_ok runs

/-- The arguments put an ID before `0-0` into a stream without entries. -/
def Store.Hides (store : Store) (now : Instant) : List Bytes → Prop
  | _ :: key :: id :: field :: fields =>
    (field :: fields).length % 2 = 0 ∧
      holdsOther Value.stream? store now.steady key = false ∧
      store.streamAt now.steady key = [] ∧ Store.LiesBefore now.system id
  | _ => False

instance (store : Store) (now : Instant) : (args : List Bytes) → Decidable (store.Hides now args)
  | _ :: _ :: _ :: _ :: _ => inferInstanceAs (Decidable (_ ∧ _))
  | [] | [_] | [_, _] | [_, _, _] => isFalse fun hides => hides

def Execution.Hides (execution : Execution) : Prop :=
  execution.cmd = ascii "XADD" ∧ execution.before.store.Hides execution.now execution.args

instance (execution : Execution) : Decidable execution.Hides :=
  inferInstanceAs (Decidable (_ ∧ _))

def Execution.AddsAhead (execution : Execution) : Prop :=
  ∀ key entry, execution.after.store.streamAt execution.now.steady key =
      execution.before.store.streamAt execution.now.steady key ++ [entry] →
    lt ⟨0, 0⟩ entry.parsedId = true

theorem Execution.Runs.visible (runs : execution.Runs) (clock : execution.now.system < 2 ^ 63)
    (ahead : ¬ execution.Hides) (each : execution.before.store.AllVisible) :
    execution.after.store.AllVisible := by
  by_cases name : execution.cmd = ascii "XADD"
  · rcases runs.xadd name with ⟨-, replied⟩ |
      ⟨first, key, id, field, fields, result, args, leaves, store, -⟩
    · rw [Execution.after, replied]
      exact each
    · have visible := streamAt_each each .nil execution.now.steady key
      rw [store]
      cases leaves with
      | odd _ same => exact same ▸ each
      | wrongType _ _ same => exact same ▸ each
      | refused failure _ free failed left =>
        obtain ⟨created, expiry, opened, fails, -⟩ := @xadd_settles
          execution.before.store execution.now key id (pairUp (field :: fields)) free
        rw [left, fails failure failed]
        exact opened.each each fun entries same => by cases same; exact visible
      | added parsed text even free settled reads =>
        obtain ⟨created, expiry, opened, -, succeeds⟩ := @xadd_settles
          execution.before.store execution.now key id (pairUp (field :: fields)) free
        rw [succeeds parsed text settled] at reads
        have base := opened.each each fun entries same => by cases same; exact visible
        refine (base.put fun entries same => ?_).reads reads
        cases same
        exact visible.append clock settled fun absent before =>
          ahead ⟨name, by rw [args]; exact ⟨even, free, absent, before⟩⟩
  · refine each.works (streams_closed .nil ?_) (CommandContext.executeCommand_works runs)
    intro key entries id parsed text fields used
    rcases used with ⟨writes, command, found, used⟩ | ⟨writes, command, found, used⟩
    · cases used with
      | reads _ passes => cases writes.symm.trans passes
    · cases used with
      | reads _ passes => cases writes.symm.trans passes
      | xadd => exact absurd (lookup_name found) name

theorem Execution.Runs.hidden (runs : execution.Runs) (hides : execution.Hides) :
    ∃ key entry, lt ⟨0, 0⟩ entry.parsedId = false ∧
      execution.before.store.streamAt execution.now.steady key = [] ∧
      execution.after.store.streamAt execution.now.steady key = [entry] := by
  obtain ⟨name, hides⟩ := hides
  rcases runs.xadd name with ⟨short, -⟩ |
    ⟨first, key, id, field, fields, result, args, leaves, store, -⟩
  · obtain ⟨first, key, id, field, fields, args⟩ : ∃ first key id field fields,
        execution.args = first :: key :: id :: field :: fields := by
      unfold Store.Hides at hides
      split at hides
      · rename_i args
        exact ⟨_, _, _, _, _, args⟩
      · cases hides
    rw [args] at short
    simp only [List.length_cons] at short
    omega
  · rw [args] at hides
    obtain ⟨even, free, absent, lies⟩ := hides
    obtain ⟨parsed, text, settled, behind⟩ := lies.settles
    refine ⟨key, ⟨text, parsed, pairUp (field :: fields)⟩, behind, absent, ?_⟩
    rw [store]
    rw [← absent] at settled
    cases leaves with
    | odd odd => exact absurd even odd
    | wrongType _ wrong => cases free.symm.trans wrong
    | refused failure _ _ failed => cases failed.symm.trans settled
    | added taken spelled _ _ once reads =>
      cases once.symm.trans settled
      obtain ⟨created, expiry, opened, -, succeeds⟩ := @xadd_settles
        execution.before.store execution.now key id (pairUp (field :: fields)) free
      rw [succeeds parsed text settled] at reads
      rw [reads.streamAt, streamAt_found (put_lookup _ _ _) (opened.live _), absent,
        List.nil_append]

theorem Execution.Runs.showsAll_iff (runs : execution.Runs) (clock : execution.now.system < 2 ^ 63)
    (visible : execution.before.store.AllVisible) :
    execution.after.store.ShowsAll ↔ ¬ execution.Hides := by
  constructor
  · intro shows hides
    obtain ⟨key, entry, behind, -, only⟩ := runs.hidden hides
    have read := (shows execution.now.steady key).2
    have ascending : StreamAscending (execution.after.store.streamAt execution.now.steady key) := by
      rw [only]
      exact List.pairwise_singleton _ _
    rw [xread_behind ascending, only, readThreshold_zero, List.filter_singleton,
      behind] at read
    cases read
  · exact fun ahead => showsAll_of_visible fun moment key =>
      streamAt_each (runs.visible clock ahead visible) .nil moment key

theorem Execution.Runs.addsAhead_iff (runs : execution.Runs) (clock : execution.now.system < 2 ^ 63)
    (visible : execution.before.store.AllVisible) : execution.AddsAhead ↔ ¬ execution.Hides := by
  constructor
  · intro ahead hides
    obtain ⟨key, entry, behind, absent, only⟩ := runs.hidden hides
    have positive := ahead key entry (by rw [absent, only, List.nil_append])
    cases behind.symm.trans positive
  · intro ahead key entry extended
    have shown := streamAt_each (runs.visible clock ahead visible) .nil
      execution.now.steady key
    exact shown.positive entry (by rw [extended]; simp)

namespace CommandContext

variable {start ctx : CommandContext} {events : List Event}
  {observations : List (Option Observation)}

theorem run_streams {good : List StreamEntry → Prop} (vacant : good [])
    (append : ∀ tick entries id parsed text fields, good entries →
      chooseId (start.clock tick).system entries id = .ok (parsed, text) →
      (entries.getLast?.any fun last => !lt last.parsedId parsed) = false →
      good (entries ++ [⟨text, parsed, fields⟩])) (empty : start.store = Store.empty)
    (ran : Run.run handle start events = .ok (ctx, observations)) (moment : Time) (key : Key) :
    good (ctx.store.streamAt moment key) := by
  refine streamAt_each ((run_worked ran).each (fun tick => ?_) (empty ▸ empty_each _))
    vacant moment key
  exact streams_closed vacant fun _ entries id parsed text fields _ =>
    append tick entries id parsed text fields

theorem run_sequencesFit (empty : start.store = Store.empty)
    (ran : Run.run handle start events = .ok (ctx, observations)) (moment : Time) (key : Key) :
    Store.SequencesFit (ctx.store.streamAt moment key) :=
  run_streams .nil (fun _ _ _ _ _ _ fit chosen _ => fit.append chosen) empty ran moment key

theorem run_ascending (empty : start.store = Store.empty)
    (ran : Run.run handle start events = .ok (ctx, observations)) (moment : Time) (key : Key) :
    StreamAscending (ctx.store.streamAt moment key) :=
  @run_streams _ _ _ _ StreamAscending .nil
    (fun _ _ _ _ _ _ ascending _ greater => StreamAscending.append ascending greater) empty ran
    moment key

/-- The sum for the next sequence number leaves 64 bits exactly when the last entry has
the largest one. -/
theorem next_sequence_fits_iff (empty : start.store = Store.empty)
    (ran : Run.run handle start events = .ok (ctx, observations)) (moment : Time) (key : Key)
    (system : Int) (id : Bytes) :
    (∀ sum, sequenceSum system (ctx.store.streamAt moment key) id = some sum →
      ∃ timestamp, chooseId system (ctx.store.streamAt moment key) id =
        .ok (⟨timestamp, wrap64 sum⟩, toText ⟨timestamp, wrap64 sum⟩)) ∧
    ((∀ sum, sequenceSum system (ctx.store.streamAt moment key) id = some sum →
        -(2 ^ 63) ≤ sum ∧ sum < 2 ^ 63) ↔
      ∀ last, (ctx.store.streamAt moment key).getLast? = some last →
        autoTimestamp system id = some last.parsedId.timestamp →
        last.parsedId.sequence ≠ int64Max) := by
  have fit := run_sequencesFit empty ran moment key
  refine ⟨fun sum => chooseId_sum, ?_, ?_⟩
  · intro fits last final auto spent
    have sum := (fits _ (sequenceSum_eq_some.mpr ⟨last, final, auto, rfl⟩)).2
    rw [spent, int64Max] at sum
    omega
  · intro unspent sum formed
    obtain ⟨last, final, auto, rfl⟩ := sequenceSum_eq_some.mp formed
    have range := fit.last final
    have below := unspent last final auto
    rw [int64Max] at below
    omega

theorem five_one_next_fits :
    ∃ run, Run.run handle (twoClients 0) [.words 5 ["XADD", "s", "5-1", "f", "v"]] = .ok run ∧
      sequenceSum 0 (run.1.store.streamAt 0 (ascii "s")) (ascii "5-*") = some 2 ∧
      ∀ sum, sequenceSum 0 (run.1.store.streamAt 0 (ascii "s")) (ascii "5-*") = some sum →
        -(2 ^ 63) ≤ sum ∧ sum < 2 ^ 63 := by
  refine Run.of_checked (fun run =>
    sequenceSum 0 (run.1.store.streamAt 0 (ascii "s")) (ascii "5-*") = some 2 ∧
    ((run.1.store.streamAt 0 (ascii "s")).getLast?.map fun last => last.parsedId.sequence) =
      some 1) (by decide +kernel) fun run ran ⟨two, last⟩ => ⟨two, ?_⟩
  refine (next_sequence_fits_iff rfl ran 0 (ascii "s") 0 (ascii "5-*")).2.mpr ?_
  intro entry final _ spent
  rw [final, Option.map_some, spent] at last
  exact absurd last (by decide)

/-- The client may choose the largest sequence number, and the next one is beyond 64
bits. -/
theorem largest_sequence_next_overflows :
    Run.Succeeds (Run.run handle (twoClients 0)
        [.words 5 ["XADD", "s", "5-9223372036854775807", "f", "v"]])
      fun result => sequenceSum 0 (result.1.store.streamAt 0 (ascii "s")) (ascii "5-*") =
        some (2 ^ 63) := by
  decide +kernel

/-- `XADD` with `*` appends an entry behind all others exactly when the clock is not
behind the last ID. -/
theorem auto_id_advances_iff (empty : start.store = Store.empty)
    (ran : Run.run handle start events = .ok (ctx, observations)) (fd : Fd) (key field : Bytes)
    {fields : List Bytes} (even : (field :: fields).length % 2 = 0)
    (free : holdsOther Value.stream? ctx.store (ctx.clock ctx.ticks).steady key = false) :
    ∃ outcome, executeCommand ctx.toHandlerState fd true
        (ascii "XADD" :: key :: ascii "*" :: field :: fields) (ascii "XADD") = .ok outcome ∧
      ((∃ entry, outcome.reply = encodeBulkString entry.id ∧
          outcome.state.store.streamAt (ctx.clock ctx.ticks).steady key =
            ctx.store.streamAt (ctx.clock ctx.ticks).steady key ++ [entry] ∧
          ∀ earlier ∈ ctx.store.streamAt (ctx.clock ctx.ticks).steady key,
            StreamId.lt earlier.parsedId entry.parsedId = true) ↔
        Store.CanAdvance (ctx.clock ctx.ticks).system
          ((ctx.store.streamAt (ctx.clock ctx.ticks).steady key).getLast?.map
            StreamEntry.parsedId)) := by
  obtain ⟨outcome, result, executed, leaves, store, reply⟩ := executeCommand_xadd_outcome
    ctx.toHandlerState fd (ascii "XADD") key (ascii "*") field fields
  have ascending := run_ascending empty ran (ctx.clock ctx.ticks).steady key
  have fit := run_sequencesFit empty ran (ctx.clock ctx.ticks).steady key
  refine ⟨outcome, executed, ?_⟩
  rw [← settleId_star_iff fit]
  constructor
  · rintro ⟨entry, -, extended, -⟩
    rw [store] at extended
    have same : result.store.streamAt (ctx.clock ctx.ticks).steady key ≠
        ctx.store.streamAt (ctx.clock ctx.ticks).steady key := by
      rw [extended]
      simp
    cases leaves with
    | odd odd => exact absurd even odd
    | wrongType _ other => cases free.symm.trans other
    | refused failure _ _ failed left =>
      obtain ⟨created, expiry, opened, fails, -⟩ := @xadd_settles ctx.store
        (ctx.clock ctx.ticks) key (ascii "*") (pairUp (field :: fields)) free
      refine absurd ?_ same
      rw [left, fails failure failed]
      exact opened.streamAt key
    | added parsed text _ _ settled => exact ⟨parsed, text, settled⟩
  · rintro ⟨parsed, text, settled⟩
    cases leaves with
    | odd odd => exact absurd even odd
    | wrongType _ other => cases free.symm.trans other
    | refused failure _ _ failed => cases failed.symm.trans settled
    | added other spelled _ _ again reads answer =>
      cases again.symm.trans settled
      obtain ⟨created, expiry, opened, -, succeeds⟩ := @xadd_settles ctx.store
        (ctx.clock ctx.ticks) key (ascii "*") (pairUp (field :: fields)) free
      rw [succeeds parsed text settled] at reads
      refine ⟨⟨text, parsed, pairUp (field :: fields)⟩, reply.trans answer, ?_, ?_⟩
      · rw [store, reads.streamAt]
        exact streamAt_found (put_lookup _ _ _) (opened.live _)
      · exact StreamAscending.above ascending (settleId_ok.mp settled).2.2

theorem same_millisecond_advances :
    ∃ run, Run.run handle (twoClients 0) [.words 5 ["XADD", "s", "0-1", "f", "v"]] = .ok run ∧
      ∃ outcome entry, executeCommand run.1.toHandlerState 6 true
          [ascii "XADD", ascii "s", ascii "*", ascii "g", ascii "w"] (ascii "XADD") =
            .ok outcome ∧
        outcome.reply = encodeBulkString entry.id ∧
        outcome.state.store.streamAt (run.1.clock run.1.ticks).steady (ascii "s") =
          run.1.store.streamAt (run.1.clock run.1.ticks).steady (ascii "s") ++ [entry] := by
  refine Run.of_checked (fun run => holdsOther Value.stream? run.1.store
      (run.1.clock run.1.ticks).steady (ascii "s") = false ∧
    (run.1.clock run.1.ticks).system = 0 ∧
    (run.1.store.streamAt (run.1.clock run.1.ticks).steady (ascii "s")).getLast?.map
      StreamEntry.parsedId = some ⟨0, 1⟩) (by decide +kernel) ?_
  intro run ran ⟨free, system, last⟩
  obtain ⟨outcome, executed, advances⟩ := @auto_id_advances_iff _ _ _ _ rfl ran 6 (ascii "s")
    (ascii "g") [ascii "w"] rfl free
  rw [system, last] at advances
  obtain ⟨entry, reply, extended, -⟩ := advances.mpr (.inr (by decide))
  exact ⟨outcome, entry, executed, reply, extended⟩

/-- An ID of the future in the stream makes the clock's own one too small. -/
theorem future_id_stops_auto_ids :
    Run.Succeeds (Run.run handle { twoClients 0 with clock := fun _ => ⟨0, 3⟩ }
        [.words 5 ["XADD", "s", "5-1", "f", "v"], .words 6 ["XADD", "s", "*", "g", "w"]])
      fun result => result.2.getLast?.join.map (fun observation => observation.effect.reply) =
          some (encodeError smallId) ∧
        (result.1.store.streamAt 0 (ascii "s")).map StreamEntry.id = [ascii "5-1"] := by
  decide +kernel

theorem history_visible {condition : Execution → Prop} (empty : start.store = Store.empty)
    (clock : ∀ tick, (start.clock tick).system < 2 ^ 63)
    (ran : Run.run handle start events = .ok (ctx, observations))
    (ahead : ∀ execution : Execution, execution.Runs → execution.now.system < 2 ^ 63 →
      execution.before.store.AllVisible → condition execution → ¬ execution.Hides)
    (meets : ∀ execution ∈ start.history events, condition execution) :
    ctx.store.AllVisible ∧ ∀ execution ∈ start.history events,
      execution.Runs ∧ execution.now.system < 2 ^ 63 ∧ execution.before.store.AllVisible := by
  have bound : ∀ {execution : Execution}, execution.before.clock = start.clock →
      execution.now.system < 2 ^ 63 := by
    intro execution same
    rw [Execution.now, same]
    exact clock _
  obtain ⟨⟨-, final⟩, each⟩ := @history_inOrder
    (fun _ state => state.clock = start.clock ∧ state.store.AllVisible) (fun _ => condition)
    (fun _ execution runs held meets => ⟨(executeCommand_wiring runs).clock.trans held.1,
      runs.visible (bound held.1) (ahead execution runs (bound held.1) held.2 meets) held.2⟩)
    (fun _ _ _ between held => ⟨between.clock.trans held.1, between.store.symm ▸ held.2⟩)
    start ctx events observations [] ran ⟨rfl, empty ▸ empty_each _⟩
    (Run.inOrder_forall.mpr meets)
  refine ⟨final, fun execution member => ?_⟩
  obtain ⟨⟨same, visible⟩, runs⟩ := Run.inOrder_forall.mp each execution member
  exact ⟨runs, bound same, visible⟩

/-- A run shows all entries of all streams in every state, and accepts only IDs behind
`0-0`, exactly when it never starts a stream with an ID before `0-0`. -/
theorem full_reads_complete_iff (empty : start.store = Store.empty)
    (clock : ∀ tick, (start.clock tick).system < 2 ^ 63)
    (ran : Run.run handle start events = .ok (ctx, observations)) :
    (((∀ execution ∈ start.history events, execution.after.store.ShowsAll) ∧
        ctx.store.ShowsAll) ↔ ∀ execution ∈ start.history events, ¬ execution.Hides) ∧
    ((∀ execution ∈ start.history events, execution.AddsAhead) ↔
      ∀ execution ∈ start.history events, ¬ execution.Hides) := by
  refine ⟨⟨?_, ?_⟩, ?_, ?_⟩
  · rintro ⟨shows, -⟩ execution member
    obtain ⟨-, each⟩ := history_visible empty clock ran
      (fun _ runs early visible => (runs.showsAll_iff early visible).mp) shows
    obtain ⟨runs, early, visible⟩ := each execution member
    exact (runs.showsAll_iff early visible).mp (shows execution member)
  · intro ahead
    obtain ⟨final, each⟩ := history_visible empty clock ran (fun _ _ _ _ meets => meets) ahead
    refine ⟨fun execution member => ?_, showsAll_of_visible fun moment key =>
      streamAt_each final .nil moment key⟩
    obtain ⟨runs, early, visible⟩ := each execution member
    exact (runs.showsAll_iff early visible).mpr (ahead execution member)
  · intro adds execution member
    obtain ⟨-, each⟩ := history_visible empty clock ran
      (fun _ runs early visible => (runs.addsAhead_iff early visible).mp) adds
    obtain ⟨runs, early, visible⟩ := each execution member
    exact (runs.addsAhead_iff early visible).mp (adds execution member)
  · intro ahead execution member
    obtain ⟨-, each⟩ := history_visible empty clock ran (fun _ _ _ _ meets => meets) ahead
    obtain ⟨runs, early, visible⟩ := each execution member
    exact (runs.addsAhead_iff early visible).mpr (ahead execution member)

theorem first_ids_are_read :
    ∃ run, Run.run handle (twoClients 0) [.words 5 ["XADD", "s", "0-1", "f", "v"],
        .words 6 ["XADD", "s", "5-*", "g", "w"]] = .ok run ∧ run.1.store.ShowsAll := by
  refine Run.of_checked (fun _ => True) (by decide +kernel) fun run ran _ => ?_
  refine ((full_reads_complete_iff rfl (fun _ => (by decide : (0 : Int) < 2 ^ 63)) ran).1.mpr ?_).2
  decide +kernel

/-- `0--1` is an ID before `0-0`: it is accepted, and neither read returns it. -/
theorem negative_sequence_hides :
    Run.Succeeds (Run.run handle (twoClients 0) [.words 5 ["XADD", "s", "0--1", "f", "v"]])
      fun result => (result.1.store.streamAt 0 (ascii "s")).map StreamEntry.id =
          [ascii "0--1"] ∧
        (result.1.store.xrange 0 (ascii "s") (ascii "-") (ascii "+")).2 = [] ∧
        (result.1.store.xread 0 (ascii "s") (ascii "0-0")).2 = [] := by
  decide +kernel

end CommandContext

end Credis
