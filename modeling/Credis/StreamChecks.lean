import Credis.TraceChecks
import Credis.ValueChecks

/-! Streams: the three ways to an ID, the order of the entries, and what an `XADD`
leaves behind. -/

namespace Credis

open ByteString Store Value List

variable {id : StreamId} {text : Bytes}

variable {entry : StreamEntry} {entries : List StreamEntry} {value system : Int}
  {uses : Operation → Prop} {good : List StreamEntry → Prop} {sid : StreamId} {digits : Bytes}
  {expiry : Option Time}

theorem dash_not_mem_natText (value : Nat) : 45 ∉ natText value := by
  intro member
  have digit := all_eq_true.mp (natText_digits value) 45 member
  exact absurd digit (by decide)

theorem parseInt64_unsigned (unsigned : 45 ∉ text) (parsed : parseInt64 text = some value) :
    0 ≤ value ∧ value < 2 ^ 63 := by
  obtain ⟨numeral, -, bound⟩ := parseInt64_eq_some.mp parsed
  refine ⟨?_, bound⟩
  cases numeral with
  | positive => exact Int.natCast_nonneg _
  | negative => exact absurd mem_cons_self unsigned

theorem first_dash_append (unsigned : 45 ∉ digits) :
    (digits ++ 45 :: text).idxOf? 45 = some digits.length := by
  induction digits with
  | nil => rfl
  | cons byte digits ih =>
    have other : ¬ (byte == 45) = true := by
      intro same
      exact unsigned (by simp [eq_of_beq same])
    rw [cons_append, idxOf?_cons, if_neg other,
      ih fun member => unsigned (by simp [member])]
    rfl

theorem first_dash {dash : Nat} (found : text.idxOf? 45 = some dash) : 45 ∉ text.take dash := by
  obtain ⟨bound, -, earlier⟩ := idxOf?_eq_some_iff.mp found
  intro member
  obtain ⟨index, within, same⟩ := mem_take_iff_getElem.mp member
  exact earlier index (by omega) same

namespace StreamId

theorem lt_iff (left right : StreamId) : lt left right = true ↔
    left.timestamp < right.timestamp ∨
      (left.timestamp = right.timestamp ∧ left.sequence < right.sequence) := by
  simp [lt]

theorem lt_trans {first second third : StreamId} (left : lt first second = true)
    (right : lt second third = true) : lt first third = true := by
  rw [lt_iff] at *
  omega

theorem lt_irrefl (id : StreamId) : lt id id = false := by
  rw [Bool.eq_false_iff]
  intro below
  rw [lt_iff] at below
  omega

theorem lt_total (left right : StreamId) :
    lt left right = true ∨ left = right ∨ lt right left = true := by
  rw [lt_iff, lt_iff, StreamId.mk.injEq]
  omega

structure InRange (id : StreamId) : Prop where
  timestamp : 0 ≤ id.timestamp ∧ id.timestamp < 2 ^ 63
  sequence : -(2 ^ 63) ≤ id.sequence ∧ id.sequence < 2 ^ 63

theorem parse_append {timestamp sequence : Int} (unsigned : 45 ∉ digits)
    (first : parseInt64 digits = some timestamp) (second : parseInt64 text = some sequence) :
    parse (digits ++ 45 :: text) = some ⟨timestamp, sequence⟩ := by
  have before : (digits ++ 45 :: text).take digits.length = digits := take_left
  have behind : (digits ++ 45 :: text).drop (digits.length + 1) = text := by
    rw [← drop_drop, drop_left, drop_one, tail_cons]
  simp only [parse, first_dash_append unsigned, before, behind, first, second]

theorem parse_toText (range : id.InRange) : parse id.toText = some id := by
  obtain ⟨timestamp, sequence⟩ := id
  obtain ⟨⟨positive, bound⟩, low, high⟩ := range
  obtain ⟨number, rfl⟩ := Int.eq_ofNat_of_zero_le positive
  exact parse_append (dash_not_mem_natText number) (parseInt64_intText (by omega) bound)
    (parseInt64_intText low high)

theorem parse_range (parsed : parse text = some id) : id.InRange := by
  unfold parse at parsed
  split at parsed
  · cases parsed
  rename_i dash found
  split at parsed
  · rename_i timestamp sequence first second
    cases parsed
    exact ⟨parseInt64_unsigned (first_dash found) first, (parseInt64_eq_some.mp second).2⟩
  · cases parsed

end StreamId

abbrev StreamAscending (entries : List StreamEntry) : Prop :=
  entries.Pairwise fun left right => StreamId.lt left.parsedId right.parsedId = true

namespace StreamAscending

variable {entries : List StreamEntry}

theorem le_last (ascending : StreamAscending entries) {last : StreamEntry}
    (inside : entry ∈ entries) (final : entries.getLast? = some last) :
    entry = last ∨ StreamId.lt entry.parsedId last.parsedId = true := by
  obtain ⟨front, rfl⟩ := getLast?_eq_some_iff.mp final
  rcases mem_append.mp inside with before | same
  · exact .inr ((pairwise_append.mp ascending).2.2 entry before last (by simp))
  · exact .inl (mem_singleton.mp same)

theorem above (ascending : StreamAscending entries)
    (greater : (entries.getLast?.any fun last => !StreamId.lt last.parsedId id) = false) :
    ∀ entry ∈ entries, StreamId.lt entry.parsedId id = true := by
  intro entry inside
  cases final : entries.getLast? with
  | none =>
    rw [getLast?_eq_none_iff.mp final] at inside
    cases inside
  | some last =>
    rw [final, Option.any_some] at greater
    have below : StreamId.lt last.parsedId id = true := by simpa using greater
    rcases le_last ascending inside final with rfl | earlier
    · exact below
    · exact StreamId.lt_trans earlier below

theorem append (ascending : StreamAscending entries) (greater : (entries.getLast?.any fun last =>
      !StreamId.lt last.parsedId entry.parsedId) = false) :
    StreamAscending (entries ++ [entry]) := by
  refine pairwise_append.mpr ⟨ascending, pairwise_singleton _ _, ?_⟩
  intro other inside last same
  rw [mem_singleton.mp same]
  exact above ascending greater other inside

end StreamAscending

structure StreamOrdered (entries : List StreamEntry) : Prop where
  ascending : entries.Pairwise fun left right => StreamId.lt left.parsedId right.parsedId = true
  parses : ∀ entry ∈ entries, StreamId.parse entry.id = some entry.parsedId

namespace StreamOrdered

variable {entries : List StreamEntry}

theorem nil : StreamOrdered [] := ⟨.nil, fun _ inside => (not_mem_nil inside).elim⟩

theorem append (ordered : StreamOrdered entries) (greater : (entries.getLast?.any fun last =>
      !StreamId.lt last.parsedId entry.parsedId) = false)
    (parses : StreamId.parse entry.id = some entry.parsedId) : StreamOrdered (entries ++ [entry]) :=
  ⟨StreamAscending.append ordered.ascending greater, Run.forall_mem_snoc ordered.parses parses⟩

end StreamOrdered

namespace Store

/-- What `chooseId` comes to: the ID as it stands, or one of 64 bits with a timestamp that
is the clock's or not negative. -/
inductive Chooses (system : Int) (entries : List StreamEntry) (id : Bytes) :
    Except Bytes (StreamId × Bytes) → Prop
  | refused : Chooses system entries id (.error invalidId)
  | auto {timestamp sequence : Int} :
      (id = ascii "*" ∧ timestamp = system ∧ (entries = [] → sequence = 0) ∨
        0 ≤ timestamp ∧ timestamp < 2 ^ 63 ∧
          (entries = [] → sequence = if timestamp = 0 then 1 else 0)) →
      -(2 ^ 63) ≤ sequence ∧ sequence < 2 ^ 63 → Chooses system entries id
        (.ok (⟨timestamp, sequence⟩, StreamId.toText ⟨timestamp, sequence⟩))
  | given {parsed : StreamId} : StreamId.parse id = some parsed →
      Chooses system entries id (.ok (parsed, id))

theorem chooses (system : Int) (entries : List StreamEntry) (id : Bytes) :
    Chooses system entries id (chooseId system entries id) := by
  unfold chooseId
  dsimp only
  split
  · rename_i star
    refine .auto (.inl ⟨star, rfl, ?_⟩) ?_
    · rintro rfl
      rfl
    split
    · decide
    · split
      · exact wrap64_range _
      · decide
  split
  · split
    · exact .refused
    rename_i dash found
    split
    · exact .refused
    rename_i timestamp first
    have initial : -(2 ^ 63) ≤ (if timestamp = 0 then (1 : Int) else 0) ∧
        (if timestamp = 0 then (1 : Int) else 0) < 2 ^ 63 := by
      split <;> decide
    obtain ⟨low, high⟩ := parseInt64_unsigned (first_dash found) first
    refine .auto (.inr ⟨low, high, ?_⟩) ?_
    · rintro rfl
      rfl
    · split
      · exact initial
      · split
        · exact wrap64_range _
        · exact initial
  · split
    · exact .refused
    · exact .given ‹_›

section Chosen

variable {id failure : Bytes} {parsed : StreamId}
  (chosen : chooseId system entries id = .ok (parsed, text))

include chosen

theorem chooseId_ok : Chooses system entries id (.ok (parsed, text)) :=
  chosen ▸ chooses system entries id

theorem chooseId_beginsNumber : BeginsNumber text := by
  cases chooseId_ok chosen with
  | auto => exact (intText_beginsNumber _).append _
  | given plain => exact StreamId.parse_beginsNumber plain

theorem chooseId_range (clock : 0 ≤ system ∧ system < 2 ^ 63) : parsed.InRange := by
  cases chooseId_ok chosen with
  | auto source fits =>
    rcases source with ⟨-, rfl, -⟩ | ⟨low, high, -⟩
    · exact ⟨clock, fits⟩
    · exact ⟨⟨low, high⟩, fits⟩
  | given plain => exact StreamId.parse_range plain

theorem chooseId_parses (clock : 0 ≤ system ∧ system < 2 ^ 63) :
    StreamId.parse text = some parsed := by
  have range := chooseId_range chosen clock
  cases chooseId_ok chosen with
  | auto => exact StreamId.parse_toText range
  | given plain => exact plain

end Chosen

end Store

namespace Store

def streamAt (store : Store) (now : Time) (key : Key) : List StreamEntry :=
  ((store.liveValue now key).bind stream?).getD []

section Streams

variable {store : Store} {now : Time} {key : Key}

theorem streamAt_each (each : store.Each fun _ value =>
    ∀ entries, value = .stream entries → good entries) (vacant : good []) (now : Time) (key : Key) :
    good (store.streamAt now key) := by
  unfold streamAt liveValue liveEntry
  cases present : store.data.lookup key with
  | none => exact vacant
  | some entry =>
    have kept := each key entry present
    rw [Option.filter_some]
    split
    · rw [Option.map_some, Option.bind_some]
      cases content : entry.value with
      | stream entries => exact kept entries content
      | string _ | list _ | zset _ => exact vacant
    · exact vacant

theorem streamAt_found (found : store.data.lookup key = some ⟨.stream entries, expiry⟩)
    (live : isExpired now ⟨.stream entries, expiry⟩ = false) :
    store.streamAt now key = entries := by
  rw [streamAt, liveValue, liveEntry, found, Option.filter_some, live]
  rfl

theorem streamAt_congr {left right : Store} (same : left.data.lookup key = right.data.lookup key) :
    left.streamAt now key = right.streamAt now key := by
  rw [streamAt, liveValue, liveEntry, same, streamAt, liveValue, liveEntry]

end Streams

section Settling

variable {system : Int} {entries : List StreamEntry} {id text failure : Bytes}
  {parsed : StreamId}

theorem settleId_error (failed : settleId system entries id = .error failure) :
    failure ∈ [invalidId, zeroId, smallId] := by
  unfold settleId at failed
  split at failed
  · rename_i chosen
    cases failed
    cases chosen ▸ chooses system entries id
    simp
  · split at failed
    · cases failed
      simp
    · split at failed
      · cases failed
        simp
      · cases failed

theorem refusal_startsWith (failed : failure ∈ [invalidId, zeroId, smallId]) :
    startsWith failure (ascii "ERR") = true := by
  simp only [mem_cons, not_mem_nil, or_false] at failed
  rcases failed with rfl | rfl | rfl <;> decide

end Settling

theorem star_not_mem_of_parseInt64 {text : Bytes} (parsed : parseInt64 text = some value) :
    42 ∉ text := by
  obtain ⟨whole, -⟩ := Option.filter_eq_some_iff.mp parsed
  have digits : ∀ {digits : Bytes} {number : Nat}, parseNat digits = some number →
      42 ∉ digits := by
    intro digits number read member
    unfold parseNat at read
    split at read
    · rename_i decimal
      exact absurd (all_eq_true.mp decimal.2 42 member) (by decide)
    · cases read
  unfold parseInteger at whole
  split at whole
  · rename_i rest
    cases read : parseNat rest with
    | none =>
      rw [read] at whole
      cases whole
    | some number =>
      rw [mem_cons, not_or]
      exact ⟨by decide, digits read⟩
  · cases read : parseNat text with
    | none =>
      rw [read] at whole
      cases whole
    | some number => exact digits read

theorem star_not_mem_of_parse {id : Bytes} (parsed : StreamId.parse id = some sid) : 42 ∉ id := by
  unfold StreamId.parse at parsed
  split at parsed
  · cases parsed
  rename_i dash found
  split at parsed
  · rename_i timestamp sequence first second
    obtain ⟨bound, letter, -⟩ := idxOf?_eq_some_iff.mp found
    have parts : id = id.take dash ++ 45 :: id.drop (dash + 1) := by
      rw [← letter, ← drop_eq_getElem_cons bound, take_append_drop]
    rw [parts, mem_append, mem_cons, not_or, not_or]
    exact ⟨star_not_mem_of_parseInt64 first, by decide, star_not_mem_of_parseInt64 second⟩
  · cases parsed

theorem chooseId_plain {id : Bytes} (parsed : StreamId.parse id = some sid) :
    chooseId system entries id = .ok (sid, id) := by
  have plain := star_not_mem_of_parse parsed
  have full : id ≠ ascii "*" := by
    rintro rfl
    exact plain (by decide)
  have ending : ¬ (2 ≤ id.length ∧ id.drop (id.length - 2) = ascii "-*") := by
    rintro ⟨-, tail⟩
    exact plain (mem_of_mem_drop (tail ▸ (by decide : (42 : UInt8) ∈ ascii "-*")))
  rw [chooseId, if_neg full, if_neg ending, parsed]

section Opening

variable {store : Store} {now : Instant} {key : Key} {id : Bytes} {fields : List (Bytes × Bytes)}

/-- The stream that the entry goes to: it has the entries of the live stream, none when
there is no live stream, and nothing else has changed. -/
structure Opened (store : Store) (now : Time) (key : Key) (created : Store)
    (expiry : Option Time) : Prop where
  found : created.data.lookup key = some ⟨.stream (store.streamAt now key), expiry⟩
  live : ∀ value, isExpired now ⟨value, expiry⟩ = false
  kept : ∀ entry, store.liveEntry now key = some entry → created.data = store.data
  others : ∀ other, other ≠ key → created.data.lookup other = store.data.lookup other

theorem content_streamAt (store : Store) (now : Time) (key : Key) :
    (content stream? (store.liveEntry now key)).getD [] = store.streamAt now key := by
  rw [streamAt, ← getTyped_value, getTyped_eq]

theorem xadd_settles (free : holdsOther stream? store now.steady key = false) :
    ∃ created expiry, store.Opened now.steady key created expiry ∧
      (∀ failure, settleId now.system (store.streamAt now.steady key) id = .error failure →
        store.xadd now key id fields = (created, failure)) ∧
      ∀ parsed text, settleId now.system (store.streamAt now.steady key) id =
          .ok (parsed, text) →
        store.xadd now key id fields = (created.put key
          ⟨.stream (store.streamAt now.steady key ++ [⟨text, parsed, fields⟩]), expiry⟩, text) := by
  have acts := xadd_acts now key id fields store
  have stream := content_streamAt store now.steady key
  simp only [actOn, xaddAct, stream, Bool.false_eq_true, if_false] at acts
  rw [holdsOther] at free
  cases store.looked now.steady key with
  | absent _ live kept | old _ _ _ live kept =>
    rw [live] at acts stream
    refine ⟨((store.unexpired now.steady key).touchKey key).put key ⟨.stream [], none⟩, none,
      ⟨?_, fun _ => rfl, fun entry given => ?_, fun other different => ?_⟩, ?_, ?_⟩
    · rw [put_lookup, ← stream]
      rfl
    · cases live.symm.trans given
    · exact (put_lookup_ne _ _ different).trans (unexpired_lookup_ne store _ key different)
    · intro failure failed
      rw [acts, failed]
      rfl
    · intro parsed text settled
      rw [acts, settled, put_put]
      rfl
  | live entry found ready live kept =>
    obtain ⟨value, expiry⟩ := entry
    rw [live] at acts stream free
    cases value with
    | stream entries =>
      refine ⟨store.touchKey key, expiry, ⟨?_, fun _ => ready, fun _ _ => rfl, fun _ _ => rfl⟩,
        ?_, ?_⟩
      · rw [← stream]
        exact found
      · intro failure failed
        rw [acts, failed, kept]
        rfl
      · intro parsed text settled
        rw [acts, settled, kept]
        rfl
    | string _ | list _ | zset _ => cases free

theorem xaddIfValidType_free (free : holdsOther stream? store now.steady key = false) :
    store.xaddIfValidType now key id fields =
      ((store.xadd now key id fields).1, some (store.xadd now key id fields).2) := by
  have checks := (xaddIfValidType_acts now key id fields).checksThenActs
    (xadd_acts now key id fields) store
  rwa [free] at checks

theorem xaddIfValidType_other (other : holdsOther stream? store now.steady key = true) :
    store.xaddIfValidType now key id fields = (store, none) :=
  (xaddIfValidType_acts now key id fields).other other

end Opening

/-- The outcomes of `xadd_if_valid_type`: the key holds a value of another type,
the ID is not accepted, or one entry stands behind the others. -/
inductive Extends (store : Store) (now : Instant) (key : Key) (id : Bytes)
    (fields : List (Bytes × Bytes)) (after : Store) : Option Bytes → Prop
  | wrongType : after = store → Extends store now key id fields after none
  | refused (failure : Bytes) : failure ∈ [invalidId, zeroId, smallId] →
      (∀ other, after.streamAt now.steady other = store.streamAt now.steady other) →
      Extends store now key id fields after (some failure)
  | added (parsed : StreamId) (text : Bytes) :
      chooseId now.system (store.streamAt now.steady key) id = .ok (parsed, text) →
      ¬ (parsed.timestamp = 0 ∧ parsed.sequence = 0) →
      ((store.streamAt now.steady key).getLast?.any fun last =>
        !StreamId.lt last.parsedId parsed) = false →
      after.streamAt now.steady key = store.streamAt now.steady key ++ [⟨text, parsed, fields⟩] →
      (∀ other, other ≠ key → after.streamAt now.steady other = store.streamAt now.steady other) →
      Extends store now key id fields after (some text)

theorem Opened.streamAt {store created : Store} {now : Time} {key : Key}
    (opened : store.Opened now key created expiry) (other : Key) :
    created.streamAt now other = store.streamAt now other := by
  by_cases same : other = key
  · rw [same]
    exact streamAt_found opened.found (opened.live _)
  · exact streamAt_congr (opened.others other same)

theorem xadd_extends (store : Store) (now : Instant) (key : Key) (id : Bytes)
    (fields : List (Bytes × Bytes)) (free : holdsOther stream? store now.steady key = false) :
    Extends store now key id fields (store.xadd now key id fields).1
      (some (store.xadd now key id fields).2) := by
  obtain ⟨created, expiry, opened, fails, succeeds⟩ :=
    @xadd_settles store now key id fields free
  cases settled : settleId now.system (store.streamAt now.steady key) id with
  | error failure =>
    rw [fails failure settled]
    exact .refused failure (settleId_error settled) opened.streamAt
  | ok choice =>
    obtain ⟨parsed, text⟩ := choice
    obtain ⟨chosen, nonzero, greater⟩ := settleId_ok.mp settled
    rw [succeeds parsed text settled]
    refine .added parsed text chosen nonzero greater ?_ fun other different => ?_
    · exact streamAt_found (put_lookup _ _ _) (opened.live _)
    · exact (streamAt_congr (put_lookup_ne _ _ different)).trans (opened.streamAt other)

theorem xaddIfValidType_extends (store : Store) (now : Instant) (key : Key) (id : Bytes)
    (fields : List (Bytes × Bytes)) :
    Extends store now key id fields (store.xaddIfValidType now key id fields).1
      (store.xaddIfValidType now key id fields).2 := by
  cases type : holdsOther stream? store now.steady key with
  | true =>
    rw [xaddIfValidType_other type]
    exact .wrongType rfl
  | false =>
    rw [xaddIfValidType_free type]
    exact xadd_extends store now key id fields type

end Store

/-- An `XADD` answers with an error and leaves the entries of every stream as they
are, or it answers with the ID of one new entry with its fields, behind all others. -/
def Execution.ExtendsStream (execution : Execution) : Prop :=
  let now := (execution.before.clock execution.before.ticks).steady
  (∃ text, (startsWith text (ascii "ERR") = true ∨ encodeError text = wrongTypeReply) ∧
    execution.outcome.reply = encodeError text ∧
    ∀ key, execution.after.store.streamAt now key = execution.before.store.streamAt now key) ∨
  ∃ name key id fields entry, execution.args = name :: key :: id :: fields ∧
    execution.outcome.reply = encodeBulkString entry.id ∧ entry.fields = pairUp fields ∧
    (∀ earlier ∈ execution.before.store.streamAt now key,
      StreamId.lt earlier.parsedId entry.parsedId = true) ∧
    execution.after.store.streamAt now key =
      execution.before.store.streamAt now key ++ [entry] ∧
    ∀ other, other ≠ key → execution.after.store.streamAt now other =
      execution.before.store.streamAt now other

namespace Store

def StreamsOrdered (store : Store) : Prop :=
  store.Each fun _ value => ∀ entries, value = .stream entries → StreamOrdered entries

theorem streams_closed {now : Instant} (vacant : good [])
    (append : ∀ key entries id parsed text fields,
      uses (.xadd key id fields) ∨ uses (.xaddIfValidType key id fields) → good entries →
      chooseId now.system entries id = .ok (parsed, text) →
      (entries.getLast?.any fun last => !StreamId.lt last.parsedId parsed) = false →
      good (entries ++ [⟨text, parsed, fields⟩])) :
    Closed uses (fun _ value => ∀ entries, value = .stream entries → good entries) now where
  string _ _ _ same := by cases same
  push _ _ _ _ _ _ _ _ same := by cases same
  pop _ _ _ _ _ _ _ _ _ _ same := by cases same
  add _ _ _ _ _ _ _ same := by cases same
  remove _ _ _ _ _ _ same := by cases same
  stream _ _ same := by
    cases same
    exact vacant
  append key entries id parsed text fields used old chosen greater _ same := by
    cases same
    exact append key entries id parsed text fields used (old entries rfl) chosen greater

theorem ordered_closed {now : Instant} (clock : 0 ≤ now.system ∧ now.system < 2 ^ 63) :
    Closed uses (fun _ value => ∀ entries, value = .stream entries → StreamOrdered entries)
      now :=
  streams_closed .nil fun _ _ _ _ _ _ _ ordered chosen greater =>
    ordered.append greater (chooseId_parses chosen clock)

theorem Reads.streamAt {now : Time} {before after : Store} (reads : Reads now before after)
    (key : Key) : after.streamAt now key = before.streamAt now key := by
  rw [Store.streamAt, Store.streamAt, reads.liveValue]

end Store

theorem parsed_not_error (parsed : StreamId.parse text = some id) :
    startsWith text (ascii "ERR") = false :=
  beginsNumber_not_startsWith (StreamId.parse_beginsNumber parsed)

inductive XaddOutcome (store : Store) (now : Instant) (key id : Bytes) (fields : List Bytes)
    (outcome : BlockingOutcome) : Prop
  | odd : fields.length % 2 ≠ 0 → outcome.store = store →
      outcome.reply = errorReply "ERR wrong number of arguments for 'xadd' command" →
      XaddOutcome store now key id fields outcome
  | wrongType : fields.length % 2 = 0 →
      holdsOther stream? store now.steady key = true → outcome.store = store →
      outcome.reply = wrongTypeReply → XaddOutcome store now key id fields outcome
  | refused (failure : Bytes) : fields.length % 2 = 0 →
      holdsOther stream? store now.steady key = false →
      settleId now.system (store.streamAt now.steady key) id = .error failure →
      outcome.store = (store.xadd now key id (pairUp fields)).1 →
      outcome.reply = encodeError failure → XaddOutcome store now key id fields outcome
  | added (parsed : StreamId) (text : Bytes) : fields.length % 2 = 0 →
      holdsOther stream? store now.steady key = false →
      settleId now.system (store.streamAt now.steady key) id = .ok (parsed, text) →
      Reads now.steady (store.xadd now key id (pairUp fields)).1 outcome.store →
      outcome.reply = encodeBulkString text → XaddOutcome store now key id fields outcome

theorem handleXaddWithBlocking_outcome (store : Store) (manager : Option BlockingManager)
    (now : Instant) (name key id : Bytes) (fields : List Bytes) :
    ∃ outcome, handleXaddWithBlocking store manager now (name :: key :: id :: fields) =
      .ok outcome ∧ XaddOutcome store now key id fields outcome := by
  unfold handleXaddWithBlocking
  dsimp only
  by_cases even : fields.length % 2 = 0
  · rw [if_neg (not_not.mpr even)]
    cases type : holdsOther stream? store now.steady key with
    | true =>
      rw [xaddIfValidType_other type]
      exact ⟨_, rfl, .wrongType even type rfl rfl⟩
    | false =>
      obtain ⟨created, expiry, -, fails, succeeds⟩ :=
        @xadd_settles store now key id (pairUp fields) type
      rw [xaddIfValidType_free type]
      dsimp only
      cases settled : settleId now.system (store.streamAt now.steady key) id with
      | error failure =>
        rw [fails failure settled, if_pos (refusal_startsWith (settleId_error settled))]
        exact ⟨_, rfl, .refused failure even type settled (by rw [fails failure settled]) rfl⟩
      | ok choice =>
        obtain ⟨parsed, text⟩ := choice
        have begins := chooseId_beginsNumber (settleId_ok.mp settled).1
        rw [succeeds parsed text settled]
        dsimp only
        rw [beginsNumber_not_startsWith begins, if_neg (by simp)]
        cases manager with
        | none =>
          refine ⟨_, rfl, .added parsed text even type settled ?_ rfl⟩
          rw [succeeds parsed text settled]
          exact .refl
        | some blocking =>
          refine ⟨_, rfl, .added parsed text even type settled ?_ rfl⟩
          rw [succeeds parsed text settled]
          exact wakeStreamClients_reads _ _ _ _ _ _
  · rw [if_pos even]
    exact ⟨_, rfl, .odd even rfl rfl⟩

section Command

variable {store : Store} {manager : Option BlockingManager} {now : Instant} {args : List Bytes}
  {outcome : BlockingOutcome}

theorem handleXaddWithBlocking_args
    (handled : handleXaddWithBlocking store manager now args = .ok outcome) :
    ∃ name key id fields, args = name :: key :: id :: fields ∧
      XaddOutcome store now key id fields outcome := by
  rcases args with _ | ⟨name, _ | ⟨key, _ | ⟨id, fields⟩⟩⟩
  · cases handled
  · cases handled
  · cases handled
  · obtain ⟨other, same, result⟩ :=
      handleXaddWithBlocking_outcome store manager now name key id fields
    cases same.symm.trans handled
    exact ⟨name, key, id, fields, rfl, result⟩

theorem handleXaddWithBlocking_extends
    (handled : handleXaddWithBlocking store manager now args = .ok outcome) :
    (∃ text, (startsWith text (ascii "ERR") = true ∨ encodeError text = wrongTypeReply) ∧
      outcome.reply = encodeError text ∧
      ∀ key, outcome.store.streamAt now.steady key = store.streamAt now.steady key) ∨
    ∃ name key id fields text parsed, args = name :: key :: id :: fields ∧
      outcome.reply = encodeBulkString text ∧
      ((store.streamAt now.steady key).getLast?.any fun last =>
        !StreamId.lt last.parsedId parsed) = false ∧
      outcome.store.streamAt now.steady key =
        store.streamAt now.steady key ++ [⟨text, parsed, pairUp fields⟩] ∧
      ∀ other, other ≠ key →
        outcome.store.streamAt now.steady other = store.streamAt now.steady other := by
  obtain ⟨name, key, id, fields, rfl, result⟩ := handleXaddWithBlocking_args handled
  cases result with
  | odd _ same reply =>
    exact .inl ⟨_, .inl (by decide), reply, fun key => by rw [same]⟩
  | wrongType _ _ same reply => exact .inl ⟨_, .inr rfl, reply, fun key => by rw [same]⟩
  | refused failure _ free failed same reply =>
    obtain ⟨created, expiry, opened, fails, -⟩ :=
      @xadd_settles store now key id (pairUp fields) free
    rw [fails failure failed] at same
    refine .inl ⟨failure, .inl (refusal_startsWith (settleId_error failed)), reply, ?_⟩
    intro other
    rw [same]
    exact opened.streamAt other
  | added parsed text _ free settled reads reply =>
    obtain ⟨created, expiry, opened, -, succeeds⟩ :=
      @xadd_settles store now key id (pairUp fields) free
    rw [succeeds parsed text settled] at reads
    refine .inr ⟨name, key, id, fields, text, parsed, rfl, reply,
      (settleId_ok.mp settled).2.2, ?_, fun other different => ?_⟩
    · exact (reads.streamAt key).trans
        (streamAt_found (put_lookup _ _ _) (opened.live _))
    · exact (reads.streamAt other).trans ((streamAt_congr
        (put_lookup_ne _ _ different)).trans (opened.streamAt other))

end Command

theorem xadd_extendsStream {execution : Execution} (runs : execution.Runs)
    (name : execution.cmd = ascii "XADD")
    (ordered : execution.before.store.StreamsOrdered) : execution.ExtendsStream := by
  rcases @Execution.Runs.named execution runs .xadd name with ⟨-, replied⟩ | ⟨-, called⟩
  · refine .inl ⟨_, .inl ?_, congrArg Outcome.reply replied, fun key => ?_⟩
    · rw [name]
      decide
    · rw [Execution.after, replied]
      rfl
  · obtain ⟨result, handled, -, done⟩ := onBlocking_ok called
    unfold Execution.ExtendsStream Execution.after
    rw [done]
    dsimp only
    rcases handleXaddWithBlocking_extends handled with
      ⟨text, failure, reply, same⟩ |
      ⟨name, key, id, fields, text, parsed, args, reply, greater, own, others⟩
    · exact .inl ⟨text, failure, reply, same⟩
    · refine .inr ⟨name, key, id, fields, ⟨text, parsed, pairUp fields⟩, args, reply, rfl, ?_, own,
        others⟩
      exact StreamAscending.above (streamAt_each ordered .nil _ key).ascending greater

namespace CommandContext

/-- Whatever commands have been executed: every stream is in order, and every
`XADD`, in a transaction or not, extends one stream by one entry or none. -/
theorem streams_stay_ordered {start ctx : CommandContext} {events : List Event}
    {observations : List (Option Observation)} (empty : start.store = Store.empty)
    (clock : ∀ tick, 0 ≤ (start.clock tick).system ∧ (start.clock tick).system < 2 ^ 63)
    (ran : Run.run handle start events = .ok (ctx, observations)) :
    ctx.store.StreamsOrdered ∧
      ∀ request, ∀ execution ∈ ctx.executions request, execution.before.store.StreamsOrdered ∧
        (execution.cmd = ascii "XADD" → execution.ExtendsStream) := by
  have ordered : ctx.store.StreamsOrdered :=
    (run_worked ran).each (fun tick => Store.ordered_closed (clock tick))
      (empty ▸ Store.empty_each _)
  refine ⟨ordered, fun request execution member => ?_⟩
  obtain ⟨last, trace⟩ := ctx.toHandlerState.executions_trace request.fd (ctx.commandsOf request)
  obtain ⟨-, each⟩ := @Trace.invariant
    (fun state => state.clock = start.clock ∧ state.store.StreamsOrdered) _ _ _ trace
    (fun execution _ runs held =>
      ⟨(executeCommand_wiring runs).clock.trans held.1,
        held.2.works (Store.ordered_closed (held.1 ▸ clock _)) (executeCommand_works runs)⟩)
    ⟨(run_wiring ran).clock, ordered⟩
  obtain ⟨⟨same, before⟩, runs⟩ := each execution member
  exact ⟨before, fun name => xadd_extendsStream runs name before⟩

theorem two_xadds_stay_ordered :
    ∃ run, Run.run handle (twoClients 0)
        [.words 5 ["XADD", "s", "5-1", "f", "v"], .words 6 ["XADD", "s", "5-*", "g", "w"]] =
          .ok run ∧
      (run.1.store.streamAt 0 (ascii "s")).map StreamEntry.id = [ascii "5-1", ascii "5-2"] ∧
      run.1.store.StreamsOrdered := by
  refine Run.of_checked (fun run => (run.1.store.streamAt 0 (ascii "s")).map StreamEntry.id =
    [ascii "5-1", ascii "5-2"]) (by decide +kernel) fun run ran entries => ⟨entries, ?_⟩
  exact (streams_stay_ordered rfl
    (fun _ => (by decide : (0 : Int) ≤ 0 ∧ (0 : Int) < 2 ^ 63)) ran).1

end CommandContext

end Credis
