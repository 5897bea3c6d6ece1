import Credis.SnapshotChecks

/-! Two keyspaces that hold alike values without expiry times under some keys. A
write of these keys answers alike on both and leaves them alike, whatever the clock
says on either side and whatever stands under the other keys. -/

namespace Credis

open ByteString Store

variable {args : List Bytes}

variable {command : Command}

namespace Value

inductive Paired : Value → Value → Prop
  | string (text : Bytes) : Paired (.string text) (.string text)
  | list (items : List Bytes) : Paired (.list items) (.list items)
  | stream (entries : List StreamEntry) : Paired (.stream entries) (.stream entries)
  | zset (left right : SortedSet) : Paired (.zset left) (.zset right)

/-- A likeness of values that the writes keep to, with scores that are numbers. -/
structure Logical (alike : Value → Value → Prop) (number : Float → Prop) : Prop where
  paired : ∀ {left right}, alike left right → Paired left right
  string : ∀ text, alike (.string text) (.string text)
  list : ∀ items, alike (.list items) (.list items)
  stream : alike (.stream []) (.stream [])
  append : ∀ {entries id parsed text fields}, alike (.stream entries) (.stream entries) →
    chooseId 0 entries id = .ok (parsed, text) →
    ¬(parsed.timestamp = 0 ∧ parsed.sequence = 0) →
    (entries.getLast?.any fun last => !StreamId.lt last.parsedId parsed) = false →
    fields ≠ [] →
    alike (.stream (entries ++ [⟨text, parsed, fields⟩]))
      (.stream (entries ++ [⟨text, parsed, fields⟩]))
  zset : alike (.zset SortedSet.empty) (.zset SortedSet.empty)
  add : ∀ {left right score} (member : Bytes), number score → alike (.zset left) (.zset right) →
    (left.add score member).2 = (right.add score member).2 ∧
      alike (.zset (left.add score member).1) (.zset (right.add score member).1)
  remove : ∀ {left right} (member : Bytes), alike (.zset left) (.zset right) →
    (left.remove member).2 = (right.remove member).2 ∧
      alike (.zset (left.remove member).1) (.zset (right.remove member).1)

end Value

namespace Store

/-- Alike values stand under these keys on both sides, and none of them expires. -/
def Agrees (alike : Value → Value → Prop) (keys : Key → Prop) (left right : Store) : Prop :=
  ∀ key, keys key → (left.data.lookup key = none ∧ right.data.lookup key = none) ∨
    ∃ one other, left.data.lookup key = some ⟨one, none⟩ ∧
      right.data.lookup key = some ⟨other, none⟩ ∧ alike one other

variable {alike : Value → Value → Prop} {number : Float → Prop} {keys : Key → Prop}
  {left right : Store} {key : Key}

inductive Paired (alike : Value → Value → Prop) : Option Entry → Option Entry → Prop
  | none : Paired alike none none
  | some {one other : Value} : alike one other →
      Paired alike (some ⟨one, none⟩) (some ⟨other, none⟩)

theorem Agrees.paired (agree : Agrees alike keys left right) (own : keys key) :
    Paired alike (left.data.lookup key) (right.data.lookup key) := by
  rcases agree key own with ⟨absent, missing⟩ | ⟨one, other, present, found, same⟩
  · rw [absent, missing]
    exact .none
  · rw [present, found]
    exact .some same

theorem Agrees.write (agree : Agrees alike keys left right) {one other : Option Entry}
    (new : Paired alike one other) :
    Agrees alike keys (left.write key one) (right.write key other) := by
  cases new with
  | none => exact agree
  | some same =>
    intro place member
    by_cases here : place = key
    · subst here
      exact .inr ⟨_, _, put_lookup _ _ _, put_lookup _ _ _, same⟩
    · simp only [Store.write, put_lookup_ne _ _ here]
      exact agree place member

theorem Agrees.reads {now : Time} {after : Store} (agree : Agrees alike keys left right)
    (reads : Reads now left after) : Agrees alike keys after right := by
  induction reads with
  | refl => exact agree
  | @drop middle place entry _ found expired ih =>
    intro key member
    by_cases same : key = place
    · subst same
      rcases ih key member with ⟨absent, -⟩ | ⟨one, other, present, -⟩
      · rw [found] at absent
        cases absent
      · rw [found] at present
        cases present
        cases expired
    · rw [eraseKey_lookup_ne _ same]
      exact ih key member

theorem unexpired_of_lookup {store : Store} (forever : ∀ entry, store.data.lookup key = some entry →
    entry.expiry = none) (now : Time) :
    store.unexpired now key = store ∧ store.liveEntry now key = store.data.lookup key := by
  unfold unexpired findValidEntry liveEntry
  cases found : store.data.lookup key with
  | none => exact ⟨rfl, rfl⟩
  | some entry =>
    have ready : isExpired now entry = false := by simp [isExpired, forever entry found]
    simp [ready]

theorem Paired.forever {one other : Option Entry} (paired : Paired alike one other) :
    (∀ entry, one = Option.some entry → entry.expiry = Option.none) ∧
      ∀ entry, other = Option.some entry → entry.expiry = Option.none := by
  cases paired with
  | none => exact ⟨nofun, nofun⟩
  | some => exact ⟨by rintro _ ⟨⟩; rfl, by rintro _ ⟨⟩; rfl⟩

variable {α : Type} {view : Value → Option α}

def ActsAlike (alike : Value → Value → Prop) (one other : Act α) : Prop :=
  one.2 = other.2 ∧ Paired alike one.1 other.1

theorem ActsAlike.named {one other : Act α} (acts : ActsAlike alike one other) (wrap : α → Returned)
    : ActsAlike alike (Operation.named wrap one) (Operation.named wrap other) :=
  ⟨congrArg wrap acts.1, acts.2⟩

theorem Operation.keeps_agrees {operation : Operation} (keyed : operation.key? = some key)
    (works : operation.onEntry = true) (timeless : operation.timeless = true) (own : keys key)
    (acts : ∀ one other, Paired alike one other →
      operation.touchless one = operation.touchless other ∧
      ActsAlike alike (operation.acts ⟨0, 0⟩ one) (operation.acts ⟨0, 0⟩ other))
    (now later : Instant) : operation.Keeps (Agrees alike keys) now later := by
  intro left right agree
  have paired := agree.paired own
  have here := unexpired_of_lookup paired.forever.1 now.steady
  have there := unexpired_of_lookup paired.forever.2 later.steady
  obtain ⟨passes, same, written⟩ := acts _ _ paired
  have first := call_acts now keyed works left
  have second := call_acts later keyed works right
  dsimp only at first second
  rw [first, second, actOn, actOn, here.1, here.2, there.1, there.2, passes,
    acts_timeless timeless now ⟨0, 0⟩, acts_timeless timeless later ⟨0, 0⟩]
  refine ⟨same, Agrees.write ?_ written⟩
  split
  · exact agree
  · exact agree

section Acts

variable (logical : Value.Logical alike number) {one other : Option Entry}
  (paired : Paired alike one other)
include paired

theorem expiryOf_paired : expiryOf one = none ∧ expiryOf other = none := by
  cases paired <;> exact ⟨rfl, rfl⟩

include logical

theorem isOther_paired
    (kinds : ∀ {left right}, Value.Paired left right → (view left).isNone = (view right).isNone) :
    isOther view one = isOther view other := by
  cases paired with
  | none => rfl
  | some same => exact kinds (logical.paired same)

theorem content_paired (kinds : ∀ {left right}, Value.Paired left right → view left = view right) :
    content view one = content view other := by
  cases paired with
  | none => rfl
  | some same => exact kinds (logical.paired same)

theorem list_paired : content Value.list? one = content Value.list? other :=
  content_paired logical paired (by rintro _ _ (_ | _ | _ | _) <;> rfl)

theorem guardedAct_alike {β γ : Type} {failure : γ} {success : β → γ} {act : Option Entry → Act β}
    (kinds : ∀ {left right}, Value.Paired left right → (view left).isNone = (view right).isNone)
    (acts : ActsAlike alike (act one) (act other)) :
    ActsAlike alike (guardedAct view failure success act one)
      (guardedAct view failure success act other) := by
  unfold guardedAct
  rw [isOther_paired logical paired kinds]
  split
  · exact ⟨rfl, .none⟩
  · exact ⟨congrArg success acts.1, acts.2⟩

theorem incrAct_alike : ActsAlike alike (incrAct one) (incrAct other) := by
  cases paired with
  | none => exact ⟨rfl, .some (logical.string _)⟩
  | some same =>
    cases logical.paired same with
    | string text =>
      unfold incrAct
      dsimp only [Value.string?, Option.bind_some]
      cases incrementable text with
      | none => exact ⟨rfl, .none⟩
      | some count => exact ⟨rfl, .some (logical.string _)⟩
    | list | stream | zset => exact ⟨rfl, .none⟩

theorem pushAct_alike (place : List Bytes → Bytes → List Bytes) (value : Bytes) :
    ActsAlike alike (pushAct place value one) (pushAct place value other) := by
  unfold pushAct
  rw [list_paired logical paired, (expiryOf_paired paired).1, (expiryOf_paired paired).2]
  exact ⟨rfl, .some (logical.list _)⟩

theorem popAct_alike (take : List Bytes → Option (Bytes × List Bytes)) :
    ActsAlike alike (popAct take one) (popAct take other) := by
  unfold popAct
  rw [list_paired logical paired, (expiryOf_paired paired).1, (expiryOf_paired paired).2]
  split
  · exact ⟨rfl, .none⟩
  · exact ⟨rfl, .some (logical.list _)⟩

theorem popManyAct_alike (take : List Bytes → Option (Bytes × List Bytes)) (count : Int) :
    ActsAlike alike (popManyAct take count one) (popManyAct take count other) := by
  unfold popManyAct
  rw [list_paired logical paired, (expiryOf_paired paired).1, (expiryOf_paired paired).2]
  split
  · exact ⟨rfl, .none⟩
  · split
    · exact ⟨rfl, .none⟩
    · exact ⟨rfl, .some (logical.list _)⟩

theorem zaddAct_alike {score : Float} (real : number score) (member : Bytes) :
    ActsAlike alike (zaddAct score member one) (zaddAct score member other) := by
  have created := (logical.add member real logical.zset).2
  cases paired with
  | none => exact ⟨rfl, .some created⟩
  | some same =>
    cases logical.paired same with
    | zset first second =>
      obtain ⟨count, kept⟩ := logical.add member real same
      exact ⟨count, .some kept⟩
    | string | list | stream => exact ⟨rfl, .some created⟩

theorem zremAct_alike (member : Bytes) :
    ActsAlike alike (zremAct member one) (zremAct member other) := by
  cases paired with
  | none => exact ⟨rfl, .none⟩
  | some same =>
    cases logical.paired same with
    | zset first second =>
      obtain ⟨count, kept⟩ := logical.remove member same
      exact ⟨count, .some kept⟩
    | string | list | stream => exact ⟨rfl, .none⟩

theorem xaddAct_alike {id : Bytes} {fields : List (Bytes × Bytes)} (filled : fields ≠ []) :
    ActsAlike alike (xaddAct 0 id fields one) (xaddAct 0 id fields other) := by
  have held : alike (.stream ((content Value.stream? other).getD []))
      (.stream ((content Value.stream? other).getD [])) := by
    cases paired with
    | none => exact logical.stream
    | some same =>
      cases logical.paired same with
      | stream entries => exact same
      | string | list | zset => exact logical.stream
  have same : content Value.stream? one = content Value.stream? other :=
    content_paired logical paired (by rintro _ _ (_ | _ | _ | _) <;> rfl)
  unfold xaddAct
  rw [same, (expiryOf_paired paired).1, (expiryOf_paired paired).2]
  dsimp only
  cases settled : settleId 0 ((content Value.stream? other).getD []) id with
  | error failure =>
    refine ⟨rfl, ?_⟩
    dsimp only
    split
    · exact .none
    · exact .some logical.stream
  | ok choice =>
    obtain ⟨parsed, text⟩ := choice
    obtain ⟨chosen, nonzero, above⟩ := settleId_ok.mp settled
    exact ⟨rfl, .some (logical.append held chosen nonzero above filled)⟩

end Acts

theorem keyIsAbsentOrHolds_agrees (logical : Value.Logical alike number)
    (agree : Agrees alike keys left right) (own : keys key) (now later : Time)
    {holds : Value → Bool} (same : ∀ one other, Value.Paired one other → holds one = holds other) :
    keyIsAbsentOrHolds holds left now key = keyIsAbsentOrHolds holds right later key := by
  unfold keyIsAbsentOrHolds
  rcases agree key own with ⟨absent, missing⟩ | ⟨one, other, present, found, kept⟩
  · rw [absent, missing]
  · rw [present, found]
    exact same one other (logical.paired kept)

end Store

open Store (Agrees)

namespace Command

def writtenKeys (args : List Bytes) : Command → List Key
  | .mset => (pairUp (args.drop 1)).map Prod.fst
  | _ => [args.getD 1 []]

def Scores (number : Float → Prop) (args : List Bytes) : Command → Prop
  | .zadd => ∀ item ∈ pairUp (args.drop 2), ∀ score, Double.parse item.1 = some score →
      number score
  | .geoadd => ∀ lat lon, number (Geo.encode lat lon).toFloat
  | _ => True

theorem pairUp_ne_nil {items : List Bytes} (even : items.length % 2 = 0) (filled : items ≠ []) :
    pairUp items ≠ [] := by
  match items with
  | [] => exact absurd rfl filled
  | [_] => exact absurd even (by simp)
  | _ :: _ :: _ => exact List.cons_ne_nil _ _

theorem Uses.keeps_agrees {alike : Value → Value → Prop} {number : Float → Prop} {keys : Key → Prop}
    {operation : Store.Operation} (used : command.Uses args operation)
    (logical : Value.Logical alike number) (writes : isWriteCommand command.name = true)
    (steady : command.isSteady args = true) (arity : command.minArgs ≤ args.length)
    (own : ∀ key ∈ command.writtenKeys args, keys key) (scores : command.Scores number args)
    (now later : Instant) : operation.Keeps (Agrees alike keys) now later := by
  have timeless := used.timeless writes steady
  have single : command.writtenKeys args = [args.getD 1 []] →
      operation.key? = some (args.getD 1 []) → operation.onEntry = true →
      operation.timeless = true → (∀ one other, Store.Paired alike one other →
        operation.touchless one = operation.touchless other ∧ Store.ActsAlike alike
          (operation.acts ⟨0, 0⟩ one) (operation.acts ⟨0, 0⟩ other)) →
      operation.Keeps (Agrees alike keys) now later := by
    intro written keyed works timeless acts
    exact Store.Operation.keeps_agrees keyed works timeless (own _ (by simp [written]))
      acts now later
  have string : ∀ {one other}, Value.Paired one other →
      (Value.string? one).isNone = (Value.string? other).isNone := by
    rintro _ _ (_ | _ | _ | _) <;> rfl
  have list : ∀ {one other}, Value.Paired one other →
      (Value.list? one).isNone = (Value.list? other).isNone := by
    rintro _ _ (_ | _ | _ | _) <;> rfl
  have stream : ∀ {one other}, Value.Paired one other →
      (Value.stream? one).isNone = (Value.stream? other).isNone := by
    rintro _ _ (_ | _ | _ | _) <;> rfl
  have zset : ∀ {one other}, Value.Paired one other →
      (Value.zset? one).isNone = (Value.zset? other).isNone := by
    rintro _ _ (_ | _ | _ | _) <;> rfl
  cases used with
  | reads reader => exact absurd (reader.symm.trans writes) (by decide)
  | check member =>
    intro left right agree
    refine ⟨congrArg Store.Returned.flag ?_, agree⟩
    refine keyIsAbsentOrHolds_agrees logical agree (own _ (List.mem_map_of_mem member)) _ _ ?_
    rintro _ _ (_ | _ | _ | _) <;> rfl
  | geoCheck =>
    intro left right agree
    refine ⟨congrArg Store.Returned.flag ?_, agree⟩
    refine keyIsAbsentOrHolds_agrees logical agree (own _ (by simp [writtenKeys])) _ _ ?_
    rintro _ _ (_ | _ | _ | _) <;> rfl
  | mset member =>
    exact Store.Operation.keeps_agrees rfl rfl rfl (own _ (List.mem_map_of_mem member))
      (fun one other paired => ⟨rfl, rfl, .some (logical.string _)⟩) now later
  | set parsed =>
    rw [setOptions_plain _ none (by simpa [isSteady] using steady)] at parsed
    cases parsed
    refine single rfl rfl rfl rfl fun one other paired => ?_
    exact ⟨isOther_paired logical paired string,
      (guardedAct_alike logical paired string ⟨rfl, .some (logical.string _)⟩).named _⟩
  | incr =>
    refine single rfl rfl rfl rfl fun one other paired => ?_
    exact ⟨isOther_paired logical paired string,
      (incrAct_alike logical paired).named _⟩
  | rpushIfValidType value | lpushIfValidType value =>
    refine single rfl rfl rfl rfl fun one other paired => ?_
    exact ⟨isOther_paired logical paired list, (guardedAct_alike logical paired list
      (pushAct_alike logical paired _ value)).named _⟩
  | rpush value | lpush value =>
    refine single rfl rfl rfl rfl fun one other paired => ?_
    exact ⟨rfl, (pushAct_alike logical paired _ value).named _⟩
  | lpop | rpop =>
    refine single rfl rfl rfl rfl fun one other paired => ?_
    exact ⟨rfl, (popAct_alike logical paired _).named _⟩
  | rpushWakes | lpushWakes | lpopCount | rpopCount =>
    refine single rfl rfl rfl rfl fun one other paired => ?_
    exact ⟨rfl, (popManyAct_alike logical paired _ _).named _⟩
  | zaddIfValidType inside =>
    obtain ⟨text, member, parsed⟩ := mem_readPairs inside
    refine single rfl rfl rfl rfl fun one other paired => ?_
    exact ⟨isOther_paired logical paired zset, (guardedAct_alike logical paired zset
      (zaddAct_alike logical paired (scores _ member _ parsed) _)).named _⟩
  | zadd inside =>
    obtain ⟨text, member, parsed⟩ := mem_readPairs inside
    refine single rfl rfl rfl rfl fun one other paired => ?_
    exact ⟨rfl, (zaddAct_alike logical paired (scores _ member _ parsed) _).named _⟩
  | geoadd lat lon member =>
    refine single rfl rfl rfl rfl fun one other paired => ?_
    exact ⟨rfl, (zaddAct_alike logical paired (scores lat lon) member).named _⟩
  | zrem member =>
    refine single rfl rfl rfl rfl fun one other paired => ?_
    exact ⟨rfl, (zremAct_alike logical paired member).named _⟩
  | xadd even =>
    have filled : pairUp (args.drop 3) ≠ [] := pairUp_ne_nil even (by
      rw [← List.length_pos_iff, List.length_drop]
      have enough : 4 ≤ args.length := arity
      omega)
    refine single rfl rfl rfl timeless fun one other paired => ?_
    exact ⟨isOther_paired logical paired stream, (guardedAct_alike logical paired
      stream (xaddAct_alike logical paired filled)).named _⟩
  | xaddWakes id =>
    refine single rfl rfl rfl rfl fun one other paired => ⟨rfl, ?_, .none⟩
    have same : Store.content Value.stream? one = Store.content Value.stream? other :=
      content_paired logical paired (by rintro _ _ (_ | _ | _ | _) <;> rfl)
    simp only [Store.Operation.acts, same]
  | blpop => cases steady

end Command

def keysWritten (args : List Bytes) : List Key :=
  match Command.lookup (toUpper (args.headD [])) with
  | some command => command.writtenKeys args
  | none => []

def AddsOnly (number : Float → Prop) (args : List Bytes) : Prop :=
  ∀ command, Command.lookup (toUpper (args.headD [])) = some command →
    command.Scores number args

theorem executeCommand_write {state : HandlerState}
    (found : Command.lookup (toUpper (args.headD [])) = some command)
    (writes : isWriteCommand (toUpper (args.headD [])) = true)
    (arity : command.minArgs ≤ args.length) (free : state.FreeFor args) (fd : Fd) (send : Bool) :
    executeCommand state fd send args (toUpper (args.headD [])) =
      state.tick.onStore (command.write args state.store (state.clock state.ticks)) := by
  have waiting := free command found arity
  rw [lookup_name found] at writes
  have ticks : command.readsClock = true := by
    cases command <;> first | rfl | exact absurd writes (by decide)
  rw [executeCommand, found]
  dsimp only
  rw [if_neg (by omega), if_pos ticks]
  exact @Command.handler_write args command writes state.tick waiting _ _ fd send

theorem bareState_free (store : Store) (args : List Bytes) : (bareState store).FreeFor args :=
  fun _ _ _ _ _ absent => by cases absent

theorem executeCommand_agrees {alike : Value → Value → Prop} {number : Float → Prop}
    {keys : Key → Prop} {state : HandlerState} {right : Store}
    (logical : Value.Logical alike number) (agree : Agrees alike keys state.store right)
    (steady : right.NoExpiry) (fits : isReplayable args = true)
    (writes : isWriteCommand (toUpper (args.headD [])) = true) (free : state.FreeFor args)
    (own : ∀ key ∈ keysWritten args, keys key) (scores : AddsOnly number args) (fd : Fd)
    (send : Bool) :
    ∃ after ticks reply, executeCommand state fd send args (toUpper (args.headD [])) =
        .ok ⟨{ state with store := after, ticks := ticks }, .normal, reply, [], false⟩ ∧
      Agrees alike keys after (applied right args) := by
  obtain ⟨-, -, runs⟩ := executeCommand_applied (bareState right) fits steady
    (bareState_free right args)
  obtain ⟨ticks, answer, ran⟩ := runs (-1) false
  obtain ⟨command, found, kind⟩ := isReplayable_iff.mp fits
  by_cases short : args.length < command.minArgs
  · refine ⟨state.store, state.ticks, _, executeCommand_short found short state fd send, ?_⟩
    rw [applied, executeCommand_short found short]
    exact agree
  · have arity : command.minArgs ≤ args.length := by omega
    have named : ∀ key ∈ command.writtenKeys args, keys key := by
      intro key member
      refine own key ?_
      rw [keysWritten, found]
      exact member
    have answers := Command.write_related ((lookup_name found) ▸ writes) (fun operation used =>
      used.keeps_agrees logical ((lookup_name found) ▸ writes) (kind.resolve_left short) arity named
        (scores command found) (state.clock state.ticks) ⟨0, 0⟩) agree
    have here := executeCommand_write found writes arity free fd send
    have there := executeCommand_write found writes arity (bareState_free right args) (-1) false
    have same : command.write args (bareState right).store
        ((bareState right).clock (bareState right).ticks) = command.write args right ⟨0, 0⟩ := rfl
    rw [same] at there
    generalize command.write args state.store (state.clock state.ticks) = one at answers here
    generalize command.write args right ⟨0, 0⟩ = other at answers there
    cases answers with
    | fault =>
      rw [there] at ran
      cases ran
    | @ok one other same =>
      refine ⟨_, state.tick.ticks, one.2, here, ?_⟩
      rw [applied, there]
      exact same.2

namespace SortedSet

variable {one other : SortedSet}

theorem insert_same {left right : AList fun _ : Bytes => ScoredMember}
    (scores : ∀ member, left.lookup member = right.lookup member) (own : Bytes)
    (position : ScoredMember) (member : Bytes) :
    (left.insert own position).lookup member = (right.insert own position).lookup member := by
  by_cases same : member = own
  · rw [same, AList.lookup_insert, AList.lookup_insert]
  · rw [AList.lookup_insert_ne same, AList.lookup_insert_ne same, scores]

theorem add_same (entries : one.entries = other.entries)
    (scores : ∀ member, one.memberScores.lookup member = other.memberScores.lookup member)
    (score : Float) (own : Bytes) :
    (one.add score own).2 = (other.add score own).2 ∧
      (one.add score own).1.entries = (other.add score own).1.entries ∧
      ∀ member, (one.add score own).1.memberScores.lookup member =
        (other.add score own).1.memberScores.lookup member := by
  unfold add
  rw [entries, scores own]
  cases other.memberScores.lookup own with
  | some position => exact ⟨rfl, rfl, insert_same scores own _⟩
  | none =>
    dsimp only
    have present : ∀ member, member ∈ one.memberScores ↔ member ∈ other.memberScores := by
      intro member
      rw [← AList.lookup_isSome, ← AList.lookup_isSome, scores]
    by_cases member : (insertUnique other.entries (score, own)).2.2 ∈ other.memberScores
    · rw [if_pos member, if_pos ((present _).mpr member)]
      exact ⟨rfl, rfl, scores⟩
    · rw [if_neg member, if_neg (mt (present _).mp member)]
      exact ⟨rfl, rfl, insert_same scores _ _⟩

theorem remove_same (entries : one.entries = other.entries)
    (scores : ∀ member, one.memberScores.lookup member = other.memberScores.lookup member)
    (own : Bytes) :
    (one.remove own).2 = (other.remove own).2 ∧
      (one.remove own).1.entries = (other.remove own).1.entries ∧
      ∀ member, (one.remove own).1.memberScores.lookup member =
        (other.remove own).1.memberScores.lookup member := by
  unfold remove
  rw [entries, scores own]
  cases other.memberScores.lookup own with
  | none => exact ⟨rfl, entries, scores⟩
  | some position =>
    refine ⟨rfl, rfl, fun member => ?_⟩
    by_cases same : member = own
    · rw [same, AList.lookup_erase, AList.lookup_erase]
    · rw [AList.lookup_erase_ne same, AList.lookup_erase_ne same, scores]

end SortedSet

namespace Value

theorem Same.refl (value : Value) : value.Same value := .inl rfl

theorem Same.paired {one other : Value} (same : one.Same other) : Paired one other := by
  rcases same with rfl | ⟨left, right, rfl, rfl, -⟩
  · cases one with
    | string text => exact .string text
    | list items => exact .list items
    | stream entries => exact .stream entries
    | zset set => exact .zset set set
  · exact .zset left right

theorem Same.sets {left right : SortedSet} (same : Same (.zset left) (.zset right)) :
    left.entries = right.entries ∧
      ∀ member, left.memberScores.lookup member = right.memberScores.lookup member := by
  rcases same with equal | ⟨_, _, first, second, entries, scores⟩
  · cases equal
    exact ⟨rfl, fun _ => rfl⟩
  · cases first
    cases second
    exact ⟨entries, scores⟩

theorem same_logical : Logical Same fun _ => True where
  paired := Same.paired
  string := fun _ => .refl _
  list := fun _ => .refl _
  stream := .refl _
  append := fun _ _ _ _ _ => .refl _
  zset := .refl _
  add := by
    intro left right score member _ same
    obtain ⟨entries, scores⟩ := same.sets
    obtain ⟨count, ordered, table⟩ := SortedSet.add_same entries scores score member
    exact ⟨count, .inr ⟨_, _, rfl, rfl, ordered, table⟩⟩
  remove := by
    intro left right member same
    obtain ⟨entries, scores⟩ := same.sets
    obtain ⟨count, ordered, table⟩ := SortedSet.remove_same entries scores member
    exact ⟨count, .inr ⟨_, _, rfl, rfl, ordered, table⟩⟩

end Value

end Credis
