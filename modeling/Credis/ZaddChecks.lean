import Mathlib.Data.Finset.Card
import Credis.FailureChecks
import Credis.SnapshotChecks

/-! `ZADD` with several pairs. The handler reads and adds pair by pair, so that an error
leaves the pairs in front of it added. -/

namespace Credis

open ByteString SortedSet

variable {items : List ScoredMember} {now : Time} {member : Bytes} {store : Store}

def lastScore (items : List ScoredMember) (member : Bytes) : Option Float :=
  (items.reverse.find? fun item => item.2 == member).map Prod.fst

theorem lastScore_append (items : List ScoredMember) (item : ScoredMember) (member : Bytes) :
    lastScore (items ++ [item]) member =
      if item.2 = member then some item.1 else lastScore items member := by
  unfold lastScore
  rw [List.reverse_append, List.reverse_singleton, List.singleton_append, List.find?_cons]
  by_cases same : item.2 = member
  · rw [if_pos same, beq_iff_eq.mpr same]
    rfl
  · rw [if_neg same, beq_eq_false_iff_ne.mpr same]

theorem lastScore_isSome (items : List ScoredMember) (member : Bytes) :
    (lastScore items member).isSome = true ↔ member ∈ items.map Prod.snd := by
  unfold lastScore
  rw [Option.isSome_map, List.find?_isSome, List.mem_map]
  simp only [List.mem_reverse, beq_iff_eq]

namespace SortedSet

variable {set : SortedSet}

def addAll (set : SortedSet) (items : List ScoredMember) (added : Int) : SortedSet × Int :=
  items.foldl (fun state item =>
    ((state.1.add item.1 item.2).1, state.2 + (state.1.add item.1 item.2).2)) (set, added)

def newMembers (set : SortedSet) (items : List ScoredMember) : Finset Bytes :=
  (items.map Prod.snd).toFinset.filter fun member => set.memberScores.lookup member = none

theorem newMembers_append (items : List ScoredMember) (item : ScoredMember) :
    set.newMembers (items ++ [item]) =
      if set.memberScores.lookup item.2 = none then insert item.2 (set.newMembers items)
      else set.newMembers items := by
  unfold newMembers
  rw [List.map_append, List.toFinset_append, Finset.union_comm, List.map_singleton,
    List.toFinset_cons, List.toFinset_nil, Finset.insert_union, Finset.empty_union,
    Finset.filter_insert]

theorem mem_newMembers (items : List ScoredMember) (member : Bytes) :
    member ∈ set.newMembers items ↔
      (lastScore items member).isSome = true ∧ set.memberScores.lookup member = none := by
  rw [newMembers, Finset.mem_filter, List.mem_toFinset, lastScore_isSome]

theorem addAll_outcome (valid : set.Valid) (added : Int) (numbers : ∀ item ∈ items, item.IsNumber) :
    (set.addAll items added).1.Valid ∧
      (∀ member, (set.addAll items added).1.memberScores.lookup member =
        ((lastScore items member).map fun score => (score, member)).or
          (set.memberScores.lookup member)) ∧
      (set.addAll items added).2 = added + (set.newMembers items).card := by
  induction items using List.reverseRecOn with
  | nil => exact ⟨valid, fun _ => rfl, by simp [addAll, newMembers]⟩
  | append_singleton items item ih =>
    obtain ⟨next, scores, count⟩ := ih fun other inside => numbers other (by simp [inside])
    have parts : set.addAll (items ++ [item]) added =
        (((set.addAll items added).1.add item.1 item.2).1,
          (set.addAll items added).2 + ((set.addAll items added).1.add item.1 item.2).2) := by
      rw [addAll, List.foldl_append]
      rfl
    obtain ⟨last, own, others, new⟩ :=
      @add_spec _ item.1 item.2 next (numbers item (by simp))
    rw [parts]
    refine ⟨last, fun member => ?_, ?_⟩
    · rw [lastScore_append]
      by_cases same : item.2 = member
      · subst same
        rw [own, if_pos rfl]
        rfl
      · rw [others member (Ne.symm same), if_neg same, scores]
    · -- the member counts unless it was there or an earlier pair has brought it
      have present : item.2 ∈ (set.addAll items added).1.memberScores ↔
          set.memberScores.lookup item.2 = none → item.2 ∈ set.newMembers items := by
        rw [← AList.lookup_isSome, scores, mem_newMembers]
        cases lastScore items item.2 <;> cases set.memberScores.lookup item.2 <;> simp
      dsimp only
      rw [count, new, newMembers_append, add_assoc]
      by_cases absent : set.memberScores.lookup item.2 = none
      · rw [if_pos absent]
        by_cases seen : item.2 ∈ set.newMembers items
        · rw [if_pos (present.mpr fun _ => seen), Finset.insert_eq_of_mem seen, add_zero]
        rw [if_neg fun there => seen (present.mp there absent),
          Finset.card_insert_of_notMem seen]
        push_cast
        rfl
      · rw [if_pos (present.mpr fun lacking => absurd lacking absent), if_neg absent, add_zero]

theorem keys_addAll (valid : set.Valid) (numbers : ∀ item ∈ items, item.IsNumber) :
    ((set.addAll items 0).1.memberScores.keys.length : Int) =
      set.memberScores.keys.length + (set.addAll items 0).2 := by
  obtain ⟨-, scores, count⟩ := addAll_outcome valid 0 numbers
  have keys : (set.addAll items 0).1.memberScores.keys.toFinset =
      set.memberScores.keys.toFinset ∪ set.newMembers items := by
    ext member
    rw [Finset.mem_union, mem_newMembers, List.mem_toFinset, List.mem_toFinset, ← AList.mem_keys,
      ← AList.mem_keys, ← AList.lookup_isSome, ← AList.lookup_isSome, scores]
    cases lastScore items member <;> cases set.memberScores.lookup member <;> simp
  have apart : Disjoint set.memberScores.keys.toFinset (set.newMembers items) := by
    refine Finset.disjoint_left.mpr fun member old new => ?_
    rw [List.mem_toFinset, ← AList.mem_keys, ← AList.lookup_isSome] at old
    rw [((mem_newMembers items member).mp new).2] at old
    cases old
  rw [count, zero_add, ← List.toFinset_card_of_nodup (AList.keys_nodup _), keys,
    Finset.card_union_of_disjoint apart, List.toFinset_card_of_nodup (AList.keys_nodup _),
    Nat.cast_add]

end SortedSet

namespace Store

variable {store : Store} {now : Time} {key : Key} {set : SortedSet} {expiry : Option Time}

def zsetAt (store : Store) (now : Time) (key : Key) : SortedSet :=
  ((store.liveValue now key).bind Value.zset?).getD .empty

theorem getZset_zsetAt (store : Store) (now : Time) (key : Key) :
    (store.getZset now key).2.getD .empty = store.zsetAt now key :=
  congrArg (Option.getD · _) (getTyped_value store now key Value.zset?)

theorem zscore_zsetAt (store : Store) (now : Time) (key : Key) (member : Bytes) :
    (store.zscore now key member).2 =
      ((store.zsetAt now key).memberScores.lookup member).map Prod.fst := by
  rw [← getZset_zsetAt, zscore]
  split <;> rename_i reading <;> rw [reading] <;> rfl

theorem zcard_zsetAt (store : Store) (now : Time) (key : Key) :
    (store.zcard now key).2 = (store.zsetAt now key).memberScores.keys.length := by
  rw [← getZset_zsetAt, zcard]
  split <;> rename_i reading <;> rw [reading] <;> rfl

structure HoldsSet (store : Store) (now : Time) (key : Key) (set : SortedSet)
    (expiry : Option Time) : Prop where
  found : store.data.lookup key = some ⟨.zset set, expiry⟩
  live : ∀ value, isExpired now ⟨value, expiry⟩ = false

theorem HoldsSet.liveValue (held : store.HoldsSet now key set expiry) :
    store.liveValue now key = some (.zset set) := by
  rw [Store.liveValue, Store.liveEntry, held.found, Option.filter_some, held.live]
  rfl

theorem HoldsSet.zsetAt (held : store.HoldsSet now key set expiry) :
    store.zsetAt now key = set := by
  rw [Store.zsetAt, held.liveValue]
  rfl

theorem HoldsSet.zadd (held : store.HoldsSet now key set expiry) (score : Float) (member : Bytes) :
    store.zadd now key score member =
      ((store.touchKey key).put key ⟨.zset (set.add score member).1, expiry⟩,
        (set.add score member).2) := by
  unfold Store.zadd getOrCreateZset getOrCreateTyped findValidEntry
  rw [touchKey_data, held.found]
  dsimp only
  rw [held.live]
  rfl

def zaddAll (now : Time) (key : Key) (items : List ScoredMember) (store : Store) (added : Int) :
    Store × Int :=
  items.foldl (fun state item =>
    ((state.1.zadd now key item.1 item.2).1, state.2 + (state.1.zadd now key item.1 item.2).2))
    (store, added)

theorem HoldsSet.zaddAll (held : store.HoldsSet now key set expiry) (items : List ScoredMember)
    (added : Int) :
    (store.zaddAll now key items added).1.HoldsSet now key (set.addAll items added).1 expiry ∧
      (store.zaddAll now key items added).2 = (set.addAll items added).2 ∧
      ∀ other, other ≠ key →
        (store.zaddAll now key items added).1.data.lookup other = store.data.lookup other := by
  induction items generalizing store set added with
  | nil => exact ⟨held, rfl, fun _ _ => rfl⟩
  | cons item items ih =>
    have next : ((store.touchKey key).put key
        ⟨.zset (set.add item.1 item.2).1, expiry⟩).HoldsSet now key
          (set.add item.1 item.2).1 expiry := ⟨put_lookup _ _ _, held.live⟩
    obtain ⟨final, count, others⟩ := ih next (added + (set.add item.1 item.2).2)
    rw [Store.zaddAll, List.foldl_cons, held.zadd, addAll, List.foldl_cons]
    refine ⟨final, count, fun other different => ?_⟩
    exact (others other different).trans (put_lookup_ne _ _ different)

theorem zaddIfValidType_free (free : holdsOther Value.zset? store now key = false)
    (score : Float) (member : Bytes) :
    ∃ after expiry, store.zaddIfValidType now key score member =
        (after, some ((store.zsetAt now key).add score member).2) ∧
      after.HoldsSet now key ((store.zsetAt now key).add score member).1 expiry ∧
      (∀ entry, store.liveEntry now key = some entry → entry.expiry = expiry) ∧
      ∀ other, other ≠ key → after.data.lookup other = store.data.lookup other := by
  refine ⟨_, expiryOf (store.liveEntry now key),
    (zaddIfValidType_acts now key score member).free free,
    ⟨put_lookup _ _ _, expiryOf_live store now key⟩, ?_, ?_⟩
  · intro entry live
    rw [live]
    rfl
  · intro other different
    exact (put_lookup_ne _ _ different).trans (unexpired_lookup_ne store now key different)

end Store

def PairsEnd.answer (state : Store × Int) : PairsEnd → Except Fault (Store × Bytes)
  | .complete => .ok (state.1, encodeInteger state.2)
  | .unreadable => .ok (state.1, notFloatReply)
  | .dangling => .error .argumentIndex

theorem zaddPairs_eq (now : Time) (key : Key) (rest : List Bytes) (store : Store) (added : Int) :
    zaddPairs now key rest store added =
      (readPairs rest).2.answer (store.zaddAll now key (readPairs rest).1 added) := by
  induction rest using readPairs.induct generalizing store added with
  | case1 => rfl
  | case2 score =>
    rw [zaddPairs, readPairs]
    cases Double.parse score <;> rfl
  | case3 score member rest unread =>
    rw [zaddPairs, readPairs, unread]
    rfl
  | case4 score member rest number read ih =>
    rw [zaddPairs, readPairs, read]
    exact ih _ _

inductive ZaddOutcome (store : Store) (now : Time) (key : Key) (pairs : List Bytes) :
    Except Fault (Store × Bytes) → Prop
  | refused (reply : Bytes) : IsError reply →
      Store.holdsOther Value.zset? store now key = true ∨ readPairs pairs = ([], .unreadable) →
      ZaddOutcome store now key pairs (.ok (store, reply))
  | applied (after : Store) (expiry : Option Time) :
      Store.holdsOther Value.zset? store now key = false → (readPairs pairs).1 ≠ [] →
      after.HoldsSet now key ((store.zsetAt now key).addAll (readPairs pairs).1 0).1 expiry →
      (∀ entry, store.liveEntry now key = some entry → entry.expiry = expiry) →
      (∀ other, other ≠ key → after.data.lookup other = store.data.lookup other) →
      ZaddOutcome store now key pairs ((readPairs pairs).2.answer
        (after, ((store.zsetAt now key).addAll (readPairs pairs).1 0).2))

theorem handleZadd_outcome (store : Store) (now : Time) (name key score member : Bytes)
    (rest : List Bytes) :
    ZaddOutcome store now key (score :: member :: rest)
      (handleZadd store now (name :: key :: score :: member :: rest)) := by
  unfold handleZadd
  dsimp only
  cases read : Double.parse score with
  | none => exact .refused _ (.encodeError _) (.inr (by rw [readPairs, read]))
  | some number =>
    dsimp only
    have pairs : readPairs (score :: member :: rest) =
        ((number, member) :: (readPairs rest).1, (readPairs rest).2) := by
      rw [readPairs, read]
    cases other : Store.holdsOther Value.zset? store now key with
    | true =>
      rw [(Store.zaddIfValidType_acts _ _ _ _).other other]
      exact .refused _ (.encodeError _) (.inl other)
    | false =>
      obtain ⟨first, expiry, added, held, kept, apart⟩ :=
        Store.zaddIfValidType_free other number member
      obtain ⟨final, count, others⟩ := held.zaddAll (readPairs rest).1
        ((store.zsetAt now key).add number member).2
      rw [added]
      dsimp only
      have every : (store.zsetAt now key).addAll ((number, member) :: (readPairs rest).1) 0 =
          ((store.zsetAt now key).add number member).1.addAll (readPairs rest).1
            ((store.zsetAt now key).add number member).2 := by
        rw [addAll, List.foldl_cons, zero_add]
        rfl
      have outcome := @ZaddOutcome.applied store now key (score :: member :: rest)
        (first.zaddAll now key (readPairs rest).1
          ((store.zsetAt now key).add number member).2).1 expiry other
        (by rw [pairs]; exact List.cons_ne_nil _ _) (by rw [pairs, every]; exact final) kept
        (fun different unequal => (others different unequal).trans (apart different unequal))
      rw [pairs, every, ← count] at outcome
      rw [zaddPairs_eq]
      exact outcome

namespace Store

def SameValues (now : Time) (before after : Store) : Prop :=
  ∀ moment, now ≤ moment → ∀ key,
    Option.Rel Value.Same (before.liveValue moment key) (after.liveValue moment key)

structure AddsPairs (now : Time) (before after : Store) (key : Key) (items : List ScoredMember)
    (reply : Bytes) : Prop where
  named : ∀ member score, lastScore items member = some score →
    (after.zscore now key member).2 = some score
  kept : ∀ member, lastScore items member = none →
    (after.zscore now key member).2 = (before.zscore now key member).2
  others : ∀ other, other ≠ key → ∀ moment,
    after.liveEntry moment other = before.liveEntry moment other
  count : reply = encodeInteger ((items.map Prod.snd).toFinset.filter fun member =>
    (before.zscore now key member).2.isNone = true).card

/-- An error has changed nothing, and any other reply comes with all pairs added. -/
def AllOrNothing (store : Store) (now : Time) (args : List Bytes)
    (handled : Except Fault (Store × Bytes)) : Prop :=
  ∃ after reply, handled = .ok (after, reply) ∧
    (IsError reply → store.SameValues now after) ∧
    (¬ IsError reply → ∃ name key pairs items, args = name :: key :: pairs ∧
      readPairs pairs = (items, .complete) ∧ store.AddsPairs now after key items reply)

/-- The pairs in front of a score that cannot be read give the scores that the members
have, and no score stands without a member, unless the key has another type. -/
def ZaddFits (store : Store) (now : Time) : List Bytes → Prop
  | _ :: key :: score :: member :: rest =>
    holdsOther Value.zset? store now key = true ∨
      (readPairs (score :: member :: rest)).2 = .complete ∨
      ((readPairs (score :: member :: rest)).2 = .unreadable ∧
        ∀ named number, lastScore (readPairs (score :: member :: rest)).1 named = some number →
          (store.zscore now key named).2 = some number)
  | _ => True

/-- The members named have their last scores, the reply is what `ZCARD` has grown by, and
`ZRANGE 0 -1` lists every member once. -/
structure Coherent (now : Time) (before after : Store) (key : Key) (items : List ScoredMember)
    (reply : Bytes) : Prop where
  scores : ∀ member score, lastScore items member = some score →
    (after.zscore now key member).2 = some score
  count : reply = encodeInteger ((after.zcard now key).2 - (before.zcard now key).2)
  once : (after.zrange now key 0 (-1)).2.Nodup
  members : ∀ member, member ∈ (after.zrange now key 0 (-1)).2 ↔
    (after.zscore now key member).2.isSome = true

def SetsValid (store : Store) : Prop :=
  store.Each fun _ value => ∀ set, value = .zset set → set.Valid

section Steps

variable {store after : Store} {now : Time} {key : Key} {items : List ScoredMember}
  {expiry : Option Time}

theorem SameValues.refl (store : Store) : store.SameValues now store := by
  intro moment _ key
  cases store.liveValue moment key with
  | none => exact .none
  | some value => exact .some (.inl rfl)

theorem SetsValid.zsetAt (valid : store.SetsValid) : (store.zsetAt now key).Valid := by
  unfold Store.zsetAt
  cases found : (store.liveValue now key).bind Value.zset? with
  | none => exact empty_valid
  | some set =>
    obtain ⟨value, live, content⟩ := Option.bind_eq_some_iff.mp found
    obtain ⟨entry, kept, rfl⟩ := Option.map_eq_some_iff.mp live
    refine valid key entry (Option.filter_eq_some_iff.mp kept).1 set ?_
    cases value : entry.value with
    | zset other =>
      rw [value] at content
      cases content
      rfl
    | string _ | list _ | stream _ =>
      rw [value] at content
      cases content

theorem zscore_of_same
    (same : Option.Rel Value.Same (store.liveValue now key) (after.liveValue now key))
    (member : Bytes) : (store.zscore now key member).2 = (after.zscore now key member).2 := by
  rw [zscore_zsetAt, zscore_zsetAt, Store.zsetAt, Store.zsetAt]
  generalize store.liveValue now key = left at same ⊢
  generalize after.liveValue now key = right at same ⊢
  cases same with
  | none => rfl
  | some same =>
    rcases same with rfl | ⟨one, other, rfl, rfl, -, scores⟩
    · rfl
    · exact congrArg _ (scores member)

theorem zsetAt_held {score : Float} (scored : (store.zscore now key member).2 = some score) :
    ∃ entry, store.liveEntry now key = some entry ∧ entry.value = .zset (store.zsetAt now key) := by
  rw [zscore_zsetAt] at scored
  unfold Store.zsetAt at scored ⊢
  have live : store.liveValue now key = (store.liveEntry now key).map Entry.value := rfl
  rw [live] at scored ⊢
  cases found : store.liveEntry now key with
  | none =>
    rw [found] at scored
    cases scored
  | some entry =>
    rw [found] at scored
    refine ⟨entry, rfl, ?_⟩
    cases content : entry.value with
    | zset set =>
      rw [Option.map_some, content]
      rfl
    | string _ | list _ | stream _ =>
      rw [Option.map_some, Option.bind_some, content] at scored
      cases scored

section Applied

variable (valid : store.SetsValid) (numbers : ∀ item ∈ items, item.IsNumber)
  (held : after.HoldsSet now key ((store.zsetAt now key).addAll items 0).1 expiry)
  (apart : ∀ other, other ≠ key → after.data.lookup other = store.data.lookup other)
include valid numbers held

theorem HoldsSet.zscore_addAll (member : Bytes) :
    (after.zscore now key member).2 =
      (lastScore items member).or (store.zscore now key member).2 := by
  obtain ⟨-, scores, -⟩ := addAll_outcome valid.zsetAt 0 numbers
  rw [zscore_zsetAt, zscore_zsetAt, held.zsetAt, scores]
  cases lastScore items member <;> rfl

theorem HoldsSet.coherent : store.Coherent now after key items
    (encodeInteger ((store.zsetAt now key).addAll items 0).2) := by
  have old : (store.zsetAt now key).Valid := valid.zsetAt
  have later := (addAll_outcome old 0 numbers).1
  have answers := Store.answersFrom held.liveValue later
  refine ⟨fun member score last => ?_, ?_, ?_, fun member => ?_⟩
  · rw [held.zscore_addAll valid numbers, last, Option.some_or]
  · rw [zcard_zsetAt, zcard_zsetAt, held.zsetAt, keys_addAll old numbers,
      add_sub_cancel_left]
  · rw [zrange_all held.liveValue]
    exact later.members_nodup
  · rw [zrange_all held.liveValue, List.mem_map, Option.isSome_iff_exists]
    constructor
    · rintro ⟨⟨score, _⟩, inside, rfl⟩
      exact ⟨score, (answers.zscore _ _).mpr inside⟩
    · rintro ⟨score, scored⟩
      exact ⟨_, (answers.zscore _ _).mp scored, rfl⟩

include apart

theorem HoldsSet.addsPairs :
    store.AddsPairs now after key items
      (encodeInteger ((store.zsetAt now key).addAll items 0).2) := by
  obtain ⟨-, -, count⟩ := addAll_outcome valid.zsetAt 0 numbers
  refine ⟨fun member score last => ?_, fun member absent => ?_,
    fun other different moment => ?_, ?_⟩
  · rw [held.zscore_addAll valid numbers, last, Option.some_or]
  · rw [held.zscore_addAll valid numbers, absent, Option.none_or]
  · rw [liveEntry, liveEntry, apart other different]
  · have new : (store.zsetAt now key).newMembers items = (items.map Prod.snd).toFinset.filter
        fun member => (store.zscore now key member).2.isNone = true := by
      refine Finset.filter_congr fun member _ => ?_
      rw [zscore_zsetAt, Option.isNone_map, Option.isNone_iff_eq_none]
    rw [count, new, zero_add]

theorem HoldsSet.sameValues_iff (nonempty : items ≠ [])
    (kept : ∀ entry, store.liveEntry now key = some entry → entry.expiry = expiry) :
    store.SameValues now after ↔ ∀ member score, lastScore items member = some score →
      (store.zscore now key member).2 = some score := by
  constructor
  · intro same member score last
    rw [zscore_of_same (same now (le_refl now) key), held.zscore_addAll valid numbers, last,
      Option.some_or]
  · intro scores moment later other
    by_cases own : other = key
    · subst own
      obtain ⟨item, rest, rfl⟩ := List.exists_cons_of_ne_nil nonempty
      obtain ⟨score, last⟩ := Option.isSome_iff_exists.mp
        ((lastScore_isSome (item :: rest) item.2).mpr (by simp))
      obtain ⟨entry, live, content⟩ := zsetAt_held (scores item.2 score last)
      obtain ⟨next, table, -⟩ := addAll_outcome valid.zsetAt 0 numbers
      have lookups : ∀ member,
          ((store.zsetAt now other).addAll (item :: rest) 0).1.memberScores.lookup member =
            (store.zsetAt now other).memberScores.lookup member := by
        intro member
        rw [table]
        cases given : lastScore (item :: rest) member with
        | none => rfl
        | some number =>
          have old := scores member number given
          rw [zscore_zsetAt, score_iff valid.zsetAt] at old
          exact ((valid.zsetAt.indexed member _).mpr ⟨old, rfl⟩).symm
      have entries := next.entries_eq valid.zsetAt lookups
      have stored := (liveEntry_some.mp live).1
      have dated := kept entry live
      obtain ⟨value, date⟩ := entry
      cases content
      cases dated
      rw [Store.liveValue, Store.liveValue, Store.liveEntry, Store.liveEntry, stored,
        held.found, Option.filter_some, Option.filter_some]
      have expired : isExpired moment ⟨.zset ((store.zsetAt now other).addAll (item :: rest) 0).1,
          date⟩ = isExpired moment ⟨.zset (store.zsetAt now other), date⟩ := rfl
      rw [expired]
      cases isExpired moment ⟨.zset (store.zsetAt now other), date⟩ with
      | true => exact .none
      | false =>
        exact .some (.inr ⟨_, _, rfl, rfl, entries.symm, fun member => (lookups member).symm⟩)
    · have same : after.liveValue moment other = store.liveValue moment other := by
        rw [Store.liveValue, Store.liveValue, Store.liveEntry, Store.liveEntry, apart other own]
      rw [same]
      exact SameValues.refl store moment later other

end Applied

end Steps

theorem sets_closed {uses : Operation → Prop} {now : Instant}
    (numbers : ∀ key score member,
      uses (.zadd key score member) ∨ uses (.zaddIfValidType key score member) →
      score.isNaN = false) :
    Closed uses (fun _ value => ∀ set, value = .zset set → set.Valid) now where
  string _ _ _ same := by cases same
  push _ _ _ _ _ _ _ _ same := by cases same
  pop _ _ _ _ _ _ _ _ _ _ same := by cases same
  add key set score member used held other same := by
    cases same
    refine (add_spec ?_ (numbers key score member used)).1
    rcases held with rfl | valid
    · exact empty_valid
    · exact valid set rfl
  remove _ set _ _ valid _ same := by
    cases same
    exact (remove_spec (valid set rfl)).1
  stream _ _ same := by cases same
  append _ _ _ _ _ _ _ _ _ _ _ same := by cases same

end Store

variable (state : HandlerState) (fd : Fd) (send : Bool) (args : List Bytes)

def GivesNumbers : Prop :=
  ∀ item ∈ (readPairs (args.drop 2)).1, item.IsNumber

instance (args : List Bytes) : Decidable (GivesNumbers args) :=
  List.decidableBAll (fun item : ScoredMember => item.1.isNaN = false) (readPairs (args.drop 2)).1

theorem ZaddOutcome.allOrNothing_iff {name key score : Bytes} {rest : List Bytes}
    {handled : Except Fault (Store × Bytes)}
    (outcome : ZaddOutcome store now key (score :: member :: rest) handled)
    (valid : store.SetsValid) (numbers : GivesNumbers (name :: key :: score :: member :: rest)) :
    store.AllOrNothing now (name :: key :: score :: member :: rest) handled ↔
      store.ZaddFits now (name :: key :: score :: member :: rest) := by
  cases outcome with
  | refused reply failure why =>
    refine iff_of_true ⟨store, reply, rfl, fun _ => .refl store, fun fine => absurd failure fine⟩ ?_
    rcases why with other | absent
    · exact .inl other
    · refine .inr (.inr ?_)
      rw [absent]
      exact ⟨rfl, fun _ _ last => by cases last⟩
  | applied after expiry free nonempty held kept apart =>
    rw [Store.ZaddFits]
    have free : ¬ Store.holdsOther Value.zset? store now key = true := by
      rw [free]
      exact Bool.false_ne_true
    cases ending : (readPairs (score :: member :: rest)).2 with
    | complete =>
      refine iff_of_true ⟨after, _, rfl, fun failed => ?_, fun _ => ?_⟩ (.inr (.inl rfl))
      · exact absurd failed (IsError.not_encodeInteger _)
      · exact ⟨name, key, _, _, rfl, Prod.ext rfl ending,
          held.addsPairs valid numbers apart⟩
    | unreadable =>
      have values := held.sameValues_iff valid numbers apart nonempty kept
      constructor
      · rintro ⟨left, reply, done, nothing, -⟩
        cases done
        exact .inr (.inr ⟨rfl, values.mp (nothing (.encodeError _))⟩)
      · rintro (other | complete | ⟨-, scores⟩)
        · exact absurd other free
        · cases complete
        · exact ⟨after, _, rfl, fun _ => values.mpr scores,
            fun fine => absurd (.encodeError _) fine⟩
    | dangling =>
      refine iff_of_false ?_ ?_
      · rintro ⟨left, reply, done, -⟩
        cases done
      · rintro (other | complete | ⟨unreadable, -⟩)
        · exact free other
        · cases complete
        · cases unreadable

theorem ZaddOutcome.coherent {after : Store} {key : Key} {pairs : List Bytes} {reply : Bytes}
    (outcome : ZaddOutcome store now key pairs (.ok (after, reply))) (valid : store.SetsValid)
    (numbers : ∀ item ∈ (readPairs pairs).1, item.IsNumber) (fine : ¬ IsError reply) :
    (readPairs pairs).2 = .complete ∧ store.Coherent now after key (readPairs pairs).1 reply := by
  generalize handled : (.ok (after, reply) : Except Fault (Store × Bytes)) = result at outcome
  cases outcome with
  | refused other failure why =>
    cases handled
    exact absurd failure fine
  | applied left expiry _ _ held =>
    cases ending : (readPairs pairs).2 with
    | complete =>
      rw [ending] at handled
      cases handled
      exact ⟨rfl, held.coherent valid numbers⟩
    | unreadable =>
      rw [ending] at handled
      cases handled
      exact absurd (.encodeError _) fine
    | dangling =>
      rw [ending] at handled
      cases handled

theorem executeCommand_zadd :
    (args.length < 4 ∧ executeCommand state fd send args (ascii "ZADD") =
        .ok (state.replied (arityReply (ascii "ZADD")))) ∨
    ∃ name key score member rest, args = name :: key :: score :: member :: rest ∧
      executeCommand state fd send args (ascii "ZADD") =
        state.tick.onStore (handleZadd state.store (state.clock state.ticks).steady args) := by
  have found : Command.lookup (ascii "ZADD") = some .zadd := Command.lookup_name_self .zadd
  unfold executeCommand
  rw [found]
  dsimp only
  by_cases short : args.length < Command.minArgs .zadd
  · exact .inl ⟨short, if_pos short⟩
  · obtain ⟨name, key, score, member, rest, rfl⟩ := four_arguments (Nat.le_of_not_lt short)
    exact .inr ⟨name, key, score, member, rest, rfl, if_neg short⟩

def HandlerState.ZaddAllOrNothing : Prop :=
  state.store.AllOrNothing (state.clock state.ticks).steady args
    ((executeCommand state fd send args (ascii "ZADD")).map fun outcome =>
      (outcome.state.store, outcome.reply))

theorem HandlerState.zaddAllOrNothing_iff {args : List Bytes} (valid : state.store.SetsValid)
    (numbers : GivesNumbers args) :
    state.ZaddAllOrNothing fd send args ↔
      state.store.ZaddFits (state.clock state.ticks).steady args := by
  unfold ZaddAllOrNothing
  rcases executeCommand_zadd state fd send args with ⟨short, replied⟩ |
    ⟨name, key, score, member, rest, rfl, handled⟩
  · rw [replied]
    refine iff_of_true ⟨state.store, _, rfl, fun _ => .refl _, fun fine => ?_⟩ ?_
    · exact absurd (.encodeError _) fine
    · unfold Store.ZaddFits
      split
      · simp only [List.length_cons] at short
        omega
      · trivial
  · have plain : ∀ result : Except Fault (Store × Bytes),
        (state.tick.onStore result).map (fun outcome => (outcome.state.store, outcome.reply)) =
          result := by
      intro result
      cases result <;> rfl
    rw [handled, plain]
    exact (handleZadd_outcome _ _ name key score member rest).allOrNothing_iff valid numbers

def Execution.AddsNumbers (execution : Execution) : Prop :=
  execution.cmd = ascii "ZADD" → GivesNumbers execution.args

instance (execution : Execution) : Decidable execution.AddsNumbers :=
  inferInstanceAs (Decidable (_ → _))

theorem Execution.Runs.setsValid {execution : Execution} (runs : execution.Runs)
    (numbers : execution.AddsNumbers) (valid : execution.before.store.SetsValid) :
    execution.after.store.SetsValid := by
  refine valid.works (Store.sets_closed ?_) (CommandContext.executeCommand_works runs)
  rintro key score member (⟨writes, command, found, used⟩ | ⟨writes, command, found, used⟩)
  · cases used with
    | reads _ passes => cases writes.symm.trans passes
    | zadd inside => exact numbers (lookup_name found) _ inside
    | geoadd => exact Double.toFloat_isNaN _
  · cases used with
    | reads _ passes => cases writes.symm.trans passes
    | zaddIfValidType inside => exact numbers (lookup_name found) _ inside

namespace CommandContext

variable {start ctx : CommandContext} {events : List Event}
  {observations : List (Option Observation)}

theorem history_setsValid (empty : start.store = Store.empty)
    (ran : Run.run handle start events = .ok (ctx, observations))
    (numbers : ∀ execution ∈ start.history events, execution.AddsNumbers) :
    ctx.store.SetsValid ∧
      ∀ execution ∈ start.history events, execution.before.store.SetsValid := by
  obtain ⟨final, each⟩ := @history_inOrder (fun _ state => state.store.SetsValid)
    (fun _ => Execution.AddsNumbers) (fun _ _ runs valid numbers => runs.setsValid numbers valid)
    (fun _ _ _ between valid => between.store.symm ▸ valid) start ctx events observations [] ran
    (empty ▸ Store.empty_each _) (Run.inOrder_forall.mpr numbers)
  exact ⟨final, fun execution member => (Run.inOrder_forall.mp each execution member).1⟩

/-- In every state of a run that adds numbers only, a `ZADD` of numbers is all or
nothing exactly when its pairs fit. -/
theorem zadd_all_or_nothing_iff (empty : start.store = Store.empty)
    (ran : Run.run handle start events = .ok (ctx, observations))
    (numbers : ∀ execution ∈ start.history events, execution.AddsNumbers)
    {state : HandlerState} (reached : state = ctx.toHandlerState ∨
      ∃ execution ∈ start.history events, state = execution.before)
    (fd : Fd) (send : Bool) {args : List Bytes} (given : GivesNumbers args) :
    state.ZaddAllOrNothing fd send args ↔
      state.store.ZaddFits (state.clock state.ticks).steady args := by
  obtain ⟨final, each⟩ := history_setsValid empty ran numbers
  rcases reached with rfl | ⟨execution, member, rfl⟩
  · exact ctx.zaddAllOrNothing_iff fd send final given
  · exact execution.before.zaddAllOrNothing_iff fd send (each execution member) given

theorem two_pairs_are_added :
    ∃ run, Run.run handle (twoClients 0) [.words 5 ["ZADD", "z", "1", "a"]] = .ok run ∧
      run.1.toHandlerState.ZaddAllOrNothing 6 true
        [ascii "ZADD", ascii "z", ascii "2", ascii "a", ascii "3", ascii "b"] := by
  refine Run.of_checked (fun _ => True) (by decide +kernel) fun run ran _ => ?_
  exact (zadd_all_or_nothing_iff rfl ran (by decide +kernel) (.inl rfl) 6 true
    (by decide +kernel)).mpr (.inr (.inl (by decide +kernel)))

/-- In every state of a run that adds numbers only, a `ZADD` of numbers that is not refused
leaves a set that answers for what it was given. -/
theorem zadd_of_numbers_coherent (empty : start.store = Store.empty)
    (ran : Run.run handle start events = .ok (ctx, observations))
    (numbers : ∀ execution ∈ start.history events, execution.AddsNumbers)
    {state : HandlerState} (reached : state = ctx.toHandlerState ∨
      ∃ execution ∈ start.history events, state = execution.before)
    {fd : Fd} {send : Bool} {args : List Bytes} (given : GivesNumbers args) {outcome : Outcome}
    (done : executeCommand state fd send args (ascii "ZADD") = .ok outcome)
    (fine : ¬ IsError outcome.reply) :
    ∃ name key pairs, args = name :: key :: pairs ∧ (readPairs pairs).2 = .complete ∧
      state.store.Coherent (state.clock state.ticks).steady outcome.state.store key
        (readPairs pairs).1 outcome.reply := by
  have valid : state.store.SetsValid := by
    obtain ⟨final, each⟩ := history_setsValid empty ran numbers
    rcases reached with rfl | ⟨execution, member, rfl⟩
    · exact final
    · exact each execution member
  rcases executeCommand_zadd state fd send args with ⟨-, replied⟩ |
    ⟨name, key, score, member, rest, rfl, called⟩
  · cases replied.symm.trans done
    exact absurd (.encodeError _) fine
  · obtain ⟨⟨after, reply⟩, handled, rfl⟩ := onStore_ok (called.symm.trans done)
    exact ⟨name, key, _, rfl, handled ▸
      (handleZadd_outcome _ _ name key score member rest) |>.coherent valid given fine⟩

theorem moved_member_is_coherent :
    ∃ run, Run.run handle (twoClients 0) [.words 5 ["ZADD", "z", "1", "a"]] = .ok run ∧
      ∃ outcome, executeCommand run.1.toHandlerState 6 true
          (["ZADD", "z", "2", "a", "3", "b"].map ascii) (ascii "ZADD") = .ok outcome ∧
        ∃ name key pairs, ["ZADD", "z", "2", "a", "3", "b"].map ascii = name :: key :: pairs ∧
          (readPairs pairs).2 = .complete ∧
          run.1.store.Coherent 0 outcome.state.store key (readPairs pairs).1 outcome.reply := by
  refine Run.of_checked (fun run => Run.Succeeds (executeCommand run.1.toHandlerState 6 true
    (["ZADD", "z", "2", "a", "3", "b"].map ascii) (ascii "ZADD")) fun outcome =>
      outcome.reply = encodeInteger 1 ∧ (run.1.clock run.1.ticks).steady = 0)
    (by decide +kernel) fun run ran taken => ?_
  refine Run.of_checked _ taken fun outcome done ⟨reply, clock⟩ => ?_
  have coherent := zadd_of_numbers_coherent rfl ran (by decide +kernel) (.inl rfl)
    (by decide +kernel) done (by rw [reply]; exact IsError.not_encodeInteger 1)
  rwa [clock] at coherent

/-- Two members are reported as added and one is there; a member that is given `nan` takes
the place and the score of another one. -/
theorem nan_scores_are_lost :
    Run.Succeeds (Run.run handle (twoClients 0) [.words 5 ["ZADD", "z", "nan", "a", "nan", "b"]])
      (fun result => result.2.map (fun seen => seen.map fun observation =>
          observation.effect.reply) = [some (encodeInteger 2)] ∧
        (result.1.store.zscore 0 (ascii "z") (ascii "b")).2 = none ∧
        (result.1.store.zcard 0 (ascii "z")).2 = 1) ∧
    Run.Succeeds (Run.run handle (twoClients 0) [.words 5 ["ZADD", "z", "1", "a", "2", "b"],
        .words 5 ["ZADD", "z", "nan", "a"]])
      fun result => (result.1.store.zscore 0 (ascii "z") (ascii "a")).2 = some 2 ∧
        (result.1.store.zcard 0 (ascii "z")).2 = 2 ∧
        (result.1.store.zrange 0 (ascii "z") 0 (-1)).2 = [ascii "b"] := by
  decide +kernel

/-- The first pair stays when the second score cannot be read, and a score that is no
number is counted and not added. -/
theorem partial_pairs_are_kept :
    Run.Succeeds (Run.run handle (twoClients 0) [.words 5 ["ZADD", "z", "1", "a", "x", "b"]])
      (fun result => result.2.map (fun seen => seen.map fun observation =>
          observation.effect.reply) = [some notFloatReply] ∧
        (result.1.store.zscore 0 (ascii "z") (ascii "a")).2 = some 1) ∧
    Run.Succeeds (Run.run handle (twoClients 0) [.words 5 ["ZADD", "z", "1", "a", "nan", "b"]])
      fun result => result.2.map (fun seen => seen.map fun observation =>
          observation.effect.reply) = [some (encodeInteger 2)] ∧
        (result.1.store.zscore 0 (ascii "z") (ascii "b")).2 = none := by
  decide +kernel

end CommandContext

end Credis
