import Credis.OperationCore

/-! What an operation may do to the keyspace. A read only drops an expired entry;
a write that is carried out gives one key a new version and changes the entries
of that key alone. Without expiry times nothing depends on the clock. -/

namespace Credis

open ByteString

variable {after before : Store} {key other : Key} {entry : Entry} {moment now : Time} {text : Bytes}
  {entries : List StreamEntry} {system : Int}

namespace Store

@[simp] theorem touchKey_data (store : Store) (key : Key) :
    (store.touchKey key).data = store.data :=
  rfl

@[simp] theorem put_lookup (store : Store) (key : Key) (entry : Entry) :
    (store.put key entry).data.lookup key = some entry :=
  AList.lookup_insert _

theorem put_lookup_ne (store : Store) (entry : Entry) (different : other ≠ key) :
    (store.put key entry).data.lookup other = store.data.lookup other :=
  AList.lookup_insert_ne different

@[simp] theorem eraseKey_lookup (store : Store) (key : Key) :
    (store.eraseKey key).data.lookup key = none :=
  AList.lookup_erase _ _

theorem eraseKey_lookup_ne (store : Store) (different : other ≠ key) :
    (store.eraseKey key).data.lookup other = store.data.lookup other :=
  AList.lookup_erase_ne different

structure Touches (key : Key) (before after : Store) : Prop where
  counter : after.versionCounter = before.versionCounter + 1
  versions : after.keyVersions = before.keyVersions.insert key (before.versionCounter + 1)
  others : ∀ other, other ≠ key → after.data.lookup other = before.data.lookup other

theorem touchKey_touches (store : Store) (key : Key) : Touches key store (store.touchKey key) :=
  ⟨rfl, rfl, fun _ _ => rfl⟩

namespace Touches

variable {key : Key} {before after : Store}

theorem put (touches : Touches key before after) (entry : Entry) :
    Touches key before (after.put key entry) :=
  ⟨touches.counter, touches.versions, fun other different =>
    (put_lookup_ne after entry different).trans (touches.others other different)⟩

theorem eraseKey (touches : Touches key before after) : Touches key before (after.eraseKey key) :=
  ⟨touches.counter, touches.versions, fun other different =>
    (eraseKey_lookup_ne after different).trans (touches.others other different)⟩

end Touches

theorem isExpired_later (expired : isExpired now entry = true) (order : now ≤ moment) :
    isExpired moment entry = true := by
  unfold isExpired at expired ⊢
  split
  · rename_i expiry known
    simp only [known, decide_eq_true_eq] at expired ⊢
    exact Int.le_trans expired order
  · rename_i known
    simp [known] at expired

inductive Reads (now : Time) (before : Store) : Store → Prop
  | refl : Reads now before before
  | drop {after : Store} {key : Key} {entry : Entry} : Reads now before after →
      after.data.lookup key = some entry → isExpired now entry = true →
      Reads now before (after.eraseKey key)

namespace Reads

variable {now : Time}

theorem trans {first second third : Store} (left : Reads now first second)
    (right : Reads now second third) : Reads now first third := by
  induction right with
  | refl => exact left
  | drop _ found expired ih => exact ih.drop found expired

theorem sweep (store : Store) (keys : List Key) (distinct : keys.Nodup)
    (expired : ∀ key ∈ keys, ∃ entry, store.data.lookup key = some entry ∧
      isExpired now entry = true) : Reads now store (keys.foldl Store.eraseKey store) := by
  induction keys generalizing store with
  | nil => exact .refl
  | cons key keys ih =>
    obtain ⟨entry, found, old⟩ := expired key (by simp)
    rw [List.nodup_cons] at distinct
    refine (Reads.refl.drop found old).trans (ih _ distinct.2 ?_)
    intro other member
    obtain ⟨entry', found', old'⟩ := expired other (by simp [member])
    refine ⟨entry', ?_, old'⟩
    rw [eraseKey_lookup_ne store]
    · exact found'
    · rintro rfl
      exact distinct.1 member

section

variable (reads : Reads now before after)

include reads

theorem getKeyVersion (key : Key) : after.getKeyVersion key = before.getKeyVersion key := by
  induction reads with
  | refl => rfl
  | drop _ _ _ ih => exact ih

theorem liveEntry (order : now ≤ moment) (key : Key) :
    after.liveEntry moment key = before.liveEntry moment key := by
  induction reads with
  | refl => rfl
  | @drop middle erased entry _ present expired ih =>
    rw [← ih, Store.liveEntry, Store.liveEntry]
    by_cases same : key = erased
    · rw [same, eraseKey_lookup, present, Option.filter_some, isExpired_later expired order]
      rfl
    · rw [eraseKey_lookup_ne _ same]

theorem liveValue (key : Key) : after.liveValue now key = before.liveValue now key :=
  congrArg (Option.map Entry.value) (reads.liveEntry (Int.le_refl now) key)

theorem later (order : now ≤ moment) : Reads moment before after := by
  induction reads with
  | refl => exact .refl
  | drop _ found expired ih => exact ih.drop found (isExpired_later expired order)

end

theorem keys (store : Store) : Reads now store (store.keys now).1 := by
  apply sweep
  · exact store.data.keys_nodup.filter _
  · intro key member
    simp only [expiredKeys, List.mem_filter, Option.any_eq_true] at member
    exact member.2

end Reads

/-- What happens to the keyspace while the clock stands at one reading: versions
only grow, and the version of a key whose value changes really grows. -/
structure Evolves (now : Time) (before after : Store) : Prop where
  versions : ∀ key, before.getKeyVersion key ≤ after.getKeyVersion key
  changes : ∀ key, after.liveValue now key ≠ before.liveValue now key →
    before.getKeyVersion key < after.getKeyVersion key

theorem getKeyVersion_le (store : Store) (key : Key) :
    store.getKeyVersion key ≤ store.versionCounter := by
  unfold getKeyVersion
  cases found : store.keyVersions.lookup key with
  | none => exact Nat.zero_le _
  | some version => exact store.bounded key version found

theorem Touches.getKeyVersion (touches : Touches key before after) :
    after.getKeyVersion key = before.versionCounter + 1 := by
  rw [Store.getKeyVersion, touches.versions, AList.lookup_insert, Option.getD_some]

theorem Touches.getKeyVersion_ne (touches : Touches key before after) (different : other ≠ key) :
    after.getKeyVersion other = before.getKeyVersion other := by
  rw [Store.getKeyVersion, touches.versions, AList.lookup_insert_ne different, Store.getKeyVersion]

namespace Evolves

variable {now : Time}

theorem refl (store : Store) : Evolves now store store :=
  ⟨fun _ => Nat.le_refl _, fun _ differs => absurd rfl differs⟩

theorem trans {first second third : Store} (left : Evolves now first second)
    (right : Evolves now second third) : Evolves now first third := by
  refine ⟨fun key => Nat.le_trans (left.versions key) (right.versions key), ?_⟩
  intro key differs
  by_cases same : second.liveValue now key = first.liveValue now key
  · have later := right.changes key (fun equal => differs (equal.trans same))
    exact Nat.lt_of_le_of_lt (left.versions key) later
  · exact Nat.lt_of_lt_of_le (left.changes key same) (right.versions key)

theorem ofTouches (touches : Touches key before after) : Evolves now before after := by
  have newer : before.getKeyVersion key < after.getKeyVersion key := by
    rw [touches.getKeyVersion]
    exact Nat.lt_succ_of_le (getKeyVersion_le before key)
  constructor
  · intro other
    by_cases same : other = key
    · rw [same]
      exact Nat.le_of_lt newer
    · rw [touches.getKeyVersion_ne same]
  · intro other differs
    by_cases same : other = key
    · rw [same]
      exact newer
    · rw [liveValue, liveValue, liveEntry, liveEntry, touches.others other same] at differs
      exact absurd rfl differs

theorem ofExpired {store : Store} (found : store.data.lookup key = some entry)
    (expired : isExpired now entry = true) : Evolves now store (store.eraseKey key) := by
  refine ⟨fun _ => Nat.le_refl _, ?_⟩
  intro other differs
  exfalso
  apply differs
  by_cases same : other = key
  · rw [same, liveValue, liveValue, liveEntry, liveEntry, eraseKey_lookup, found,
      Option.filter_some, expired]
    rfl
  · rw [liveValue, liveValue, liveEntry, liveEntry, eraseKey_lookup_ne store same]

theorem ofReads (reads : Reads now before after) : Evolves now before after := by
  induction reads with
  | refl => exact refl before
  | drop _ found expired ih => exact ih.trans (ofExpired found expired)

end Evolves

def NoExpiry (store : Store) : Prop :=
  ∀ key entry, store.data.lookup key = some entry → entry.expiry = none

theorem empty_noExpiry : empty.NoExpiry := by
  intro key entry found
  simp [empty] at found

namespace NoExpiry

variable {store : Store}

section

variable (steady : store.NoExpiry)

include steady

theorem touchKey (key : Key) : (store.touchKey key).NoExpiry := steady

theorem put (key : Key) (value : Value) : (store.put key ⟨value, none⟩).NoExpiry := by
  intro other entry found
  by_cases same : other = key
  · rw [same, put_lookup, Option.some.injEq] at found
    rw [← found]
  · rw [put_lookup_ne store _ same] at found
    exact steady other entry found

theorem not_expired (found : store.data.lookup key = some entry) (now : Time) :
    isExpired now entry = false := by
  rw [isExpired, steady key entry found]

theorem findValidEntry (now : Time) (key : Key) :
    store.findValidEntry now key = (store, store.data.lookup key) := by
  unfold Store.findValidEntry
  split
  · rename_i found
    rw [found]
  · rename_i entry found
    rw [steady.not_expired found, found]
    rfl

theorem keyIsAbsentOrHolds (holds : Value → Bool) (now : Time) (key : Key) :
    Store.keyIsAbsentOrHolds holds store now key = (store.data.lookup key).all fun entry =>
      holds entry.value := by
  unfold Store.keyIsAbsentOrHolds
  split
  · rename_i found
    rw [found]
    rfl
  · rename_i entry found
    rw [found, steady key entry found]
    rfl

theorem reads (reads : Reads now store after) : after = store := by
  induction reads with
  | refl => rfl
  | drop _ found expired ih =>
    rw [ih] at found
    rw [steady.not_expired found] at expired
    cases expired

end

end NoExpiry

structure Steady {τ α : Type} (operation : τ → Store × α) : Prop where
  timeless : ∀ now later, operation now = operation later
  noExpiry : ∀ now, (operation now).1.NoExpiry

end Store

theorem StreamId.parse_beginsNumber {id : StreamId} (parsed : parse text = some id) :
    BeginsNumber text := by
  unfold parse at parsed
  split at parsed
  · cases parsed
  split at parsed
  · rename_i dash _ _ _ timestamp _ first _
    have begins := (parseInt64_beginsNumber first).append (text.drop dash)
    rwa [List.take_append_drop] at begins
  · cases parsed

theorem beginsNumber_not_startsWith (begins : BeginsNumber text) :
    startsWith text (ascii "ERR") = false := by
  obtain ⟨byte, rest, rfl, kind⟩ := begins
  have other : byte ≠ 69 := by
    rintro rfl
    revert kind
    decide
  have spelled : ascii "ERR" = [69, 82, 82] := by decide
  rw [startsWith, spelled, List.isPrefixOf_cons_cons, beq_eq_false_iff_ne.mpr other.symm,
    Bool.false_and]

end Credis
