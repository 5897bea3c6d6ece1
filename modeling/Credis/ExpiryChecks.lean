import Credis.OperationChecks

/-! Expired entries. Two keyspaces with the same live entries and versions answer
alike and stay so, whichever expired entries one of them still has, but for the
operations that look at an entry without asking whether it has expired. -/

namespace Credis

open ByteString

variable {entry : Entry}

namespace Store

variable {now : Time} {left right store : Store} {key : Key}

structure SameLive (now : Time) (left right : Store) : Prop where
  counter : left.versionCounter = right.versionCounter
  versions : left.keyVersions = right.keyVersions
  entries : ∀ key, left.liveEntry now key = right.liveEntry now key

namespace SameLive

theorem refl (store : Store) : SameLive now store store := ⟨rfl, rfl, fun _ => rfl⟩

theorem symm (same : SameLive now left right) : SameLive now right left :=
  ⟨same.counter.symm, same.versions.symm, fun key => (same.entries key).symm⟩

theorem trans {middle : Store} (first : SameLive now left middle)
    (second : SameLive now middle right) : SameLive now left right :=
  ⟨first.counter.trans second.counter, first.versions.trans second.versions,
    fun key => (first.entries key).trans (second.entries key)⟩

theorem touchKey (same : SameLive now left right) (key : Key) :
    SameLive now (left.touchKey key) (right.touchKey key) := by
  refine ⟨?_, ?_, same.entries⟩
  · simp only [Store.touchKey, same.counter]
  · simp only [Store.touchKey, same.counter, same.versions]

theorem put (same : SameLive now left right) (key : Key) (entry : Entry) :
    SameLive now (left.put key entry) (right.put key entry) := by
  refine ⟨same.counter, same.versions, fun other => ?_⟩
  have entries := same.entries other
  unfold liveEntry at entries ⊢
  by_cases own : other = key
  · subst own
    rw [put_lookup, put_lookup]
  · rw [put_lookup_ne _ _ own, put_lookup_ne _ _ own, entries]

theorem eraseKey (store : Store) {key : Key} (gone : store.liveEntry now key = none) :
    SameLive now (store.eraseKey key) store := by
  refine ⟨rfl, rfl, fun other => ?_⟩
  by_cases own : other = key
  · subst own
    rw [gone, liveEntry, eraseKey_lookup]
    rfl
  · rw [liveEntry, eraseKey_lookup_ne _ own, liveEntry]

theorem erase (same : SameLive now left right) (key : Key) :
    SameLive now (left.eraseKey key) (right.eraseKey key) := by
  refine ⟨same.counter, same.versions, fun other => ?_⟩
  have entries := same.entries other
  unfold liveEntry at entries ⊢
  by_cases own : other = key
  · subst own
    rw [eraseKey_lookup, eraseKey_lookup]
  · rw [eraseKey_lookup_ne _ own, eraseKey_lookup_ne _ own, entries]

theorem ofReads {before after : Store} (reads : Reads now before after) :
    SameLive now after before := by
  induction reads with
  | refl => exact .refl before
  | drop _ found expired ih =>
    exact (eraseKey _ (liveEntry_none.mpr (.inr ⟨_, found, expired⟩))).trans ih

end SameLive

theorem SameLive.actOn (same : SameLive now left right) (key : Key) (passes : Bool) {α : Type}
    (act : Act α) :
    SameLive now (left.actOn now key passes act).1 (right.actOn now key passes act).1 := by
  have valid : SameLive now (left.unexpired now key) (right.unexpired now key) :=
    (SameLive.ofReads (unexpired_reads left now key)).trans
      (same.trans (SameLive.ofReads (unexpired_reads right now key)).symm)
  have touched : SameLive now
      (if passes then left.unexpired now key else (left.unexpired now key).touchKey key)
      (if passes then right.unexpired now key else (right.unexpired now key).touchKey key) := by
    split
    · exact valid
    · exact valid.touchKey key
  unfold Store.actOn write
  cases act.1 with
  | none => exact touched
  | some entry => exact touched.put key entry

theorem Operation.call_same {now : Instant} (same : SameLive now.steady left right)
    (operation : Operation) (works : operation.onEntry = true) :
    (operation.call left now).2 = (operation.call right now).2 ∧
      SameLive now.steady (operation.call left now).1 (operation.call right now).1 := by
  obtain ⟨key, named⟩ := operation.key_of_onEntry works
  have acts := Operation.call_acts now named works
  have first := acts left
  have second := acts right
  dsimp only at first second
  rw [first, second, same.entries key]
  exact ⟨rfl, same.actOn key _ _⟩

theorem filter_eraseP {α : Type} {keep erased : α → Bool} {items : List α}
    (dropped : ∀ item ∈ items, erased item = true → keep item = false) :
    (items.eraseP erased).filter keep = items.filter keep := by
  induction items with
  | nil => rfl
  | cons item items ih =>
    cases gone : erased item with
    | true =>
      rw [List.eraseP_cons_of_pos gone, List.filter_cons_of_neg]
      simp [dropped item (by simp) gone]
    | false =>
      rw [List.eraseP_cons_of_neg (by simp [gone]), List.filter_cons, List.filter_cons,
        ih fun other inside => dropped other (by simp [inside])]

section Expired

variable {entry : Entry} (found : store.data.lookup key = some entry)
  (expired : isExpired now entry = true)
include found expired

theorem SameLive.erased : SameLive now store (store.eraseKey key) :=
  (SameLive.eraseKey store (liveEntry_none.mpr (.inr ⟨entry, found, expired⟩))).symm

theorem validEntries_erased : store.validEntries now = (store.eraseKey key).validEntries now := by
  have dropped : ∀ item ∈ store.data.entries, key = item.1 →
      item.2.expiry.all (now < ·) = false := by
    rintro ⟨_, other⟩ inside rfl
    obtain rfl : entry = other :=
      Option.some.inj (found.symm.trans (AList.mem_lookup_iff.mpr inside))
    unfold isExpired at expired
    cases due : entry.expiry with
    | none => simp [due] at expired
    | some expiry => simpa [due] using expired
  unfold validEntries
  rw [List.filter_map, List.filter_map]
  refine congrArg _ (filter_eraseP ?_).symm
  intro item inside own
  exact dropped item inside (by simpa using own)

end Expired

theorem keys_list (store : Store) (now : Time) :
    (store.keys now).2 =
      store.data.keys.filter fun key => !(store.data.lookup key).any (isExpired now) := by
  have swept : ∀ (keys : List Key) (store : Store),
      (keys.foldl eraseKey store).data.keys = store.data.keys.filter (· ∉ keys) := by
    intro keys
    induction keys with
    | nil => simp
    | cons key keys ih =>
      intro store
      rw [List.foldl_cons, ih, eraseKey, AList.keys_erase,
        @List.Nodup.erase_eq_filter _ instBEqOfDecidableEq _ _ store.data.keys_nodup,
        List.filter_filter]
      refine List.filter_congr fun other _ => ?_
      rw [Bool.eq_iff_iff]
      simp [and_comm]
  rw [keys, swept]
  refine List.filter_congr fun key inside => ?_
  simp [expiredKeys, inside]

theorem keys_erased (found : store.data.lookup key = some entry)
    (expired : isExpired now entry = true) :
    (store.keys now).2 = ((store.eraseKey key).keys now).2 := by
  rw [keys_list, keys_list, eraseKey, AList.keys_erase,
    @List.Nodup.erase_eq_filter _ instBEqOfDecidableEq _ _ store.data.keys_nodup,
    List.filter_filter]
  refine List.filter_congr fun other _ => ?_
  by_cases own : other = key
  · subst own
    simp [found, expired]
  · rw [AList.lookup_erase_ne own]
    simp [own]

theorem del_same (same : SameLive now left right) (key : Key) :
    SameLive now (left.del key).1 (right.del key).1 := by
  have each : ∀ store : Store,
      SameLive now (store.del key).1 ((store.touchKey key).eraseKey key) := by
    intro store
    unfold del
    dsimp only
    split
    · exact .refl _
    · rename_i absent
      refine (SameLive.eraseKey _ (liveEntry_none.mpr (.inl ?_))).symm
      exact AList.lookup_eq_none.mpr absent
  exact (each left).trans (((same.touchKey key).erase key).trans (each right).symm)

theorem del_result (store : Store) (key : Key) :
    (store.del key).2 = (store.data.lookup key).isSome := by
  unfold del
  dsimp only
  split
  · rename_i present
    exact (AList.lookup_isSome.mpr present).symm
  rename_i absent
  rw [touchKey_data] at absent
  rw [AList.lookup_eq_none.mpr absent]
  rfl

theorem keyIsAbsentOrHolds_expired {expiry : Time} (found : store.data.lookup key = some entry)
    (dated : entry.expiry = some expiry) (holds : Value → Bool) :
    keyIsAbsentOrHolds holds store now key = true ↔
      expiry < now ∨ holds entry.value = true := by
  unfold keyIsAbsentOrHolds
  rw [found]
  by_cases past : expiry < now
  · simp [dated, past]
  · simp [dated, past]

/-- An expired entry makes no difference to an operation, except when the operation deletes
its key, or asks for its type at the very instant of its expiry and it has another type. -/
theorem expired_absent_iff {now : Instant} {entry : Entry} {expiry : Time}
    (found : store.data.lookup key = some entry) (dated : entry.expiry = some expiry)
    (reached : expiry ≤ now.steady) (operation : Operation) :
    ((operation.call store now).2 = (operation.call (store.eraseKey key) now).2 ∧
      SameLive now.steady (operation.call store now).1
        (operation.call (store.eraseKey key) now).1) ↔
    operation ≠ .del key ∧ ∀ holds, operation = .keyIsAbsentOrHolds holds key →
      expiry < now.steady ∨ holds entry.value = true := by
  have expired : isExpired now.steady entry = true := by
    simpa [isExpired, dated] using reached
  have same := SameLive.erased found expired
  have gone := eraseKey_lookup store key
  by_cases deletes : ∃ other, operation = .del other
  · obtain ⟨other, rfl⟩ := deletes
    have stores := del_same same other
    simp only [Operation.call, Operation.returning, del_result, Returned.flag.injEq, ne_eq,
      Operation.del.injEq, reduceCtorEq, false_imp_iff, implies_true, and_true, stores]
    by_cases own : other = key
    · subst own
      simp [found, gone]
    · simp [eraseKey_lookup_ne store own, own]
  by_cases checks : ∃ holds other, operation = .keyIsAbsentOrHolds holds other
  · obtain ⟨holds, other, rfl⟩ := checks
    simp only [Operation.call, Returned.flag.injEq, same, and_true, ne_eq, reduceCtorEq,
      not_false_eq_true, true_and, Operation.keyIsAbsentOrHolds.injEq, and_imp]
    by_cases own : other = key
    · subst own
      have free : keyIsAbsentOrHolds holds (store.eraseKey other) now.steady other = true := by
        rw [keyIsAbsentOrHolds, gone]
      rw [free, keyIsAbsentOrHolds_expired found dated]
      simp
    · have equal : keyIsAbsentOrHolds holds store now.steady other =
          keyIsAbsentOrHolds holds (store.eraseKey key) now.steady other := by
        rw [keyIsAbsentOrHolds, keyIsAbsentOrHolds, eraseKey_lookup_ne store own]
      simp [equal, own]
  have plain : operation ≠ .del key ∧ ∀ holds, operation = .keyIsAbsentOrHolds holds key →
      expiry < now.steady ∨ holds entry.value = true :=
    ⟨fun deleting => deletes ⟨key, deleting⟩,
      fun holds checking => absurd ⟨holds, key, checking⟩ checks⟩
  refine iff_of_true ?_ plain
  cases works : operation.onEntry with
  | true => exact operation.call_same same works
  | false =>
    cases operation with
    | keys =>
      exact ⟨congrArg Returned.texts (keys_erased found expired),
        (SameLive.ofReads (.keys store)).trans (same.trans (SameLive.ofReads (.keys _)).symm)⟩
    | forEachValidEntry =>
      exact ⟨congrArg Returned.visited (validEntries_erased found expired), same⟩
    | getKeyVersion _ => exact ⟨rfl, same⟩
    | del other => exact absurd ⟨other, rfl⟩ deletes
    | keyIsAbsentOrHolds holds other => exact absurd ⟨holds, other, rfl⟩ checks
    | _ => cases works

def datedStore : Store := empty.put (ascii "k") ⟨.string (ascii "v"), some 5⟩

theorem datedStore_get_alike :
    ((Operation.get (ascii "k")).call datedStore ⟨5, 0⟩).2 =
        ((Operation.get (ascii "k")).call (datedStore.eraseKey (ascii "k")) ⟨5, 0⟩).2 ∧
      SameLive 5 ((Operation.get (ascii "k")).call datedStore ⟨5, 0⟩).1
        ((Operation.get (ascii "k")).call (datedStore.eraseKey (ascii "k")) ⟨5, 0⟩).1 :=
  (@expired_absent_iff datedStore (ascii "k") ⟨5, 0⟩ ⟨.string (ascii "v"), some 5⟩ 5 rfl rfl
    (Int.le_refl 5) (.get (ascii "k"))).mpr ⟨by simp, by simp⟩

theorem datedStore_told_apart :
    ((Operation.del (ascii "k")).call datedStore ⟨9, 0⟩).2 = .flag true ∧
      ((Operation.del (ascii "k")).call (datedStore.eraseKey (ascii "k")) ⟨9, 0⟩).2 =
        .flag false ∧
      ((Operation.keyIsAbsentOrHolds (fun value => (Value.list? value).isSome)
        (ascii "k")).call datedStore ⟨5, 0⟩).2 = .flag false ∧
      ((Operation.keyIsAbsentOrHolds (fun value => (Value.list? value).isSome)
        (ascii "k")).call (datedStore.eraseKey (ascii "k")) ⟨5, 0⟩).2 = .flag true :=
  ⟨rfl, rfl, rfl, rfl⟩

end Store

end Credis
