import Credis.DoubleOrder
import Credis.OperationChecks

/-! Sorted sets. The entries and the index by member are two accounts of one set:
every change keeps them in step, and each query may use either. -/

namespace Credis

open ByteString List

variable {position : ScoredMember} {score : Float}

def ScoredMember.IsNumber (item : ScoredMember) : Prop := item.1.isNaN = false

section Order

variable {left middle right : ScoredMember}

theorem scoredLt_iff (first : left.IsNumber) (second : right.IsNumber) :
    scoredLt left right = true ↔ Double.place left.1 < Double.place right.1 ∨
      (Double.place left.1 = Double.place right.1 ∧ left.2 < right.2) := by
  unfold scoredLt
  rw [Bool.or_eq_true, Bool.and_eq_true, decide_eq_true_iff, decide_eq_true_iff,
    Double.lt_iff_place first second, Double.beq_iff_place first second]

theorem scoredLt_irrefl (number : left.IsNumber) : ¬ scoredLt left left = true := by
  rw [scoredLt_iff number number]
  rintro (below | ⟨-, below⟩)
  · exact lt_irrefl _ below
  · exact List.lt_irrefl _ below

theorem scoredLt_trans (first : left.IsNumber) (second : middle.IsNumber)
    (third : right.IsNumber) (below : scoredLt left middle = true)
    (above : scoredLt middle right = true) : scoredLt left right = true := by
  rw [scoredLt_iff first second] at below
  rw [scoredLt_iff second third] at above
  rw [scoredLt_iff first third]
  rcases below with below | ⟨same, below⟩
  · rcases above with above | ⟨same, -⟩
    · exact .inl (below.trans above)
    · exact .inl (same ▸ below)
  · rcases above with above | ⟨next, above⟩
    · exact .inl (same ▸ above)
    · exact .inr ⟨same.trans next, List.lt_trans below above⟩

theorem bytes_lt_total {left right : Bytes} (different : left ≠ right) :
    left < right ∨ right < left := by
  by_cases below : left < right
  · exact .inl below
  · by_cases above : right < left
    · exact .inr above
    · exact absurd (List.le_antisymm (List.not_lt.mp above) (List.not_lt.mp below)) different

theorem scoredLt_total (first : left.IsNumber) (second : right.IsNumber)
    (different : left.2 ≠ right.2) : scoredLt left right = true ∨ scoredLt right left = true := by
  rw [scoredLt_iff first second, scoredLt_iff second first]
  rcases lt_trichotomy (Double.place left.1) (Double.place right.1) with below | same | above
  · exact .inl (.inl below)
  · rcases bytes_lt_total different with below | above
    · exact .inl (.inr ⟨same, below⟩)
    · exact .inr (.inr ⟨same.symm, above⟩)
  · exact .inr (.inl above)

end Order

namespace SortedSet

theorem isAt_self (position : ScoredMember) : isAt position position = true :=
  beq_self_eq_true position.2

def Ascending (entries : List ScoredMember) : Prop :=
  entries.Pairwise fun left right => scoredLt left right = true

structure Accounts (entries : List ScoredMember) (find : Bytes → Option ScoredMember) : Prop where
  numbers : ∀ item ∈ entries, item.IsNumber
  ascending : Ascending entries
  indexed : ∀ member position, find member = some position ↔
    position ∈ entries ∧ position.2 = member

def Valid (set : SortedSet) : Prop := Accounts set.entries set.memberScores.lookup

theorem empty_valid : empty.Valid where
  numbers := by simp [empty]
  ascending := .nil
  indexed := by simp [empty]

namespace Accounts

variable {entries : List ScoredMember} {find : Bytes → Option ScoredMember}

section

variable (accounts : Accounts entries find)

include accounts

theorem eq_of_member {first second : ScoredMember} (left : first ∈ entries)
    (right : second ∈ entries) (same : first.2 = second.2) : first = second := by
  have found := (accounts.indexed first.2 first).mpr ⟨left, rfl⟩
  rw [(accounts.indexed first.2 second).mpr ⟨right, same.symm⟩] at found
  exact (Option.some.inj found).symm

theorem nodup : entries.Nodup := by
  refine Pairwise.imp_of_mem ?_ accounts.ascending
  intro left right inside _ below same
  subst same
  exact scoredLt_irrefl (accounts.numbers left inside) below

theorem members_nodup : (entries.map Prod.snd).Nodup :=
  Nodup.map_on (fun _ left _ right same => accounts.eq_of_member left right same)
    accounts.nodup

theorem fresh {member : Bytes} (absent : find member = none) :
    ∀ item ∈ entries, item.2 ≠ member := by
  intro item inside same
  rw [(accounts.indexed member item).mpr ⟨inside, same⟩] at absent
  cases absent

end

end Accounts

section Insertion

variable {entries : List ScoredMember} {item : ScoredMember}

theorem place_splits (numbers : ∀ other ∈ entries, other.IsNumber) (number : item.IsNumber)
    (ascending : Ascending entries) (fresh : ∀ other ∈ entries, other.2 ≠ item.2) :
    (∀ other ∈ entries.takeWhile fun other => !scoredLt item other, scoredLt other item = true) ∧
      ∀ other ∈ entries.dropWhile fun other => !scoredLt item other,
        scoredLt item other = true := by
  constructor
  · intro other front
    have inside := (takeWhile_sublist _).subset front
    have notAbove := all_eq_true.mp all_takeWhile other front
    rcases scoredLt_total (numbers other inside) number (fresh other inside) with below | above
    · exact below
    · rw [above] at notAbove
      cases notAbove
  · induction entries with
    | nil => intro other back; cases back
    | cons first entries ih =>
      have later := ih (fun other inside => numbers other (by simp [inside]))
        (pairwise_cons.mp ascending).2 (fun other inside => fresh other (by simp [inside]))
      intro other back
      rw [dropWhile_cons] at back
      split at back
      · exact later other back
      rename_i above
      have above : scoredLt item first = true := by simpa using above
      rcases mem_cons.mp back with rfl | behind
      · exact above
      · exact scoredLt_trans number (numbers first (by simp)) (numbers other (by simp [behind]))
          above ((pairwise_cons.mp ascending).1 other behind)

theorem insertUnique_fresh (numbers : ∀ other ∈ entries, other.IsNumber) (number : item.IsNumber)
    (ascending : Ascending entries) (fresh : ∀ other ∈ entries, other.2 ≠ item.2) :
    ∃ before after, entries = before ++ after ∧
      insertUnique entries item = (before ++ item :: after, item) ∧
      Ascending (before ++ item :: after) := by
  obtain ⟨below, above⟩ := place_splits numbers number ascending fresh
  have pieces := takeWhile_append_dropWhile (p := fun other => !scoredLt item other)
    (l := entries)
  refine ⟨_, _, pieces.symm, ?_, ?_⟩
  · unfold insertUnique
    dsimp only
    split
    · rename_i previous last
      rw [if_pos (below previous (mem_of_getLast? last))]
    · rename_i absent
      rw [getLast?_eq_none_iff.mp absent, nil_append]
  · have parts := ascending
    rw [Ascending, ← pieces, pairwise_append] at parts
    refine pairwise_append.mpr ⟨parts.1, pairwise_cons.mpr ⟨above, parts.2.1⟩, ?_⟩
    intro left front right back
    rcases mem_cons.mp back with rfl | behind
    · exact below left front
    · exact parts.2.2 left front right behind

end Insertion

namespace Accounts

variable {entries : List ScoredMember} {find : Bytes → Option ScoredMember} {member : Bytes}

section

variable (accounts : Accounts entries find)

include accounts

theorem insert (absent : find member = none) (number : score.isNaN = false) :
    (insertUnique entries (score, member)).2 = (score, member) ∧
      Accounts (insertUnique entries (score, member)).1 fun other =>
        if other = member then some (score, member) else find other := by
  obtain ⟨before, after, rfl, inserted, ascending⟩ := @insertUnique_fresh _ (score, member)
    accounts.numbers number accounts.ascending (accounts.fresh absent)
  have within : ∀ item, item ∈ before ++ (score, member) :: after ↔
      item = (score, member) ∨ item ∈ before ++ after := by
    intro item
    simp only [mem_append, mem_cons]
    exact or_left_comm
  rw [inserted]
  refine ⟨rfl, ?_, ascending, ?_⟩
  · intro item inside
    rcases (within item).mp inside with rfl | old
    · exact number
    · exact accounts.numbers item old
  · intro other position
    rw [within]
    split
    · rename_i same
      subst same
      constructor
      · rintro found
        cases found
        exact ⟨.inl rfl, rfl⟩
      · rintro ⟨rfl | old, same⟩
        · rfl
        · exact absurd same (accounts.fresh absent position old)
    · rename_i different
      rw [accounts.indexed]
      constructor
      · exact fun ⟨old, same⟩ => ⟨.inr old, same⟩
      · rintro ⟨rfl | old, same⟩
        · exact absurd same.symm different
        · exact ⟨old, same⟩

theorem extract_at (found : find member = some position) :
    ∃ before after, entries = before ++ position :: after ∧
      extract entries position = before ++ after := by
  obtain ⟨inside, rfl⟩ := (accounts.indexed member position).mp found
  obtain ⟨before, after, rfl⟩ := append_of_mem inside
  have others : ∀ item ∈ before, ¬ isAt position item = true := by
    intro item front same
    have distinct := accounts.nodup
    rw [accounts.eq_of_member (mem_append_left _ front) inside (eq_of_beq same)] at front
    exact (nodup_append.mp distinct).2.2 position front position (by simp) rfl
  refine ⟨before, after, rfl, ?_⟩
  rw [extract, eraseP_append_right _ others, eraseP_cons_of_pos (isAt_self position)]

theorem findIdx_at (found : find member = some position) :
    entries[entries.findIdx (isAt position)]? = some position := by
  obtain ⟨inside, rfl⟩ := (accounts.indexed member position).mp found
  have bound := findIdx_lt_length_of_exists ⟨position, inside, isAt_self position⟩
  have here : isAt position (entries[entries.findIdx (isAt position)]) = true := findIdx_getElem
  rw [getElem?_eq_getElem bound]
  exact congrArg some (accounts.eq_of_member (getElem_mem bound) inside (eq_of_beq here))

end

theorem drop (accounts : Accounts entries find) {position : ScoredMember}
    (found : find member = some position) :
    Accounts (extract entries position) fun other =>
      if other = member then none else find other := by
  obtain ⟨before, after, rfl, erased⟩ := accounts.extract_at found
  have owner := ((accounts.indexed member position).mp found).2
  have distinct := accounts.nodup
  have kept : ∀ item, item ∈ before ++ after ↔
      item ∈ before ++ position :: after ∧ item ≠ position := by
    intro item
    have := (nodup_cons.mp (nodup_middle.mp distinct)).1
    simp only [mem_append, mem_cons]
    constructor
    · intro inside
      refine ⟨inside.imp_right .inr, ?_⟩
      rintro rfl
      exact this (by simpa using inside)
    · rintro ⟨front | rfl | back, different⟩
      · exact .inl front
      · exact absurd rfl different
      · exact .inr back
  rw [erased]
  refine ⟨fun item inside => accounts.numbers item ((kept item).mp inside).1, ?_, ?_⟩
  · exact accounts.ascending.sublist (Sublist.append_left (sublist_cons_self _ _) _)
  · intro other item
    rw [kept]
    split
    · rename_i same
      subst same
      constructor
      · intro absent
        cases absent
      · rintro ⟨⟨inside, different⟩, same⟩
        exact absurd (accounts.eq_of_member inside (by simp) (same.trans owner.symm)) different
    · rename_i different
      rw [accounts.indexed]
      constructor
      · rintro ⟨inside, same⟩
        refine ⟨⟨inside, ?_⟩, same⟩
        rintro rfl
        exact different (same.symm.trans owner)
      · exact fun ⟨⟨inside, _⟩, same⟩ => ⟨inside, same⟩

end Accounts

inductive Change
  | add (score : Float) (member : Bytes)
  | remove (member : Bytes)

namespace Change

def apply (set : SortedSet) : Change → SortedSet × Int
  | .add score member => set.add score member
  | .remove member => set.remove member

def IsNumber : Change → Prop
  | .add score _ => score.isNaN = false
  | .remove _ => True

end Change

def build (changes : List Change) : SortedSet :=
  changes.foldl (fun set change => (change.apply set).1) empty

section Operations

variable {set : SortedSet} {score : Float} {member : Bytes}

theorem add_spec (valid : set.Valid) (number : score.isNaN = false) :
    (set.add score member).1.Valid ∧
      (set.add score member).1.memberScores.lookup member = some (score, member) ∧
      (∀ other, other ≠ member →
        (set.add score member).1.memberScores.lookup other = set.memberScores.lookup other) ∧
      (set.add score member).2 = if member ∈ set.memberScores then 0 else 1 := by
  have inserted : ∀ position : ScoredMember, (fun other => if other = member then some position
      else set.memberScores.lookup other) =
        (set.memberScores.insert member position).lookup := by
    intro position
    funext other
    split
    · rename_i same
      rw [same, AList.lookup_insert]
    · rename_i different
      rw [AList.lookup_insert_ne different]
  cases found : set.memberScores.lookup member with
  | some position =>
    have owner := ((valid.indexed member position).mp found).2
    have dropped : Accounts (extract set.entries position) fun other =>
        if other = member then none else set.memberScores.lookup other := valid.drop found
    obtain ⟨placed, accounts⟩ := dropped.insert (if_pos rfl) number
    have merged : (fun other => if other = member then some (score, member)
        else if other = member then none else set.memberScores.lookup other) =
          (set.memberScores.insert member (score, member)).lookup := by
      rw [← inserted]
      funext other
      split <;> rfl
    have present : member ∈ set.memberScores := AList.lookup_isSome.mp (by simp [found])
    have moved : set.add score member =
        (⟨(insertUnique (extract set.entries position) (score, member)).1,
          set.memberScores.insert member (score, member)⟩, 0) := by
      unfold add
      rw [found]
      dsimp only
      rw [owner, placed]
    rw [moved]
    refine ⟨?_, AList.lookup_insert _, fun other different => ?_, (if_pos present).symm⟩
    · rwa [Valid, ← merged]
    · exact AList.lookup_insert_ne different
  | none =>
    obtain ⟨placed, accounts⟩ := Accounts.insert valid found number
    have absent : member ∉ set.memberScores := AList.lookup_eq_none.mp found
    have created : set.add score member =
        (⟨(insertUnique set.entries (score, member)).1,
          set.memberScores.insert member (score, member)⟩, 1) := by
      unfold add
      rw [found]
      dsimp only
      rw [placed, if_neg absent]
    rw [created]
    refine ⟨?_, AList.lookup_insert _, fun other different => ?_, (if_neg absent).symm⟩
    · rwa [Valid, ← inserted]
    · exact AList.lookup_insert_ne different

theorem remove_spec (valid : set.Valid) :
    (set.remove member).1.Valid ∧ (set.remove member).1.memberScores.lookup member = none ∧
      (∀ other, other ≠ member →
        (set.remove member).1.memberScores.lookup other = set.memberScores.lookup other) ∧
      (set.remove member).2 = if member ∈ set.memberScores then 1 else 0 := by
  unfold remove
  split
  · rename_i found
    have absent : member ∉ set.memberScores := AList.lookup_eq_none.mp found
    exact ⟨valid, found, fun _ _ => rfl, (if_neg absent).symm⟩
  · rename_i position found
    have present : member ∈ set.memberScores := AList.lookup_isSome.mp (by simp [found])
    have erased : (fun other => if other = member then none
        else set.memberScores.lookup other) = (set.memberScores.erase member).lookup := by
      funext other
      split
      · rename_i same
        rw [same, AList.lookup_erase]
      · rename_i different
        rw [AList.lookup_erase_ne different]
    refine ⟨?_, AList.lookup_erase _ _, fun other different => ?_, (if_pos present).symm⟩
    · rw [Valid, ← erased]
      exact Accounts.drop valid found
    · exact AList.lookup_erase_ne different

theorem Change.apply_valid {change : Change} (valid : set.Valid) (number : change.IsNumber) :
    (change.apply set).1.Valid := by
  cases change with
  | add score member => exact (add_spec valid number).1
  | remove member => exact (remove_spec valid).1

end Operations

theorem build_valid {changes : List Change} (numbers : ∀ change ∈ changes, change.IsNumber) :
    (build changes).Valid := by
  have kept : ∀ set : SortedSet, set.Valid →
      (changes.foldl (fun set change => (change.apply set).1) set).Valid := by
    induction changes with
    | nil => exact fun _ valid => valid
    | cons change changes ih =>
      intro set valid
      exact ih (fun other member => numbers other (by simp [member])) _
        (Change.apply_valid valid (numbers change (by simp)))
  exact kept empty empty_valid

section Queries

variable {set : SortedSet}

theorem mem_memberScores (valid : set.Valid) (member : Bytes) :
    member ∈ set.memberScores ↔ member ∈ set.entries.map Prod.snd := by
  rw [← AList.lookup_isSome, Option.isSome_iff_exists, mem_map]
  exact exists_congr fun position => valid.indexed member position

theorem keys_length (valid : set.Valid) : set.memberScores.keys.length = set.entries.length := by
  have perm : set.memberScores.keys.Perm (set.entries.map Prod.snd) :=
    (perm_ext_iff_of_nodup set.memberScores.keys_nodup valid.members_nodup).mpr
      fun member => AList.mem_keys.symm.trans (mem_memberScores valid member)
  rw [perm.length_eq, length_map]

theorem rank_iff (valid : set.Valid) (member : Bytes) (index : Nat) :
    (set.memberScores.lookup member).map
      (fun position => (set.entries.findIdx (isAt position) : Int)) =
        some (index : Int) ↔ (set.entries.map Prod.snd)[index]? = some member := by
  rw [getElem?_map, Option.map_eq_some_iff, Option.map_eq_some_iff]
  constructor
  · rintro ⟨position, found, same⟩
    have index : set.entries.findIdx (isAt position) = index := Int.ofNat_inj.mp same
    refine ⟨position, ?_, ((valid.indexed member position).mp found).2⟩
    rw [← index]
    exact valid.findIdx_at found
  · rintro ⟨position, placed, owner⟩
    have found := (valid.indexed member position).mpr ⟨mem_of_getElem? placed, owner⟩
    refine ⟨position, found, congrArg _ ?_⟩
    have same := valid.findIdx_at found
    obtain ⟨bound, -⟩ := List.getElem?_eq_some_iff.mp same
    exact (getElem?_inj bound valid.nodup).mp (same.trans placed.symm)

theorem score_iff (valid : set.Valid) (member : Bytes) (score : Float) :
    (set.memberScores.lookup member).map Prod.fst = some score ↔
      (score, member) ∈ set.entries := by
  rw [Option.map_eq_some_iff]
  constructor
  · rintro ⟨position, found, rfl⟩
    obtain ⟨inside, rfl⟩ := (valid.indexed member position).mp found
    exact inside
  · exact fun inside => ⟨(score, member), (valid.indexed member _).mpr ⟨inside, rfl⟩, rfl⟩

end Queries

structure AddsMember (set : SortedSet) (score : Float) (member : Bytes) : Prop where
  new : (set.add score member).2 = 1 ↔ member ∉ set.entries.map Prod.snd
  old : (set.add score member).2 = 0 ↔ member ∈ set.entries.map Prod.snd
  given : ∀ other, (other, member) ∈ (set.add score member).1.entries ↔ other = score
  others : ∀ other, other ≠ member → ∀ value,
    (value, other) ∈ (set.add score member).1.entries ↔ (value, other) ∈ set.entries

theorem Valid.adds {set : SortedSet} (valid : set.Valid) (number : score.isNaN = false)
    (member : Bytes) : AddsMember set score member := by
  obtain ⟨after, own, others, count⟩ := @add_spec set score member valid number
  refine ⟨?_, ?_, fun other => ?_, fun other different value => ?_⟩
  · rw [count, ← mem_memberScores valid]
    split <;> simp_all
  · rw [count, ← mem_memberScores valid]
    split <;> simp_all
  · rw [← score_iff after, own, Option.map_some, Option.some.injEq]
    exact eq_comm
  · rw [← score_iff after, ← score_iff valid, others other different]

end SortedSet

namespace Store

structure AnswersFrom (store : Store) (now : Time) (key : Key) (entries : List ScoredMember) :
    Prop where
  zcard : (store.zcard now key).2 = entries.length
  zrank : ∀ member (index : Nat), (store.zrank now key member).2 = some (index : Int) ↔
    (store.zrange now key index index).2 = [member]
  zrange : ∀ index : Nat, (store.zrange now key index index).2 =
    ((entries.map Prod.snd)[index]?).toList
  zscore : ∀ member score, (store.zscore now key member).2 = some score ↔
    (score, member) ∈ entries
  zgetall : (store.zgetall now key).2 = entries.map fun item => (item.2, item.1)

theorem rangePositions_one (length index : Nat) :
    rangePositions length index index = if index < length then [index] else [] := by
  have start : max 0 (if (index : Int) < 0 then (length : Int) + index else index) = index := by
    rw [if_neg (by omega)]
    omega
  unfold rangePositions
  dsimp only
  rw [start]
  by_cases inside : index < length
  · rw [if_neg (by omega), if_neg (by omega), if_pos inside]
    have one : ((index : Int) - index + 1).toNat = 1 := by omega
    rw [one]
    simp
  · rw [if_pos (by omega), if_neg inside]

section Queries

variable {store : Store} {now : Time} {key : Key} {set : SortedSet}

section

variable (live : store.liveValue now key = some (.zset set))

include live

theorem getZset_live : (store.getZset now key).2 = some set := by
  rw [getZset, getTyped_value, live]
  rfl

theorem zrange_live (start stop : Int) :
    (store.zrange now key start stop).2 =
      (rangePositions (set.entries.map Prod.snd).length start stop).map fun position =>
        (set.entries.map Prod.snd).getD position [] := by
  have found := getZset_live live
  unfold zrange
  split
  · rename_i reading
    rw [reading] at found
    cases found
  · rename_i reading
    rw [reading] at found
    cases found
    rw [length_map]
    refine map_congr_left fun position _ => ?_
    rw [getD_eq_getElem?_getD, getD_eq_getElem?_getD, getElem?_map]
    cases set.entries[position]? <;> rfl

theorem zrange_one (index : Nat) :
    (store.zrange now key index index).2 = ((set.entries.map Prod.snd)[index]?).toList := by
  rw [zrange_live live, rangePositions_one]
  split
  · rename_i inside
    rw [map_singleton, getD_eq_getElem?_getD, getElem?_eq_getElem inside]
    rfl
  · rename_i outside
    rw [getElem?_eq_none (Nat.le_of_not_lt outside)]
    rfl

theorem zrange_all : (store.zrange now key 0 (-1)).2 = set.entries.map Prod.snd := by
  rw [zrange_live live]
  generalize set.entries.map Prod.snd = members
  have positions : rangePositions members.length 0 (-1) = range members.length := by
    by_cases absent : members.length = 0
    · rw [absent]
      rfl
    have stop : max 0 (if (-1 : Int) < 0 then (members.length : Int) + -1 else -1) =
        members.length - 1 := by
      rw [if_pos (by decide)]
      omega
    have count : (members.length : Int) - 1 - 0 + 1 = members.length := by omega
    have start : max 0 (if (0 : Int) < 0 then (members.length : Int) + 0 else 0) = 0 := rfl
    unfold rangePositions
    dsimp only
    rw [start, stop, if_neg (by omega), if_neg (by omega), count]
    simp
  rw [positions]
  refine ext_getElem (by simp) fun index _ inside => ?_
  rw [getElem_map, getElem_range, getD_eq_getElem?_getD,
    getElem?_eq_getElem inside, Option.getD_some]

theorem answersFrom (valid : set.Valid) : store.AnswersFrom now key set.entries := by
  have found := getZset_live live
  obtain ⟨after, reading⟩ : ∃ after, store.getZset now key = (after, some set) :=
    ⟨_, Prod.ext rfl found⟩
  refine ⟨?_, fun member index => ?_, zrange_one live, fun member score => ?_, ?_⟩
  · simp only [Store.zcard, reading, SortedSet.keys_length valid]
  · rw [zrange_one live, Store.zrank, reading]
    dsimp only
    rw [SortedSet.rank_iff valid]
    cases (set.entries.map Prod.snd)[index]? <;> simp
  · rw [Store.zscore, reading]
    exact SortedSet.score_iff valid member score
  · rw [Store.zgetall, reading]

end

end Queries

end Store

/-- Along every sequence of calls with scores that are numbers the entries stay in
order, the index by member stays in step with them, `add` counts new members and
changes no other, and all queries answer from the entries. -/
theorem sorted_set_stays_consistent (changes : List SortedSet.Change)
    (numbers : ∀ change ∈ changes, change.IsNumber) :
    SortedSet.Ascending (SortedSet.build changes).entries ∧
      ((SortedSet.build changes).entries.map Prod.snd).Nodup ∧
      (∀ member position, (SortedSet.build changes).memberScores.lookup member = some position ↔
        position ∈ (SortedSet.build changes).entries ∧ position.2 = member) ∧
      (∀ score member, score.isNaN = false →
        SortedSet.AddsMember (SortedSet.build changes) score member) ∧
      ∀ (store : Store) (now : Time) (key : Key),
        store.liveValue now key = some (.zset (SortedSet.build changes)) →
        store.AnswersFrom now key (SortedSet.build changes).entries := by
  have valid := SortedSet.build_valid numbers
  exact ⟨valid.ascending, valid.members_nodup, valid.indexed,
    fun score member number => valid.adds number member,
    fun store now key live => Store.answersFrom live valid⟩

theorem sorted_set_of_two_stays_consistent :
    (SortedSet.build [.add 2 (ascii "b"), .add 1 (ascii "a"), .add 0 (ascii "b"),
      .remove (ascii "c")]).entries.map Prod.snd = [ascii "b", ascii "a"] ∧
      SortedSet.Ascending (SortedSet.build [.add 2 (ascii "b"), .add 1 (ascii "a"),
        .add 0 (ascii "b"), .remove (ascii "c")]).entries :=
  ⟨by decide +kernel, (sorted_set_stays_consistent _ (by
    intro change member
    simp only [List.mem_cons, List.not_mem_nil, or_false] at member
    rcases member with rfl | rfl | rfl | rfl
    · exact (by decide +kernel : (2 : Float).isNaN = false)
    · exact (by decide +kernel : (1 : Float).isNaN = false)
    · exact (by decide +kernel : (0 : Float).isNaN = false)
    · trivial)).1⟩

end Credis
