import Credis.SortedSetChecks
import Credis.StreamReadChecks

/-! Reads of a range: by position in lists and sorted sets, by ID in streams. Each is
compared with the selection that it stands for. -/

namespace Credis

open ByteString
open Bisection (Falls Searches)
open StreamId List

variable {id : StreamId} {text : Bytes}

variable {millis : Nat}

namespace Store

def indexPosition (length : Nat) (index : Int) : Int :=
  if index < 0 then length + index else index

def between (length : Nat) (start stop : Int) (position : Nat) : Bool :=
  decide (indexPosition length start ≤ position ∧ position ≤ indexPosition length stop)

def slice {α : Type} (items : List α) (start stop : Int) : List α :=
  ((range items.length).filter (between items.length start stop)).filterMap
    fun position => items[position]?

/-- The signed numbers that a range read computes with. The counter of its loop runs
from the first position to one behind the last. -/
def rangeNumbers (length : Nat) (start stop : Int) : List Int :=
  let first := indexPosition length start
  let last := indexPosition length stop
  if length ≤ max 0 first ∨ max 0 last < max 0 first then [first, last]
  else
    let bound := if length ≤ max 0 last then (length : Int) - 1 else max 0 last
    [first, last, bound, bound - max 0 first, bound - max 0 first + 1, bound + 1]

def EndsBefore (length : Nat) (start stop : Int) : Prop :=
  0 < length ∧ length + stop < 0 ∧ indexPosition length start ≤ 0

instance (length : Nat) (start stop : Int) : Decidable (EndsBefore length start stop) :=
  inferInstanceAs (Decidable (_ ∧ _))

theorem range_filter_interval {length low count : Nat} (inside : low + count ≤ length)
    {keeps : Nat → Bool} (kept : ∀ position < length, keeps position = true ↔
      low ≤ position ∧ position < low + count) :
    (range length).filter keeps = (range count).map fun step => low + step := by
  obtain ⟨behind, rfl⟩ := Nat.exists_eq_add_of_le inside
  have before : (range low).filter keeps = [] := by
    refine filter_eq_nil_iff.mpr fun position member => ?_
    have bound := mem_range.mp member
    rw [kept position (by omega)]
    omega
  have middle : ((range count).map (low + ·)).filter keeps =
      (range count).map (low + ·) := by
    refine filter_eq_self.mpr fun position member => ?_
    obtain ⟨step, bound, rfl⟩ := mem_map.mp member
    have bound := mem_range.mp bound
    rw [kept _ (by omega)]
    omega
  have after : ((range behind).map (low + count + ·)).filter keeps = [] := by
    refine filter_eq_nil_iff.mpr fun position member => ?_
    obtain ⟨step, bound, rfl⟩ := mem_map.mp member
    have bound := mem_range.mp bound
    rw [kept _ (by omega)]
    omega
  rw [range_add, range_add, filter_append, filter_append, before, middle,
    after, nil_append, append_nil]

variable {length : Nat} {start stop : Int}

theorem rangePositions_cases (length : Nat) (start stop : Int) :
    rangePositions length start stop =
      if (length : Int) ≤ max 0 (indexPosition length start) ∨
          max 0 (indexPosition length stop) < max 0 (indexPosition length start) then []
      else
        (range (min ((length : Int) - 1) (max 0 (indexPosition length stop)) -
          max 0 (indexPosition length start) + 1).toNat).map
            fun step => (max 0 (indexPosition length start)).toNat + step := by
  have bound : ∀ last : Int, (if (length : Int) ≤ last then (length : Int) - 1 else last) =
      min ((length : Int) - 1) last := by
    intro last
    split <;> omega
  rw [← bound]
  rfl

theorem rangePositions_inside (length : Nat) (start stop : Int) :
    ∀ position ∈ rangePositions length start stop, position < length := by
  intro position member
  rw [rangePositions_cases] at member
  split at member
  · cases member
  · obtain ⟨step, bound, rfl⟩ := mem_map.mp member
    have bound := mem_range.mp bound
    omega

theorem rangePositions_eq (apart : ¬ EndsBefore length start stop) :
    rangePositions length start stop =
      (range length).filter (between length start stop) := by
  rw [rangePositions_cases]
  split
  · rename_i empty
    symm
    refine filter_eq_nil_iff.mpr fun position member => ?_
    have bound := mem_range.mp member
    rw [between, decide_eq_true_eq]
    omega
  · rename_i full
    have stops : 0 ≤ indexPosition length stop := by
      by_contra negative
      refine apart ⟨by omega, ?_, by omega⟩
      unfold indexPosition at negative
      split at negative <;> omega
    refine (range_filter_interval ?_ fun position bound => ?_).symm
    · omega
    · rw [between, decide_eq_true_eq]
      omega

theorem rangePositions_endsBefore (ends : EndsBefore length start stop) :
    rangePositions length start stop = [0] ∧
      (range length).filter (between length start stop) = [] := by
  obtain ⟨given, low, begins⟩ := ends
  have last : indexPosition length stop = length + stop := if_pos (by omega)
  constructor
  · have first : max 0 (indexPosition length start) = 0 := by omega
    have bound : max 0 (indexPosition length stop) = 0 := by omega
    have least : min ((length : Int) - 1) 0 = 0 := by omega
    rw [rangePositions_cases, first, bound, least, if_neg (by omega)]
    rfl
  · refine filter_eq_nil_iff.mpr fun position _ => ?_
    rw [between, decide_eq_true_eq]
    omega

theorem indexPosition_fits {index : Int} (short : length < 2 ^ 63)
    (fits : -(2 ^ 63) ≤ index ∧ index < 2 ^ 63) :
    -(2 ^ 63) ≤ indexPosition length index ∧ indexPosition length index < 2 ^ 63 := by
  unfold indexPosition
  split <;> omega

theorem rangeNumbers_fit (short : length < 2 ^ 63) (first : -(2 ^ 63) ≤ start ∧ start < 2 ^ 63)
    (last : -(2 ^ 63) ≤ stop ∧ stop < 2 ^ 63) :
    ∀ number ∈ rangeNumbers length start stop, -(2 ^ 63) ≤ number ∧ number < 2 ^ 63 := by
  have first := indexPosition_fits short first
  have last := indexPosition_fits short last
  intro number member
  unfold rangeNumbers at member
  dsimp only at member
  generalize indexPosition length start = start at first member
  generalize indexPosition length stop = stop at last member
  split at member
  · simp only [mem_cons, not_mem_nil, or_false] at member
    rcases member with rfl | rfl
    · exact first
    · exact last
  · rename_i full
    generalize bound : (if (length : Int) ≤ max 0 stop then (length : Int) - 1 else max 0 stop) =
      final at member
    have low : max 0 start ≤ final ∧ final < length := by
      rw [← bound]
      split <;> omega
    simp only [mem_cons, not_mem_nil, or_false] at member
    omega

theorem filterMap_inside {α : Type} {items : List α} {positions : List Nat} (fallback : α)
    (inside : ∀ position ∈ positions, position < items.length) :
    (positions.filterMap fun position => items[position]?) =
      positions.map fun position => items.getD position fallback := by
  induction positions with
  | nil => rfl
  | cons position positions ih =>
    have here := inside position (by simp)
    rw [filterMap_cons_some (getElem?_eq_getElem here), map_cons,
      ih fun other member => inside other (by simp [member]), getD_eq_getElem?_getD,
      getElem?_eq_getElem here, Option.getD_some]

/-- A range read visits positions of the list only, computes without overflow, and
returns the selected elements unless the range ends before the first of them. -/
structure RangeRead {α : Type} (items : List α) (start stop : Int) (result : List α) : Prop where
  selects : result = slice items start stop ↔ ¬ EndsBefore items.length start stop
  inside : ∀ position ∈ rangePositions items.length start stop, position < items.length
  fits : ∀ number ∈ rangeNumbers items.length start stop, -(2 ^ 63) ≤ number ∧ number < 2 ^ 63

theorem rangeRead {α : Type} {items : List α} (fallback : α) (short : items.length < 2 ^ 63)
    (first : -(2 ^ 63) ≤ start ∧ start < 2 ^ 63) (last : -(2 ^ 63) ≤ stop ∧ stop < 2 ^ 63) :
    RangeRead items start stop ((rangePositions items.length start stop).map fun position =>
      items.getD position fallback) where
  selects := by
    constructor
    · intro same ends
      obtain ⟨visited, selected⟩ := rangePositions_endsBefore ends
      rw [slice, visited, selected] at same
      cases same
    · intro apart
      rw [slice, ← rangePositions_eq apart]
      exact (filterMap_inside fallback (rangePositions_inside _ _ _)).symm
  inside := rangePositions_inside _ _ _
  fits := rangeNumbers_fit short first last

variable {store : Store} {now : Time} {key : Key}

theorem lrange_live {items : List Bytes} (live : store.liveValue now key = some (.list items)) :
    (store.lrange now key start stop).2 = (rangePositions items.length start stop).map
      fun position => items.getD position [] := by
  have found := getTyped_value store now key Value.list?
  rw [live] at found
  unfold lrange getList
  split
  · rename_i reading
    rw [reading] at found
    cases found
  · rename_i reading
    rw [reading] at found
    cases found
    rfl

/-- `LRANGE` and `ZRANGE`, for all ends that 64 bits hold. -/
theorem index_ranges_iff (store : Store) (now : Time) (key : Key)
    (first : -(2 ^ 63) ≤ start ∧ start < 2 ^ 63) (last : -(2 ^ 63) ≤ stop ∧ stop < 2 ^ 63) :
    (∀ items, store.liveValue now key = some (.list items) → items.length < 2 ^ 63 →
      RangeRead items start stop (store.lrange now key start stop).2) ∧
    ∀ set, store.liveValue now key = some (.zset set) → set.entries.length < 2 ^ 63 →
      RangeRead (set.entries.map Prod.snd) start stop (store.zrange now key start stop).2 := by
  constructor
  · intro items live short
    rw [lrange_live live]
    exact rangeRead [] short first last
  · intro set live short
    rw [zrange_live live start stop]
    exact rangeRead [] (by rwa [List.length_map]) first last

def threeItems : Store :=
  empty.put (ascii "l") ⟨.list [ascii "a", ascii "b", ascii "c"], none⟩

theorem threeItems_lastTwo :
    (threeItems.lrange 0 (ascii "l") (-2) (-1)).2 =
      slice [ascii "a", ascii "b", ascii "c"] (-2) (-1) :=
  ((index_ranges_iff threeItems 0 (ascii "l") (by decide) (by decide)).1
    [ascii "a", ascii "b", ascii "c"] rfl (by decide)).selects.mpr (by decide)

/-- The end lies before the list, and still its first element is returned. -/
theorem threeItems_beforeFirst :
    (threeItems.lrange 0 (ascii "l") 0 (-4)).2 = [ascii "a"] ∧
      slice [ascii "a", ascii "b", ascii "c"] 0 (-4) = [] := by
  decide +kernel

end Store

namespace StreamId

def le (left right : StreamId) : Bool := !lt right left

theorem le_iff (left right : StreamId) :
    le left right = true ↔ lt left right = true ∨ left = right := by
  rw [le, Bool.not_eq_true', Bool.eq_false_iff]
  constructor
  · intro above
    rcases lt_total left right with below | same | later
    · exact .inl below
    · exact .inr same
    · exact absurd later above
  · rintro (below | rfl) above
    · have cycle := lt_trans below above
      rw [lt_irrefl] at cycle
      cases cycle
    · rw [lt_irrefl] at above
      cases above

def IsMillis (text : Bytes) (millis : Nat) : Prop :=
  text ≠ [] ∧ text.all isDigit = true ∧ digitsValue text = millis ∧ millis < 2 ^ 63

inductive MeansStart : Bytes → StreamId → Prop
  | least : MeansStart (ascii "-") ⟨0, 0⟩
  | millis {text : Bytes} {millis : Nat} : IsMillis text millis → MeansStart text ⟨millis, 0⟩
  | full {text : Bytes} {id : StreamId} : parse text = some id → MeansStart text id

inductive MeansStop : Bytes → StreamId → Prop
  | greatest : MeansStop (ascii "+") ⟨int64Max, int64Max⟩
  | millis {text : Bytes} {millis : Nat} : IsMillis text millis →
      MeansStop text ⟨millis, int64Max⟩
  | full {text : Bytes} {id : StreamId} : parse text = some id → MeansStop text id

inductive MeansThreshold : Bytes → StreamId → Prop
  | millis {text : Bytes} {millis : Nat} : IsMillis text millis → MeansThreshold text ⟨millis, 0⟩
  | full {text : Bytes} {id : StreamId} : parse text = some id → MeansThreshold text id

theorem IsMillis.dash_not_mem (decimal : IsMillis text millis) :
    45 ∉ text := fun member =>
  absurd (all_eq_true.mp decimal.2.1 45 member) (by decide)

theorem IsMillis.parseInt64 (decimal : IsMillis text millis) :
    parseInt64 text = some (millis : Int) := by
  obtain ⟨given, digits, rfl, bound⟩ := decimal
  exact parseInt64_eq_some.mpr ⟨.positive given digits, by omega, by omega⟩

theorem dash_mem_of_parse (parsed : parse text = some id) : 45 ∈ text := by
  unfold parse at parsed
  split at parsed
  · cases parsed
  · rename_i dash found
    obtain ⟨bound, same, -⟩ := idxOf?_eq_some_iff.mp found
    exact mem_of_getElem same

theorem MeansStart.rangeStart (means : MeansStart text id) : Store.rangeStart text = id := by
  cases means with
  | least => decide
  | millis decimal =>
    have unsigned := decimal.dash_not_mem
    have other : text ≠ ascii "-" := by
      rintro rfl
      exact unsigned (by decide)
    rw [Store.rangeStart, if_neg other, if_pos unsigned, decimal.parseInt64, Option.getD_some]
  | full parsed =>
    have other : text ≠ ascii "-" := by
      rintro rfl
      cases parsed
    rw [Store.rangeStart, if_neg other, if_neg (not_not.mpr (dash_mem_of_parse parsed)), parsed,
      Option.getD_some]

theorem MeansStop.rangeEnd (means : MeansStop text id) : Store.rangeEnd text = id := by
  cases means with
  | greatest => decide
  | millis decimal =>
    have other : text ≠ ascii "+" := by
      rintro rfl
      exact absurd decimal.2.1 (by decide)
    rw [Store.rangeEnd, if_neg other, if_pos decimal.dash_not_mem, decimal.parseInt64,
      Option.getD_some]
  | full parsed =>
    have signed := dash_mem_of_parse parsed
    have other : text ≠ ascii "+" := by
      rintro rfl
      exact absurd signed (by decide)
    rw [Store.rangeEnd, if_neg other, if_neg (not_not.mpr signed), parsed, Option.getD_some]

theorem MeansThreshold.readThreshold (means : MeansThreshold text id) :
    Store.readThreshold text = id := by
  cases means with
  | millis decimal =>
    rw [Store.readThreshold, if_pos decimal.dash_not_mem, decimal.parseInt64, Option.getD_some]
  | full parsed =>
    rw [Store.readThreshold, if_neg (not_not.mpr (dash_mem_of_parse parsed)), parsed,
      Option.getD_some]

end StreamId

namespace Store

open StreamId (MeansStart MeansStop MeansThreshold)

variable {store : Store} {now : Time} {key : Key} {entries : List StreamEntry}

theorem bounds_cut (ascending : StreamAscending entries) (low high : StreamId) :
    (entries.drop (lowerBound entries low)).take
        (upperBound entries high - lowerBound entries low) =
      entries.filter fun entry => le low entry.parsedId &&
        le entry.parsedId high := by
  have lower : Falls (fun entry => lt entry.parsedId low) entries :=
    ascending.imp fun earlier below => lt_trans earlier below
  have upper := falls_upper ascending high
  have first : lowerBound entries low = _ := bisect_eq_countP lower
  have last : upperBound entries high = _ := bisect_eq_countP upper
  rw [first, last]
  exact lower.between upper

theorem xrange_streamAt (store : Store) (now : Time) (key : Key) (start stop : Bytes) :
    (store.xrange now key start stop).2 =
      ((store.streamAt now key).drop (lowerBound (store.streamAt now key) (rangeStart start))).take
        (upperBound (store.streamAt now key) (rangeEnd stop) -
          lowerBound (store.streamAt now key) (rangeStart start)) := by
  have value := getTyped_value store now key Value.stream?
  unfold xrange getStream
  unfold streamAt
  generalize store.getTyped Value.stream? now key = got at value
  obtain ⟨after, found⟩ := got
  dsimp only at value
  rw [← value]
  cases found with
  | none => simp
  | some entries => rfl

theorem xrange_between (ascending : StreamAscending (store.streamAt now key)) (start stop : Bytes) :
    (store.xrange now key start stop).2 = (store.streamAt now key).filter fun entry =>
      le (rangeStart start) entry.parsedId &&
        le entry.parsedId (rangeEnd stop) := by
  rw [xrange_streamAt, bounds_cut ascending]

/-- `XRANGE` and `XREAD` on a stream in order are filters, and both searches come to
their end inside the stream. -/
theorem stream_ranges_filter (live : store.liveValue now key = some (.stream entries))
    (ordered : StreamOrdered entries) :
    (∀ start stop low high, MeansStart start low → MeansStop stop high →
      (store.xrange now key start stop).2 = entries.filter fun entry =>
        StreamId.le low entry.parsedId && StreamId.le entry.parsedId high) ∧
    (∀ id threshold, MeansThreshold id threshold →
      (store.xread now key id).2 = entries.filter fun entry =>
        StreamId.lt threshold entry.parsedId) ∧
    ∀ target,
      Searches (fun entry => StreamId.lt entry.parsedId target) entries 0 entries.length
        (lowerBound entries target) ∧
      Searches (fun entry => !StreamId.lt target entry.parsedId) entries 0 entries.length
        (upperBound entries target) := by
  have same : store.streamAt now key = entries := by
    rw [streamAt, live]
    rfl
  refine ⟨fun start stop low high first last => ?_, fun id threshold means => ?_,
    fun target => ⟨?_, ?_⟩⟩
  · rw [xrange_between (same.symm ▸ ordered.ascending), same, first.rangeStart, last.rangeEnd]
  · rw [xread_behind (same.symm ▸ ordered.ascending), same, means.readThreshold]
  · exact bisect_searches (fun id => StreamId.lt id target) (Nat.le_refl _) (Nat.sub_le _ _)
  · exact bisect_searches (fun id => !StreamId.lt target id) (Nat.le_refl _) (Nat.sub_le _ _)

def twoEntries : List StreamEntry :=
  [⟨ascii "5-1", ⟨5, 1⟩, []⟩, ⟨ascii "7-0", ⟨7, 0⟩, []⟩]

theorem twoEntries_ordered : StreamOrdered twoEntries where
  ascending := by simp [twoEntries, lt]
  parses := by
    intro entry inside
    simp only [twoEntries, mem_cons, not_mem_nil, or_false] at inside
    rcases inside with rfl | rfl <;> decide

theorem twoEntries_ranges :
    ((empty.put (ascii "s") ⟨.stream twoEntries, none⟩).xrange 0 (ascii "s") (ascii "6")
        (ascii "+")).2 = [⟨ascii "7-0", ⟨7, 0⟩, []⟩] ∧
      ((empty.put (ascii "s") ⟨.stream twoEntries, none⟩).xread 0 (ascii "s") (ascii "5-1")).2 =
        [⟨ascii "7-0", ⟨7, 0⟩, []⟩] := by
  obtain ⟨ranges, reads, -⟩ := @stream_ranges_filter
    (empty.put (ascii "s") ⟨.stream twoEntries, none⟩) 0 (ascii "s") twoEntries rfl
    twoEntries_ordered
  have first : MeansStart (ascii "6") ⟨(6 : Nat), 0⟩ :=
    .millis ⟨by decide, by decide, by decide, by decide⟩
  have threshold : MeansThreshold (ascii "5-1") ⟨5, 1⟩ := .full (by decide)
  exact ⟨(ranges _ _ _ _ first .greatest).trans (by decide),
    (reads _ _ threshold).trans (by decide)⟩

end Store

end Credis
