import Mathlib.Data.List.Basic

/-! Bisection of a list that a test splits in two: the elements that pass it stand in
front. Nothing in this file refers to the server. -/

namespace Bisection

variable {α : Type} {test other : α → Bool} {items : List α}

variable {item : α}

def Falls (test : α → Bool) (items : List α) : Prop :=
  items.Pairwise fun left right => test right = true → test left = true

namespace Falls

theorem rest_fails (falls : Falls test (item :: items)) (failed : test item = false) :
    ∀ later ∈ items, test later = false := by
  intro later member
  rw [Bool.eq_false_iff]
  intro passed
  rw [(List.pairwise_cons.mp falls).1 later member passed] at failed
  cases failed

theorem between (first : Falls test items) (second : Falls other items) :
    (items.drop (items.countP test)).take (items.countP other - items.countP test) =
      items.filter fun item => !test item && other item := by
  induction items with
  | nil => simp
  | cons item items ih =>
    have tail := ih (List.pairwise_cons.mp first).2 (List.pairwise_cons.mp second).2
    cases passed : other item with
    | false =>
      have late := second.rest_fails passed
      have count : (item :: items).countP other = 0 := by
        rw [List.countP_cons_of_neg (by simp [passed])]
        exact List.countP_eq_zero.mpr fun later member => by simp [late later member]
      have nothing : ((item :: items).filter fun item => !test item && other item) = [] := by
        rw [List.filter_cons_of_neg (by simp [passed])]
        exact List.filter_eq_nil_iff.mpr fun later member => by simp [late later member]
      rw [count, nothing, Nat.zero_sub, List.take_zero]
    | true =>
      rw [List.countP_cons_of_pos passed]
      cases early : test item with
      | true =>
        rw [List.countP_cons_of_pos early, List.drop_succ_cons, Nat.add_sub_add_right,
          List.filter_cons_of_neg (by simp [early]), tail]
      | false =>
        have absent : items.countP test = 0 := List.countP_eq_zero.mpr fun later member => by
          simp [first.rest_fails early later member]
        rw [absent, List.drop_zero, Nat.sub_zero] at tail
        rw [List.countP_cons_of_neg (by simp [early]), absent, List.drop_zero, Nat.sub_zero,
          List.take_succ_cons, tail, List.filter_cons_of_pos (by simp [early, passed])]

theorem drop (falls : Falls test items) :
    items.drop (items.countP test) = items.filter fun item => !test item := by
  have every := falls.between (List.pairwise_of_forall fun _ _ _ => rfl :
    Falls (fun _ => true) items)
  have whole : items.countP (fun _ => true) = items.length := by simp
  rw [whole] at every
  rw [← List.length_drop, List.take_length] at every
  simpa using every

theorem passes_iff (falls : Falls test items) {index : Nat} (found : items[index]? = some item) :
    test item = true ↔ index < items.countP test := by
  induction items generalizing index with
  | nil => simp at found
  | cons first items ih =>
    cases passed : test first with
    | false =>
      have fails : test item = false := by
        cases index with
        | zero =>
          cases found
          exact passed
        | succ index =>
          exact falls.rest_fails passed item (List.mem_of_getElem? found)
      have count : (first :: items).countP test = 0 := by
        rw [List.countP_cons_of_neg (by simp [passed])]
        exact List.countP_eq_zero.mpr fun later member => by
          simp [falls.rest_fails passed later member]
      simp [fails, count]
    | true =>
      rw [List.countP_cons_of_pos passed]
      cases index with
      | zero =>
        cases found
        simp [passed]
      | succ index =>
        rw [ih (List.pairwise_cons.mp falls).2 found]
        omega

end Falls

/-- The loop that halves `[lo, hi)` comes to its end with this result, and every
element it looks at is there. -/
inductive Searches (test : α → Bool) (items : List α) : Nat → Nat → Nat → Prop
  | done {lo hi : Nat} : ¬ lo < hi → Searches test items lo hi lo
  | right {lo hi result : Nat} {item : α} : lo < hi →
      items[lo + (hi - lo) / 2]? = some item → test item = true →
      Searches test items (lo + (hi - lo) / 2 + 1) hi result → Searches test items lo hi result
  | left {lo hi result : Nat} {item : α} : lo < hi →
      items[lo + (hi - lo) / 2]? = some item → test item = false →
      Searches test items lo (lo + (hi - lo) / 2) result → Searches test items lo hi result

theorem Searches.result_eq {lo hi result : Nat} (searches : Searches test items lo hi result)
    (falls : Falls test items) (lower : lo ≤ items.countP test) (upper : items.countP test ≤ hi) :
    result = items.countP test := by
  induction searches with
  | done finished => omega
  | right _ found passed _ ih =>
    have early := (falls.passes_iff found).mp passed
    exact ih early upper
  | left _ found failed _ ih =>
    have late := mt (falls.passes_iff found).mpr (by simp [failed])
    exact ih lower (by omega)

end Bisection
