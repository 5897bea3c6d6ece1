import Mathlib.Data.List.Basic

/-! Two runs of a program that passes a state along, from related states. Nothing in this
file refers to the server. -/

namespace Relational

variable {σ τ ε α β γ δ : Type}

def Matches (related : σ → τ → Prop) (left : σ × α) (right : τ × α) : Prop :=
  left.2 = right.2 ∧ related left.1 right.1

theorem Matches.split {related : σ → τ → Prop} {left : σ × α} {right : τ × α}
    (same : Matches related left right) :
    ∃ one other result, left = (one, result) ∧ right = (other, result) ∧ related one other :=
  ⟨left.1, right.1, left.2, rfl, Prod.ext rfl same.1.symm, same.2⟩

/-- Both runs fail alike, with one of these failures, or their results are related. -/
inductive Alike (faulty : ε → Prop) (related : α → β → Prop) : Except ε α → Except ε β → Prop
  | fault {failure : ε} : faulty failure → Alike faulty related (.error failure) (.error failure)
  | ok {left : α} {right : β} : related left right → Alike faulty related (.ok left) (.ok right)

namespace Alike

variable {faulty : ε → Prop} {related : α → β → Prop} {left : Except ε α} {right : Except ε β}

theorem map {further : γ → δ → Prop} {f : α → γ} {g : β → δ}
    (alike : Alike faulty related left right)
    (kept : ∀ one other, related one other → further (f one) (g other)) :
    Alike faulty further (left.map f) (right.map g) := by
  cases alike with
  | fault failed => exact .fault failed
  | ok same => exact .ok (kept _ _ same)

theorem of_ok {one : α} {other : β}
    (alike : Alike faulty related (.ok one : Except ε α) (.ok other)) : related one other := by
  cases alike with
  | ok same => exact same

theorem of_error {failure : ε} (alike : Alike faulty related (.error failure : Except ε α) right) :
    faulty failure := by
  cases alike with
  | fault failed => exact failed

theorem exists_ok (alike : Alike faulty related left right) (safe : ∀ failure, ¬faulty failure) :
    ∃ one other, left = .ok one ∧ right = .ok other ∧ related one other := by
  cases alike with
  | fault failed => exact absurd failed (safe _)
  | ok same => exact ⟨_, _, rfl, rfl, same⟩

end Alike

end Relational
