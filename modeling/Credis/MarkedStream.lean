import Mathlib.Algebra.Order.Ring.Int
import Mathlib.Data.List.Basic

/-! Streams of messages of which some are markers. A reader that counts the bytes
of all messages overstates, at a marker, how much payload it has read. The
overstatement does no harm as long as no payload follows the second marker.
Nothing in this file refers to the server. -/

namespace MarkedStream

variable {α : Type} (marker : α → Bool) (size : α → Nat)

variable {stream : List α}

def bytes (stream : List α) : Nat := (stream.map size).sum

def payload (stream : List α) : List α := stream.filter fun message => !marker message

def markers (stream : List α) : Nat := stream.countP marker

/-- No payload behind the second marker. -/
def Settled (stream : List α) : Prop :=
  ∀ before after, stream = before ++ after → 2 ≤ markers marker before →
    payload marker after = []

variable {marker size}

theorem payload_append (first second : List α) :
    payload marker (first ++ second) = payload marker first ++ payload marker second := by
  simp [payload]

theorem payload_eq_self (plain : markers marker stream = 0) : payload marker stream = stream := by
  rw [markers, List.countP_eq_zero] at plain
  rw [payload, List.filter_eq_self]
  intro message member
  simpa using plain message member

theorem settled_nil : Settled marker ([] : List α) := by
  intro before after parts two
  obtain ⟨rfl, rfl⟩ := List.append_eq_nil_iff.mp parts.symm
  rfl

theorem Settled.append {more : List α} (settled : Settled marker stream)
    (allowed : payload marker more = [] ∨ markers marker (stream ++ more) ≤ 1) :
    Settled marker (stream ++ more) := by
  intro before after parts two
  rcases allowed with quiet | few
  · rcases List.append_eq_append_iff.mp parts with ⟨middle, rfl, rfl⟩ | ⟨middle, rfl, rfl⟩
    · rw [payload_append] at quiet
      exact (List.append_eq_nil_iff.mp quiet).2
    · rw [payload_append, quiet, settled before middle rfl two, List.append_nil]
  · have fewer : markers marker before ≤ markers marker (stream ++ more) := by
      rw [parts, markers, markers, List.countP_append]
      exact Nat.le_add_right _ _
    omega

/-- What has been counted at a marker, cut at the payload there is, has been read
as payload. -/
theorem Settled.counted {before after : List α} {message : α} (settled : Settled marker stream)
    (size : α → Nat) (parts : stream = before ++ message :: after) (marked : marker message = true)
    {count : Nat} (counted : count ≤ bytes size before)
    (present : count ≤ bytes size (payload marker stream)) :
    count ≤ bytes size (payload marker before) := by
  by_cases plain : markers marker before = 0
  · rwa [payload_eq_self plain]
  have second : 2 ≤ markers marker (before ++ [message]) := by
    simp only [markers, List.countP_append, List.countP_singleton, marked, if_true] at plain ⊢
    omega
  have nothing := settled (before ++ [message]) after (by simp [parts]) second
  have own : payload marker [message] = [] := by simp [payload, marked]
  rw [parts, payload_append, ← List.singleton_append, payload_append, nothing, own,
    List.append_nil, List.append_nil] at present
  exact present

end MarkedStream
