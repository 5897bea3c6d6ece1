import Credis.EncoderCore
import Credis.RespChecks

/-! The two families of encoders agree as long as every count and size that they
print fits into the local buffer. -/

namespace Credis

open ByteString

variable {value : Int}

/-- The writer appends the text to whatever is there if it fits, and has no result otherwise. -/
structure Appends (write : Bytes → Option Bytes) (fits : Prop) (text : Bytes) : Prop where
  whole : fits → ∀ out, write out = some (out ++ text)
  broken : ¬ fits → ∀ out, write out = none

namespace Appends

theorem literal (text : Bytes) : Appends (fun out => some (out ++ text)) True text :=
  ⟨fun _ _ => rfl, fun wrong => absurd trivial wrong⟩

theorem next {first second : Bytes → Option Bytes} {fits later : Prop} {left right : Bytes}
    (one : Appends first fits left) (two : Appends second later right) :
    Appends (fun out => (first out).bind second) (fits ∧ later) (left ++ right) := by
  constructor
  · rintro ⟨fitting, ready⟩ out
    rw [one.whole fitting, Option.bind_some, two.whole ready, List.append_assoc]
  · intro wrong out
    by_cases fitting : fits
    · rw [one.whole fitting, Option.bind_some]
      exact two.broken (fun ready => wrong ⟨fitting, ready⟩) _
    · rw [one.broken fitting, Option.bind_none]

theorem each {α : Type} {step : Bytes → α → Option Bytes} {fits : α → Prop} {text : α → Bytes}
    (one : ∀ item, Appends (step · item) (fits item) (text item)) (items : List α) :
    Appends (fun out => items.foldlM step out) (∀ item ∈ items, fits item)
      (items.flatMap text) := by
  induction items with
  | nil => exact ⟨fun _ out => by simp, fun wrong => absurd (by simp) wrong⟩
  | cons item items ih =>
    have both := (one item).next ih
    simp only [List.forall_mem_cons, List.flatMap_cons]
    exact both

theorem congr {write : Bytes → Option Bytes} {fits other : Prop} {text same : Bytes}
    (appends : Appends write fits text) (iff : other ↔ fits) (equal : same = text) :
    Appends write other same := by
  subst equal
  exact ⟨fun ready => appends.whole (iff.mp ready), fun wrong =>
    appends.broken fun fitting => wrong (iff.mpr fitting)⟩

end Appends

theorem toChars_natText (value : Nat) :
    toChars 11 (natText value) = if value < 10 ^ 11 then some (natText value) else none := by
  have fits : (natText value).length ≤ 11 ↔ value < 10 ^ 11 := by
    rw [natText, List.length_map]
    exact Nat.length_toDigits_le_iff (by decide) (by decide)
  simp only [toChars, fits]

theorem natText_digit {value : Nat} (small : value < 10) :
    natText value = [UInt8.ofNat (48 + value)] := by
  have every : ∀ digit : Fin 10, natText digit = [UInt8.ofNat (48 + digit)] := by decide
  exact every ⟨value, small⟩

theorem appendDigit_appends (value : Nat) :
    Appends (appendDigit · value) (value < 10 ^ 11) (natText value) := by
  constructor
  · intro fits out
    by_cases small : value < 10
    · rw [appendDigit, if_pos small, natText_digit small]
    · rw [appendDigit, if_neg small, toChars_natText, if_pos fits, Option.map_some]
  · intro wrong out
    rw [appendDigit, if_neg (by omega), toChars_natText, if_neg wrong, Option.map_none]

theorem encodeBulkStringInto_appends (text : Bytes) :
    Appends (encodeBulkStringInto · text) (text.length < 10 ^ 11) (encodeBulkString text) :=
  (((Appends.literal [36]).next (appendDigit_appends text.length)).next
    (.literal (crlf ++ text ++ crlf))).congr (by simp) (by simp [encodeBulkString])

theorem appendHeader_appends (count : Nat) :
    Appends (appendHeader · count) (count < 10 ^ 11) (arrayHeader count) :=
  (((Appends.literal [42]).next (appendDigit_appends count)).next (.literal crlf)).congr
    (by simp) (by simp [arrayHeader])

theorem intText_length (lower : -(2 ^ 63) ≤ value) (upper : value < 2 ^ 63) :
    (intText value).length ≤ 21 := by
  cases value with
  | ofNat value =>
    rw [Int.ofNat_eq_natCast] at upper
    have short := @natText_length value 19 (by decide) (by omega)
    exact Nat.le_trans short (by decide)
  | negSucc value =>
    have short := @natText_length (value + 1) 19 (by decide) (by omega)
    rw [intText, List.length_cons]
    omega

theorem appendInteger_appends (lower : -(2 ^ 63) ≤ value) (upper : value < 2 ^ 63) :
    Appends (appendInteger · value) True (intText value) := by
  refine ⟨fun _ out => ?_, fun wrong => absurd trivial wrong⟩
  unfold appendInteger
  split
  · rename_i small
    obtain ⟨digit, rfl⟩ := Int.eq_ofNat_of_zero_le small.1
    rw [Int.toNat_natCast, ← natText_digit (by omega)]
    rfl
  · rw [toChars, if_pos (intText_length lower upper), Option.map_some]

theorem encodeIntegerInto_appends (lower : -(2 ^ 63) ≤ value) (upper : value < 2 ^ 63) :
    Appends (encodeIntegerInto · value) True (encodeInteger value) :=
  (((Appends.literal [58]).next (appendInteger_appends lower upper)).next (.literal crlf)).congr
    (by simp) (by simp [encodeInteger])

theorem encodeArrayInto_appends (elements : List Bytes) :
    Appends (encodeArrayInto · elements)
      (elements.length < 10 ^ 11 ∧ ∀ element ∈ elements, element.length < 10 ^ 11)
      (encodeArray elements) :=
  (appendHeader_appends elements.length).next (.each encodeBulkStringInto_appends elements)

theorem encodeArrayViews_eq {elements : List Bytes} (count : elements.length < 10 ^ 11)
    (sizes : ∀ element ∈ elements, element.length < 10 ^ 11) :
    encodeArrayViews elements = some (encodeArray elements) := by
  have one : ∀ element, Appends (encodeView · element) (element.length < 10 ^ 11)
      (encodeBulkString element) := by
    intro element
    constructor
    · intro fits out
      rw [encodeView, toChars_natText, if_pos fits]
      simp [encodeBulkString]
    · intro wrong out
      rw [encodeView, toChars_natText, if_neg wrong]
      rfl
  have content := (Appends.each one elements).whole sizes (arrayHeader elements.length)
  rw [encodeArrayViews, toChars_natText, if_pos count]
  exact content

theorem encodeRawArrayInto_appends (elements : List Bytes) :
    Appends (encodeRawArrayInto · elements) (elements.length < 10 ^ 11)
      (encodeRawArray elements) := by
  have joined : ∀ out, elements.foldl (· ++ ·) out = out ++ elements.flatten := by
    induction elements with
    | nil => simp
    | cons element elements ih => intro out; rw [List.foldl_cons, ih]; simp
  have content : Appends (fun out => some (elements.foldl (· ++ ·) out)) True elements.flatten := by
    simp only [joined]
    exact .literal _
  exact ((appendHeader_appends elements.length).next content).congr (by simp) rfl

theorem encodeFieldInto_appends (field : Bytes × Bytes) :
    Appends (encodeFieldInto · field) (field.1.length < 10 ^ 11 ∧ field.2.length < 10 ^ 11)
      (encodeBulkString field.1 ++ encodeBulkString field.2) :=
  (encodeBulkStringInto_appends field.1).next (encodeBulkStringInto_appends field.2)

structure StreamEntry.Bounded (entry : StreamEntry) : Prop where
  id : entry.id.length < 10 ^ 11
  count : entry.fields.length < 10 ^ 11
  fields : ∀ field ∈ entry.fields, field.1.length < 10 ^ 11 ∧ field.2.length < 10 ^ 11

/-- The count that is printed is that of the names and values together. -/
structure StreamEntry.Fits (entry : StreamEntry) : Prop extends entry.Bounded where
  printed : entry.fields.length * 2 < 10 ^ 11

theorem pair_header : ascii "*2" ++ crlf = arrayHeader 2 := by decide

theorem encodeEntryInto_appends (entry : StreamEntry) :
    Appends (encodeEntryInto · entry) entry.Fits (encodeEntry entry) :=
  ((Appends.literal (ascii "*2" ++ crlf)).next ((encodeBulkStringInto_appends entry.id).next
    ((appendHeader_appends (entry.fields.length * 2)).next
      (.each encodeFieldInto_appends entry.fields)))).congr
    ⟨fun fits => ⟨trivial, fits.id, fits.printed, fits.fields⟩,
      fun fits => ⟨⟨fits.2.1, by have := fits.2.2.1; omega, fits.2.2.2⟩, fits.2.2.1⟩⟩
    (by rw [pair_header, encodeEntry]; simp only [List.append_assoc])

theorem encodeEntriesInto_appends (entries : List StreamEntry) :
    Appends (encodeEntriesInto · entries)
      (entries.length < 10 ^ 11 ∧ ∀ entry ∈ entries, entry.Fits) (encodeEntries entries) :=
  (appendHeader_appends entries.length).next (.each encodeEntryInto_appends entries)

theorem encodeStreamInto_appends (stream : Key × List StreamEntry) :
    Appends (encodeStreamInto · stream)
      (stream.1.length < 10 ^ 11 ∧ stream.2.length < 10 ^ 11 ∧ ∀ entry ∈ stream.2, entry.Fits)
      (arrayHeader 2 ++ encodeBulkString stream.1 ++ encodeEntries stream.2) :=
  ((Appends.literal (ascii "*2" ++ crlf)).next ((encodeBulkStringInto_appends stream.1).next
    (encodeEntriesInto_appends stream.2))).congr (by simp)
    (by rw [pair_header, List.append_assoc])

theorem encodeStreamEntriesInto_appends (streams : List (Key × List StreamEntry)) :
    Appends (encodeStreamEntriesInto · streams)
      (streams.length < 10 ^ 11 ∧ ∀ stream ∈ streams, stream.1.length < 10 ^ 11 ∧
        stream.2.length < 10 ^ 11 ∧ ∀ entry ∈ stream.2, entry.Fits)
      (encodeStreamEntries streams) :=
  (appendHeader_appends streams.length).next (.each encodeStreamInto_appends streams)

namespace RespValue

def Bounded : RespValue → Prop
  | simpleString text => text.length < 10 ^ 11
  | bulkString text => text.length < 10 ^ 11
  | error text => text.length < 10 ^ 11
  | integer value => -(2 ^ 63) ≤ value ∧ value < 2 ^ 63
  | nullBulkString => True
  | nullArray => True
  | array elements => elements.length < 10 ^ 11 ∧ ∀ element ∈ elements, element.length < 10 ^ 11
  | arrayViews elements =>
    elements.length < 10 ^ 11 ∧ ∀ element ∈ elements, element.length < 10 ^ 11
  | rawArray elements => elements.length < 10 ^ 11 ∧ ∀ element ∈ elements, element.length < 10 ^ 11
  | entries items => items.length < 10 ^ 11 ∧ ∀ entry ∈ items, entry.Bounded
  | streamEntries streams =>
    streams.length < 10 ^ 11 ∧ ∀ stream ∈ streams, stream.1.length < 10 ^ 11 ∧
      stream.2.length < 10 ^ 11 ∧ ∀ entry ∈ stream.2, entry.Bounded

def streamItems : RespValue → List StreamEntry
  | entries items => items
  | streamEntries streams => streams.flatMap Prod.snd
  | _ => []

theorem encodeInto_appends (value : RespValue) (bounded : value.Bounded) :
    ∃ text, value.encode = some text ∧
      Appends (value.encodeInto ·)
        (∀ entry ∈ value.streamItems, entry.fields.length * 2 < 10 ^ 11) text := by
  cases value with
  | simpleString text => exact ⟨_, rfl, (Appends.literal _).congr (by simp [streamItems]) rfl⟩
  | bulkString text =>
    exact ⟨_, rfl, (encodeBulkStringInto_appends text).congr
      (iff_of_true (by simp [streamItems]) bounded) rfl⟩
  | error text => exact ⟨_, rfl, (Appends.literal _).congr (by simp [streamItems]) rfl⟩
  | integer value =>
    exact ⟨_, rfl, (encodeIntegerInto_appends bounded.1 bounded.2).congr
      (by simp [streamItems]) rfl⟩
  | nullBulkString => exact ⟨_, rfl, (Appends.literal _).congr (by simp [streamItems]) rfl⟩
  | nullArray => exact ⟨_, rfl, (Appends.literal _).congr (by simp [streamItems]) rfl⟩
  | array elements =>
    exact ⟨_, rfl, (encodeArrayInto_appends elements).congr
      (iff_of_true (by simp [streamItems]) bounded) rfl⟩
  | arrayViews elements =>
    exact ⟨_, encodeArrayViews_eq bounded.1 bounded.2, (encodeArrayInto_appends elements).congr
      (iff_of_true (by simp [streamItems]) bounded) rfl⟩
  | rawArray elements =>
    exact ⟨_, rfl, (encodeRawArrayInto_appends elements).congr
      (iff_of_true (by simp [streamItems]) bounded.1) rfl⟩
  | entries items =>
    obtain ⟨count, each⟩ := bounded
    refine ⟨_, rfl, (encodeEntriesInto_appends items).congr ⟨fun fit => ?_, fun fit => ?_⟩ rfl⟩
    · exact ⟨count, fun entry inside => ⟨each entry inside, fit entry inside⟩⟩
    · exact fun entry inside => (fit.2 entry inside).printed
  | streamEntries streams =>
    obtain ⟨count, each⟩ := bounded
    refine ⟨_, rfl,
      (encodeStreamEntriesInto_appends streams).congr ⟨fun fit => ?_, fun fit => ?_⟩ rfl⟩
    · refine ⟨count, fun stream inside => ?_⟩
      obtain ⟨key, length, content⟩ := each stream inside
      refine ⟨key, length, fun entry within => ⟨content entry within, ?_⟩⟩
      exact fit entry (List.mem_flatMap.mpr ⟨stream, inside, within⟩)
    · intro entry inside
      obtain ⟨stream, inside, within⟩ := List.mem_flatMap.mp inside
      exact ((fit.2 stream inside).2.2 entry within).printed

/-- The appending encoder appends what the other one returns, for values with bounded counts
and sizes exactly when twice the number of fields of each stream entry is bounded as well. -/
theorem encodeInto_eq_iff (value : RespValue) (bounded : value.Bounded) :
    (∀ out, ∃ text, value.encode = some text ∧ value.encodeInto out = some (out ++ text)) ↔
      ∀ entry ∈ value.streamItems, entry.fields.length * 2 < 10 ^ 11 := by
  obtain ⟨text, encoded, appends⟩ := encodeInto_appends value bounded
  constructor
  · intro agree
    by_contra wrong
    obtain ⟨other, -, written⟩ := agree []
    rw [appends.broken wrong] at written
    cases written
  · exact fun fits out => ⟨text, encoded, appends.whole fits out⟩

theorem stream_encoders_agree :
    ∃ text,
      (streamEntries [(ascii "s", [⟨ascii "1-1", ⟨1, 1⟩, [(ascii "f", ascii "v")]⟩])]).encode =
        some text ∧
      (streamEntries [(ascii "s", [⟨ascii "1-1", ⟨1, 1⟩, [(ascii "f", ascii "v")]⟩])]).encodeInto
        (ascii "+OK") = some (ascii "+OK" ++ text) := by
  refine (encodeInto_eq_iff _ ?_).mpr (by simp [streamItems]) (ascii "+OK")
  refine ⟨by simp, ?_⟩
  simp only [List.mem_singleton, forall_eq]
  exact ⟨by decide, by decide, by decide, by decide, by simp [ascii]⟩

end RespValue

end Credis
