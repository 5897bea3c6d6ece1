import Credis.ReplyCore
import Credis.StreamChecks

/-! How replies begin and end. The server refuses a command with one of three
texts; no command that is found in the table replies with a text that begins like
one of these. A reply is one value, unless its text has a line end inside. -/

namespace Credis

open ByteString List

variable {args : List Bytes} {state : HandlerState} {outcome : Outcome}

variable {text left right : Bytes} {fd : Fd} {send : Bool}

variable {count : Nat} {key : Key} {manager : Option BlockingManager} {reply : Bytes}

theorem readLine_crlf (safe : lineSafe text = true) (rest : Bytes) :
    readLine (text ++ (crlf ++ rest)) = some (text, rest) := by
  fun_induction lineSafe text with
  | case1 => rfl
  | case2 => cases safe
  | case3 byte others inner ih =>
    rw [cons_append, readLine, ih safe]
    · rfl
    · intro behind first second
      cases others with
      | nil => exact absurd second (by simp [crlf])
      | cons next others =>
        rw [cons_append, cons.injEq] at second
        exact inner others first (by rw [second.1])

theorem lineSafe_of_not_mem (absent : 13 ∉ text) : lineSafe text = true := by
  fun_induction lineSafe text with
  | case1 => rfl
  | case2 => exact absurd mem_cons_self absent
  | case3 byte others inner ih => exact ih fun member => absent (mem_cons_of_mem byte member)

theorem lineSafe_append (first : lineSafe left = true) (second : lineSafe right = true)
    (apart : left.getLast? ≠ some 13 ∨ right.head? ≠ some 10) :
    lineSafe (left ++ right) = true := by
  fun_induction lineSafe left with
  | case1 => exact second
  | case2 => cases first
  | case3 byte others inner ih =>
    rw [cons_append, lineSafe]
    · apply ih first
      cases others with
      | nil => exact .inl (by simp)
      | cons next others => rwa [getLast?_cons_cons] at apart
    · intro behind cr lf
      cases others with
      | nil =>
        rw [nil_append] at lf
        rcases apart with last | head
        · exact last (by rw [cr]; rfl)
        · exact head (by rw [lf]; rfl)
      | cons next others =>
        rw [cons_append, cons.injEq] at lf
        exact inner others cr (by rw [lf.1])

theorem toUpperByte_eq_iff (byte : UInt8) {fixed : UInt8} (low : fixed < 65) :
    toUpperByte byte = fixed ↔ byte = fixed := by
  unfold toUpperByte
  split
  · rename_i letter
    have lower : 97 ≤ byte.toNat := UInt8.le_iff_toNat_le.mp letter.1
    have small : fixed.toNat < 65 := UInt8.lt_iff_toNat_lt.mp low
    have moved : (byte - 32).toNat = byte.toNat - 32 :=
      UInt8.toNat_sub_of_le byte 32 (UInt8.le_iff_toNat_le.mpr (show 32 ≤ byte.toNat by omega))
    constructor
    · intro same
      rw [same] at moved
      omega
    · intro same
      rw [same] at lower
      omega
  · exact Iff.rfl

theorem lineSafe_toUpper (text : Bytes) : lineSafe (toUpper text) = lineSafe text := by
  fun_induction lineSafe text with
  | case1 => rfl
  | case2 => rfl
  | case3 byte others inner ih =>
    rw [toUpper, map_cons, lineSafe]
    · exact ih
    · intro behind cr lf
      cases others with
      | nil => cases lf
      | cons next others =>
        rw [map_cons, cons.injEq] at lf
        rw [toUpperByte_eq_iff _ (by decide)] at cr
        rw [toUpperByte_eq_iff _ (by decide)] at lf
        exact inner others cr (by rw [lf.1])

theorem readLine_unsafe (broken : lineSafe text = false) (rest : Bytes) :
    ∃ line left, readLine (text ++ rest) = some (line, left ++ rest) := by
  fun_induction lineSafe text with
  | case1 => cases broken
  | case2 left => exact ⟨[], left, rfl⟩
  | case3 byte others inner ih =>
    obtain ⟨line, left, read⟩ := ih broken
    refine ⟨byte :: line, left, ?_⟩
    rw [cons_append, readLine, read]
    · rfl
    · intro behind cr lf
      cases others with
      | nil => cases broken
      | cons next others =>
        rw [cons_append, cons.injEq] at lf
        exact inner others cr (by rw [lf.1])

theorem lineSafe_of_append (safe : lineSafe (left ++ right) = true) :
    lineSafe left = true ∧ lineSafe right = true := by
  fun_induction lineSafe left with
  | case1 => exact ⟨rfl, safe⟩
  | case2 => cases safe
  | case3 byte others inner ih =>
    have behind : lineSafe (others ++ right) = true := by
      rw [cons_append] at safe
      unfold lineSafe at safe
      split at safe
      · rename_i same
        cases same
      · cases safe
      · rename_i same
        cases same
        exact safe
    exact ih behind

theorem lineSafe_framed {first last : Bytes} (before : lineSafe first = true)
    (behind : lineSafe last = true) (start : first.getLast? ≠ some 13) (stop : last.head? ≠ some 10)
    : lineSafe (first ++ text ++ last) = lineSafe text := by
  rw [Bool.eq_iff_iff]
  constructor
  · intro safe
    exact (lineSafe_of_append (lineSafe_of_append safe).1).2
  · intro safe
    rw [append_assoc]
    exact lineSafe_append before (lineSafe_append safe behind (.inr stop)) (.inl start)

/-- The text is this many values, whatever follows. -/
def Values (count : Nat) (text : Bytes) : Prop :=
  ∃ turns, turns ≤ text.length ∧ ∀ fuel others rest,
    readValues (turns + fuel) (count + others) (text ++ rest) = readValues fuel others rest

namespace Values

theorem nil : Values 0 [] := ⟨0, Nat.le_refl _, fun fuel others rest => by simp⟩

theorem append {first second : Nat} (before : Values first left) (behind : Values second right) :
    Values (first + second) (left ++ right) := by
  obtain ⟨early, short, reads⟩ := before
  obtain ⟨late, small, continues⟩ := behind
  refine ⟨early + late, by rw [length_append]; omega, ?_⟩
  intro fuel others rest
  rw [Nat.add_assoc, Nat.add_assoc, append_assoc, reads, continues]

theorem ofValue {elements : Nat} (filled : text ≠ [])
    (reads : ∀ rest, readValue (text ++ rest) = .some (elements, rest)) {tail : Bytes}
    (inner : Values elements tail) : Values 1 (text ++ tail) := by
  obtain ⟨turns, short, continues⟩ := inner
  have long := length_pos_iff.mpr filled
  refine ⟨turns + 1, by rw [length_append]; omega, ?_⟩
  intro fuel others rest
  rw [Nat.add_right_comm, Nat.add_comm 1 others, readValues, append_assoc, reads]
  exact continues fuel others rest

theorem ofLine (filled : text ≠ []) (reads : ∀ rest, readValue (text ++ rest) = .some (0, rest)) :
    Values 1 text := by
  have whole := ofValue filled reads nil
  rwa [append_nil] at whole

theorem isValues (values : Values count text) : isValues count text = true := by
  obtain ⟨turns, short, reads⟩ := values
  have whole := reads (text.length - turns) 0 []
  rw [Nat.add_sub_of_le short, append_nil, Nat.add_zero] at whole
  rw [Credis.isValues, whole]
  simp [readValues]

theorem flatMap {α : Type} {size : Nat} {encode : α → Bytes} {items : List α}
    (each : ∀ item ∈ items, Values size (encode item)) :
    Values (items.length * size) (items.flatMap encode) := by
  induction items with
  | nil =>
    rw [length_nil, Nat.zero_mul]
    exact nil
  | cons item items ih =>
    have here := each item mem_cons_self
    have there := ih fun other member => each other (mem_cons_of_mem item member)
    rw [length_cons, Nat.succ_mul, Nat.add_comm]
    exact here.append there

end Values

theorem not_mem_natText {byte : UInt8} (other : isDigit byte = false) (value : Nat) :
    byte ∉ natText value := by
  intro member
  rw [all_eq_true.mp (natText_digits value) byte member] at other
  cases other

theorem cr_not_mem_intText (value : Int) : 13 ∉ intText value := by
  cases value with
  | ofNat value => exact not_mem_natText (by decide) value
  | negSucc value =>
    have digits : 13 ∉ natText (value + 1) := not_mem_natText (by decide) (value + 1)
    simp [intText, digits]

theorem readNumber_intText (value : Int) (rest : Bytes) :
    readNumber (intText value ++ (crlf ++ rest)) = some (value, rest) := by
  rw [readNumber, readLine_crlf (lineSafe_of_not_mem (cr_not_mem_intText value))]
  dsimp only
  rw [parseInteger_intText]
  rfl

theorem values_encodeSimpleString (safe : lineSafe text = true) :
    Values 1 (encodeSimpleString text) := by
  apply Values.ofLine (by simp [encodeSimpleString])
  intro rest
  rw [encodeSimpleString, cons_append, cons_append, append_assoc, readValue,
    readLine_crlf safe]
  rfl

theorem values_encodeError (safe : lineSafe text = true) : Values 1 (encodeError text) := by
  apply Values.ofLine (by simp [encodeError])
  intro rest
  rw [encodeError, cons_append, cons_append, append_assoc, readValue,
    readLine_crlf safe]
  rfl

theorem values_encodeInteger (value : Int) : Values 1 (encodeInteger value) := by
  apply Values.ofLine (by simp [encodeInteger])
  intro rest
  rw [encodeInteger, cons_append, cons_append, append_assoc, readValue,
    readNumber_intText]
  rfl

theorem values_encodeBulkString (text : Bytes) : Values 1 (encodeBulkString text) := by
  apply Values.ofLine (by simp [encodeBulkString])
  intro rest
  have number := readNumber_intText (text.length : Int) (text ++ (crlf ++ rest))
  have layout : encodeBulkString text ++ rest =
      36 :: (intText (text.length : Int) ++ (crlf ++ (text ++ (crlf ++ rest)))) := by
    simp [encodeBulkString, intText]
  rw [layout, readValue, number]
  dsimp only
  rw [if_neg (by omega), if_neg (by omega), Int.toNat_natCast]
  simp [readPayload, crlf]

theorem values_array (inner : Values count text) : Values 1 (arrayHeader count ++ text) := by
  refine Values.ofValue (by simp [arrayHeader]) ?_ inner
  intro rest
  have number := readNumber_intText (count : Int) rest
  have layout : arrayHeader count ++ rest = 42 :: (intText (count : Int) ++ (crlf ++ rest)) := by
    simp [arrayHeader, intText]
  rw [layout, readValue, number]
  dsimp only
  rw [if_neg (by omega), if_neg (by omega), Int.toNat_natCast]

def unknownLead : Bytes := [45, 69, 82, 82, 32, 117, 110, 107, 110, 111, 119, 110, 32, 99]

def subscribedLead : Bytes := [45, 69, 82, 82, 32, 67]

def noauthLead : Bytes := [45, 78]

def Plain (reply : Bytes) : Prop :=
  Apart unknownLead reply ∧ Apart subscribedLead reply ∧ Apart noauthLead reply

instance (reply : Bytes) : Decidable (Plain reply) := inferInstanceAs (Decidable (_ ∧ _))

theorem Plain.append (plain : Plain reply) (rest : Bytes) : Plain (reply ++ rest) :=
  ⟨plain.1.append rest, plain.2.1.append rest, plain.2.2.append rest⟩

structure Proper (reply : Bytes) : Prop where
  plain : Plain reply
  value : Values 1 reply

@[simp] theorem proper_encodeInteger (value : Int) : Proper (encodeInteger value) :=
  ⟨(by decide : Plain [58]).append _, values_encodeInteger value⟩

@[simp] theorem proper_encodeBulkString (text : Bytes) : Proper (encodeBulkString text) :=
  ⟨(by decide : Plain [36]).append _, values_encodeBulkString text⟩

theorem proper_encodeSimpleString (safe : lineSafe text = true) :
    Proper (encodeSimpleString text) :=
  ⟨(by decide : Plain [43]).append _, values_encodeSimpleString safe⟩

theorem proper_array (inner : Values count text) : Proper (arrayHeader count ++ text) :=
  ⟨(by decide : Plain [42]).append _, values_array inner⟩

theorem values_bulkStrings (elements : List Bytes) :
    Values elements.length (elements.flatMap encodeBulkString) := by
  have each := @Values.flatMap _ 1 encodeBulkString elements fun text _ =>
    values_encodeBulkString text
  rwa [Nat.mul_one] at each

@[simp] theorem proper_encodeArray (elements : List Bytes) : Proper (encodeArray elements) :=
  proper_array (values_bulkStrings elements)

@[simp] theorem proper_emptyArray : Proper (arrayHeader 0) := proper_encodeArray []

theorem proper_encodeRawArray {replies : List Bytes} (each : ∀ reply ∈ replies, Values 1 reply) :
    Proper (encodeRawArray replies) := by
  apply proper_array
  have whole := @Values.flatMap _ 1 id replies each
  rwa [Nat.mul_one, flatMap_id] at whole

theorem values_encodeEntry (entry : StreamEntry) : Values 1 (encodeEntry entry) := by
  have fields := @Values.flatMap _ 2
    (fun field : Bytes × Bytes => encodeBulkString field.1 ++ encodeBulkString field.2)
    entry.fields fun field _ =>
      (values_encodeBulkString field.1).append (values_encodeBulkString field.2)
  have pair := (values_encodeBulkString entry.id).append (values_array fields)
  rw [encodeEntry, append_assoc, append_assoc]
  exact values_array pair

theorem values_encodeEntries (entries : List StreamEntry) : Values 1 (encodeEntries entries) := by
  have each := @Values.flatMap _ 1 encodeEntry entries fun entry _ => values_encodeEntry entry
  rw [Nat.mul_one] at each
  exact values_array each

@[simp] theorem proper_encodeEntries (entries : List StreamEntry) :
    Proper (encodeEntries entries) :=
  ⟨(by decide : Plain [42]).append _, values_encodeEntries entries⟩

@[simp] theorem proper_encodeStreamEntries (streams : List (Key × List StreamEntry)) :
    Proper (encodeStreamEntries streams) := by
  have each := @Values.flatMap _ 1
    (fun stream : Key × List StreamEntry =>
      arrayHeader 2 ++ encodeBulkString stream.1 ++ encodeEntries stream.2) streams
      fun stream _ => by
        rw [append_assoc]
        exact values_array
          ((values_encodeBulkString stream.1).append (values_encodeEntries stream.2))
  rw [Nat.mul_one] at each
  exact proper_array each

theorem values_encodeNullBulkString : Values 1 encodeNullBulkString := by
  apply Values.ofLine (by decide)
  intro rest
  rfl

theorem values_encodeNullArray : Values 1 encodeNullArray := by
  apply Values.ofLine (by decide)
  intro rest
  rfl

@[simp] theorem proper_encodeNullBulkString : Proper encodeNullBulkString :=
  ⟨by decide, values_encodeNullBulkString⟩

@[simp] theorem proper_encodeNullArray : Proper encodeNullArray :=
  ⟨by decide, values_encodeNullArray⟩

@[simp] theorem proper_optionalBulkString (text : Option Bytes) :
    Proper (optionalBulkString text) := by
  cases text with
  | none => exact proper_encodeNullBulkString
  | some text => exact proper_encodeBulkString text

@[simp] theorem proper_respOk : Proper respOk := proper_encodeSimpleString (by decide)

theorem proper_errorReply {text : String} {letters : List Char}
    (spelled : text = String.ofList letters)
    (checked : Plain (45 :: asciiBytes letters) ∧ lineSafe (asciiBytes letters) = true) :
    Proper (errorReply text) := by
  have bytes := ascii_eq spelled
  constructor
  · rw [errorReply, encodeError, bytes]
    exact checked.1.append crlf
  · rw [errorReply, bytes]
    exact values_encodeError checked.2

@[simp] theorem proper_wrongTypeReply : Proper wrongTypeReply :=
  proper_errorReply rfl (by decide)

@[simp] theorem proper_notIntegerReply : Proper notIntegerReply :=
  proper_errorReply rfl (by decide)

@[simp] theorem proper_notFloatReply : Proper notFloatReply :=
  proper_errorReply rfl (by decide)

@[simp] theorem proper_syntaxReply : Proper syntaxReply := proper_errorReply rfl (by decide)

theorem cr_not_mem_formatFixed (places : Nat) (value : Float) :
    13 ∉ Double.formatFixed places value := by
  have sign : ∀ negative, 13 ∉ Double.signText negative := by decide
  have padded : ∀ width value, 13 ∉ Double.padLeft width (natText value) := by
    intro width value member
    rcases mem_append.mp member with zero | digit
    · exact absurd (mem_replicate.mp zero).2 (by decide)
    · exact not_mem_natText (by decide) value digit
  have pointed : ∀ whole fraction : Bytes, 13 ∉ whole → 13 ∉ fraction →
      13 ∉ Double.withPoint whole fraction := by
    intro whole fraction first second
    unfold Double.withPoint
    split
    · exact first
    · simp [first, second]
  unfold Double.formatFixed
  split
  · decide
  · rename_i negative _
    cases negative <;> decide
  · rename_i magnitude _
    dsimp only
    rw [mem_append, not_or]
    refine ⟨sign _, pointed _ _ ?_ ?_⟩
    · exact fun member => padded _ _ (mem_of_mem_take member)
    · exact fun member => padded _ _ (mem_of_mem_drop member)

theorem proper_coordinateError (longitude latitude : Float) :
    Proper (encodeError ((ascii "ERR invalid longitude,latitude pair " ++
      Double.formatFixed 6 longitude ++ ascii "," ++ Double.formatFixed 6 latitude).take 127)) := by
  constructor
  · rw [append_assoc, append_assoc, take_append, encodeError, ← cons_append,
      append_assoc]
    exact (by decide +kernel : Plain _).append _
  · apply values_encodeError
    apply lineSafe_of_not_mem
    intro member
    have inside := mem_of_mem_take member
    simp only [mem_append, cr_not_mem_formatFixed, or_false] at inside
    exact absurd inside (by decide)

section Keyspace

variable {store : Store} {now : Time} {args : List Bytes} {result : Store × Bytes}

theorem setOptions_proper {options : List Bytes} {ttlMs : Option Nat}
    (failed : setOptions options ttlMs = .error reply) : Proper reply := by
  fun_induction setOptions options ttlMs with
  | case1 => cases failed
  | case2 =>
    cases failed
    simp
  | case3 => cases failed
  | case4 =>
    cases failed
    simp
  | case5 _ _ _ _ _ _ _ ih => exact ih failed
  | case6 _ _ _ _ _ ih => exact ih failed

theorem handleSet_proper (done : handleSet store now args = .ok result) : Proper result.2 := by
  unfold handleSet at done
  split at done
  · split at done
    · rename_i failed
      cases done
      exact setOptions_proper failed
    · split at done <;> cases done <;> simp
  · cases done

theorem handleMset_proper (done : handleMset store now args = .ok result) : Proper result.2 := by
  unfold handleMset at done
  split at done
  · split at done
    · cases done
      exact proper_errorReply rfl (by decide)
    · split at done <;> cases done <;> simp
  · cases done

theorem handlePop_proper (pop : Store → Time → Key → Store × Option Bytes)
    (popCount : Store → Time → Key → Int → Store × List Bytes)
    (done : handlePop pop popCount store now args = .ok result) : Proper result.2 := by
  unfold handlePop at done
  split at done
  · cases done
    simp
  · split at done
    · cases done
      simp
    · split at done <;> cases done <;> simp
  · cases done

theorem zaddPairs_proper {pairs : List Bytes} {added : Int}
    (done : zaddPairs now key pairs store added = .ok result) : Proper result.2 := by
  fun_induction zaddPairs now key pairs store added with
  | case1 =>
    cases done
    simp
  | case2 =>
    cases done
    simp
  | case3 => cases done
  | case4 =>
    cases done
    simp
  | case5 _ _ _ _ _ _ _ _ _ _ ih => exact ih done

theorem handleZadd_proper (done : handleZadd store now args = .ok result) : Proper result.2 := by
  unfold handleZadd at done
  split at done
  · split at done
    · cases done
      simp
    · split at done
      · cases done
        simp
      · exact zaddPairs_proper done
  · cases done

theorem handleGeoadd_proper (done : handleGeoadd store now args = .ok result) :
    Proper result.2 := by
  unfold handleGeoadd at done
  split at done
  · split at done
    · split at done
      · split at done
        · cases done
          exact proper_coordinateError _ _
        · cases done
          simp
      · cases done
        simp
    · cases done
      simp
  · cases done

theorem geoposMembers_values (members : List Bytes) :
    Values members.length (geoposMembers now key members store).2 := by
  induction members generalizing store with
  | nil => exact Values.nil
  | cons member members ih =>
    have here : ∀ score, Values 1 (coordinatesReply score) := by
      intro score
      cases score with
      | none => exact values_encodeNullArray
      | some score =>
        simp only [coordinatesReply]
        rw [append_assoc]
        exact values_array
          ((values_encodeBulkString _).append (values_encodeBulkString _))
    rw [length_cons, Nat.add_comm]
    exact (here _).append ih

theorem handleGeopos_proper (done : handleGeopos store now args = .ok result) :
    Proper result.2 := by
  unfold handleGeopos at done
  split at done <;> cases done
  exact proper_array (geoposMembers_values _)

theorem handleGeodist_proper (done : handleGeodist store now args = .ok result) :
    Proper result.2 := by
  unfold handleGeodist at done
  split at done
  · dsimp only at done
    split at done <;> cases done <;> simp
  · cases done

theorem handleGeosearch_proper (done : handleGeosearch store now args = .ok result) :
    Proper result.2 := by
  unfold handleGeosearch at done
  split at done
  · split at done
    · cases done
      simp
    · split at done
      · split at done
        · cases done
          simp
        · split at done
          · cases done
            simp
          · split at done
            · cases done
              exact proper_errorReply rfl (by decide)
            · cases done
              simp
      · cases done
        simp
  · cases done

theorem handleType_proper (done : handleType store now args = .ok result) : Proper result.2 := by
  have safe : ∀ key, lineSafe (store.getType now key).2 = true := by
    intro key
    unfold Store.getType
    split
    · rfl
    · split <;> rfl
  unfold handleType at done
  split at done <;> cases done
  exact proper_encodeSimpleString (safe _)

end Keyspace

theorem handleXaddWithBlocking_proper {store : Store} {now : Instant} {result : BlockingOutcome}
    (done : handleXaddWithBlocking store manager now args = .ok result) : Proper result.reply := by
  obtain ⟨name, key, id, fields, rfl, ended⟩ := handleXaddWithBlocking_args done
  cases ended with
  | odd _ _ reply =>
    rw [reply]
    exact proper_errorReply rfl (by decide)
  | wrongType _ _ _ reply =>
    rw [reply]
    exact proper_errorReply rfl (by decide)
  | refused failure _ _ failed _ reply =>
    have known := Store.settleId_error failed
    simp only [mem_cons, not_mem_nil, or_false] at known
    rw [reply]
    rcases known with rfl | rfl | rfl
    all_goals exact proper_errorReply rfl (by decide)
  | added _ text _ _ _ _ reply =>
    rw [reply]
    exact proper_encodeBulkString text

theorem BlockingOutcome.Ends.proper {now : Time} {waits : Store → Key → StreamId → Int → Prop}
    {result : BlockingOutcome} (ends : result.Ends manager now fd waits)
    (through : result.blocked = false) : Proper result.reply := by
  cases ends with
  | refused failure =>
    simp only [blockingErrors, mem_cons, not_mem_nil, or_false] at failure
    rcases failure with rfl | rfl | rfl | rfl | rfl | rfl <;>
      exact proper_errorReply rfl (by decide)
  | popped texts => exact proper_encodeArray texts
  | read streams => exact proper_encodeStreamEntries streams
  | blocks => cases through

theorem onStore_proper {handled : Except Fault (Store × Bytes)}
    (done : state.onStore handled = .ok outcome)
    (proper : ∀ result, handled = .ok result → Proper result.2) : Proper outcome.reply := by
  obtain ⟨result, success, rfl⟩ := onStore_ok done
  exact proper result success

theorem onBlocking_proper {handled : Except Fault BlockingOutcome}
    (done : state.onBlocking send handled = .ok outcome) (normal : outcome.result = .normal)
    (proper : ∀ result, handled = .ok result → result.blocked = false → Proper result.reply) :
    Proper outcome.reply := by
  obtain ⟨result, success, -, rfl⟩ := onBlocking_ok done
  apply proper result success
  cases blocked : result.blocked with
  | false => rfl
  | true => simp [blocked] at normal

theorem handleConfigGet_proper (state : HandlerState) (parameter : Bytes) :
    Proper (handleConfigGet state parameter) := by
  have named : ∀ name value, Values 1 value → Proper (parameterReply name value) := by
    intro name value inner
    rw [parameterReply, append_assoc]
    exact proper_array ((values_encodeBulkString _).append inner)
  have files : ∀ name read, Proper (aofParameter state name read) :=
    fun name _ => named name _ (values_encodeBulkString _)
  unfold handleConfigGet
  dsimp only
  split
  · exact named _ _ (values_encodeBulkString _)
  split
  · apply named
    split
    · exact values_encodeNullBulkString
    · exact values_encodeBulkString _
  · split
    · exact files _ _
    · split
      · exact files _ _
      · split
        · exact files _ _
        · split
          · exact files _ _
          · exact proper_emptyArray

theorem handleConfigSet_proper (aof : Option AofManager) (dir parameter value : Bytes) :
    Proper (handleConfigSet aof dir parameter value).2 := by
  unfold handleConfigSet
  dsimp only
  split
  · split
    · exact proper_errorReply rfl (by decide)
    · split
      · exact proper_errorReply rfl (by decide)
      · exact proper_respOk
  · split
    · split
      · exact proper_errorReply rfl (by decide)
      · split
        · exact proper_errorReply rfl (by decide)
        · exact proper_respOk
    · exact proper_errorReply rfl (by decide)

theorem handleConfig_proper (done : handleConfig state args = .ok outcome) :
    Proper outcome.reply := by
  unfold handleConfig at done
  split at done
  · split at done
    · cases done
      exact handleConfigGet_proper state _
    · split at done
      · split at done
        · cases done
          exact proper_errorReply rfl (by decide)
        · cases done
          exact handleConfigSet_proper _ _ _ _
      · cases done
        exact proper_errorReply rfl (by decide)
  · cases done
    exact proper_errorReply rfl (by decide)

theorem handleAclGetuser_proper (manager : AclManager) (username : Bytes) :
    Proper (handleAclGetuser manager username) := by
  unfold handleAclGetuser
  split
  · exact proper_encodeNullArray
  · apply proper_encodeRawArray
    simp [values_encodeBulkString, (proper_encodeArray _).value]

theorem proper_aclHelpReply : Proper aclHelpReply := proper_errorReply rfl (by decide)

theorem handleAcl_proper (manager : AclManager) (args : List Bytes) :
    Proper (handleAcl manager args).2 := by
  unfold handleAcl
  split
  · split
    · exact proper_encodeBulkString _
    · split
      · split
        · exact proper_errorReply rfl (by decide)
        · exact handleAclGetuser_proper manager _
      · split
        · split
          · exact proper_errorReply rfl (by decide)
          · exact proper_respOk
        · exact proper_aclHelpReply
  · exact proper_aclHelpReply

theorem handleAuth_proper (manager : AclManager) (args : List Bytes) :
    Proper (handleAuth manager args).2 := by
  unfold handleAuth
  split
  · split
    · exact proper_respOk
    · exact proper_errorReply rfl (by decide)
  · exact proper_errorReply rfl (by decide)

theorem handleReplconf_proper (args : List Bytes) : Proper (handleReplconf args) := by
  unfold handleReplconf
  split
  · split
    · exact proper_encodeArray _
    · exact proper_respOk
  · exact proper_respOk

theorem handleWait_proper (normal : (handleWait args).1 = .normal) :
    Proper (handleWait args).2 := by
  unfold handleWait at normal ⊢
  split
  · split
    · rename_i first second
      simp only [first, second] at normal
      cases normal
    · exact proper_notIntegerReply
  · exact proper_errorReply rfl (by decide)

theorem handleBgrewriteaof_proper (aof : Option AofManager) (store : Store) (dir : Bytes)
    (forked : Bool) : Proper (handleBgrewriteaof aof store dir forked).2 := by
  unfold handleBgrewriteaof
  split
  · exact proper_errorReply rfl (by decide)
  split
  · exact proper_errorReply rfl (by decide)
  split
  · exact proper_errorReply rfl (by decide)
  · split
    · exact proper_errorReply rfl (by decide)
    · exact proper_encodeSimpleString (by decide +kernel)

theorem proper_subscriptionReply (kind : String) (channel : Bytes) (count : Nat) :
    Proper (subscriptionReply kind channel count) := by
  rw [subscriptionReply, append_assoc, append_assoc]
  exact proper_array ((values_encodeBulkString _).append
    ((values_encodeBulkString _).append (values_encodeInteger _)))

theorem handleSubscribe_proper {manager : Option PubSubManager}
    {result : Option PubSubManager × Bytes} (done : handleSubscribe manager fd args = .ok result) :
    Proper result.2 := by
  unfold handleSubscribe at done
  split at done
  · split at done <;> cases done <;> exact proper_subscriptionReply _ _ _
  · cases done
    exact proper_errorReply rfl (by decide)

theorem handleUnsubscribe_proper {manager : Option PubSubManager}
    {result : Option PubSubManager × Bytes} (done : handleUnsubscribe manager fd args = .ok result)
    : Proper result.2 := by
  unfold handleUnsubscribe at done
  split at done
  · split at done <;> cases done <;> exact proper_subscriptionReply _ _ _
  · cases done
    exact proper_errorReply rfl (by decide)

theorem handlePublish_proper (manager : Option PubSubManager) (send : Bool) (args : List Bytes) :
    Proper (handlePublish manager send args).2 := by
  unfold handlePublish
  split
  · split
    · exact proper_encodeInteger _
    · exact proper_encodeInteger _
  · exact proper_errorReply rfl (by decide)

theorem handlePing_proper (state : HandlerState) (fd : Fd) : Proper (handlePing state fd) := by
  unfold handlePing
  split
  · exact proper_encodeArray _
  · exact proper_encodeSimpleString (by decide)

theorem handler_proper {now : Instant} {forked : Bool} (command : Command)
    (handled : command.handler state now forked fd send args = .ok outcome)
    (normal : outcome.result = .normal) : Proper outcome.reply := by
  cases command with
  | set => exact onStore_proper handled fun _ => handleSet_proper
  | mset => exact onStore_proper handled fun _ => handleMset_proper
  | get | llen | zcard | zscore | zrem | xrange =>
    refine onStore_proper handled fun result done => ?_
    simp only [handleGet, handleLlen, handleZcard, handleZscore, handleZrem, handleXrange] at done
    split at done <;> cases done
    simp
  | incr | zrank | lrange | zrange =>
    refine onStore_proper handled fun result done => ?_
    simp only [handleIncr, handleZrank, handleLrange, handleZrange, handleRange] at done
    split at done
    · split at done <;> cases done <;> simp
    · cases done
  | rpush | lpush =>
    cases send with
    | true =>
      refine onBlocking_proper handled normal fun result done _ => ?_
      simp only [handleRpushWithBlocking, handleLpushWithBlocking, handlePushWithBlocking] at done
      split at done
      · split at done <;> cases done <;> simp
      · cases done
    | false =>
      refine onStore_proper handled fun result done => ?_
      simp only [handleRpush, handleLpush, handlePush] at done
      split at done
      · split at done <;> cases done <;> simp
      · cases done
  | lpop | rpop => exact onStore_proper handled fun _ => handlePop_proper _ _
  | blpop => exact onBlocking_proper handled normal fun _ done => (handleBlpop_ends done).proper
  | type => exact onStore_proper handled fun _ => handleType_proper
  | keys =>
    refine onStore_proper handled fun result succeeds => ?_
    cases succeeds
    exact proper_encodeArray _
  | xadd =>
    exact onBlocking_proper handled normal fun _ succeeds _ =>
      handleXaddWithBlocking_proper succeeds
  | zadd => exact onStore_proper handled fun _ => handleZadd_proper
  | geoadd => exact onStore_proper handled fun _ => handleGeoadd_proper
  | geopos => exact onStore_proper handled fun _ => handleGeopos_proper
  | geodist => exact onStore_proper handled fun _ => handleGeodist_proper
  | geosearch => exact onStore_proper handled fun _ => handleGeosearch_proper
  | xread =>
    simp only [Command.handler] at handled
    refine onBlocking_proper handled normal fun result succeeds through => ?_
    cases succeeds
    exact (handleXread_ends _ _ _ _ _).proper through
  | config => exact handleConfig_proper handled
  | echo =>
    simp only [Command.handler, handleEcho] at handled
    split at handled <;> cases handled
    exact proper_encodeBulkString _
  | subscribe =>
    simp only [Command.handler] at handled
    cases changed : handleSubscribe state.pubsubManager fd args with
    | error fault =>
      rw [changed] at handled
      cases handled
    | ok result =>
      rw [changed] at handled
      cases handled
      exact handleSubscribe_proper changed
  | unsubscribe =>
    simp only [Command.handler] at handled
    cases changed : handleUnsubscribe state.pubsubManager fd args with
    | error fault =>
      rw [changed] at handled
      cases handled
    | ok result =>
      rw [changed] at handled
      cases handled
      exact handleUnsubscribe_proper changed
  | ping =>
    cases handled
    exact handlePing_proper state fd
  | info =>
    cases handled
    exact proper_encodeBulkString _
  | bgrewriteaof =>
    cases handled
    exact handleBgrewriteaof_proper _ _ _ _
  | acl =>
    cases handled
    exact handleAcl_proper _ _
  | auth =>
    cases handled
    exact handleAuth_proper _ _
  | replconf =>
    cases handled
    exact handleReplconf_proper _
  | wait =>
    cases handled
    exact handleWait_proper normal
  | psync =>
    cases handled
    cases normal
  | publish =>
    cases handled
    exact handlePublish_proper _ _ _

theorem lineSafe_command (command : Command) : lineSafe command.name = true := by
  cases command <;> decide

theorem executeCommand_proper {cmd : Bytes}
    (done : executeCommand state fd send args cmd = .ok outcome)
    (normal : outcome.result = .normal) :
    (Command.lookup cmd = none ∧ outcome.reply = unknownReply cmd) ∨
      ((Command.lookup cmd).isSome = true ∧ Proper outcome.reply) := by
  unfold executeCommand at done
  split at done
  · rename_i unknown
    cases done
    exact .inl ⟨unknown, rfl⟩
  · rename_i command found
    refine .inr ⟨by rw [found]; rfl, ?_⟩
    split at done
    · cases done
      have name := lookup_name found
      have plain : Plain (ascii "-ERR wrong number of arguments for '") := by decide +kernel
      have whole := plain.append (cmd ++ (ascii "' command" ++ crlf))
      constructor
      · simpa [HandlerState.replied, arityReply, encodeError, ascii] using whole
      · apply values_encodeError
        rw [name]
        exact (lineSafe_framed (by decide +kernel) (by decide) (by decide +kernel)
          (by decide)).trans (lineSafe_command command)
    · exact handler_proper command done normal

end Credis
