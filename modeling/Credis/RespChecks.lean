import Mathlib.Data.List.TakeWhile
import Credis.RespCore

/-! The command parser against the encoder, and the framing of commands that
stand behind each other. -/

namespace Credis

open ByteString List

variable {cursor stop : Nat} {args : List Bytes}

variable {input : Bytes} {count : Nat} {value : Int}

theorem wrap32_small (value : Nat) (bound : value < 2 ^ 31) : wrap32 value = value := by
  simp only [wrap32, Int.bmod]
  omega

theorem byteAt_append_left (input rest : Bytes) (index : Nat) (bound : index < input.length) :
    byteAt (input ++ rest) index = byteAt input index := by
  simp [byteAt, getD_eq_getElem?_getD, getElem?_append_left bound]

theorem byteAt_append_right (before rest : Bytes) (index : Nat) :
    byteAt (before ++ rest) (before.length + index) = byteAt rest index := by
  rw [byteAt, byteAt, getD_eq_getElem?_getD, getD_eq_getElem?_getD,
    getElem?_append_right (Nat.le_add_right _ _), Nat.add_sub_cancel_left]

/-! What has to hold for a parse to succeed. -/

theorem parseIntUntilCrlf_iff :
    parseIntUntilCrlf input cursor = some (value, stop) ↔
      ∃ start scanned last, cursor < input.length ∧
        start = (if byteAt input cursor = 45 then cursor + 1 else cursor) ∧
        scanDigits (input.drop start) 0 start = (scanned, last) ∧
        last + 1 < input.length ∧ byteAt input last = 13 ∧ byteAt input (last + 1) = 10 ∧
        value = (if byteAt input cursor = 45 then wrap32 (-scanned) else scanned) ∧
        stop = last + 2 := by
  simp only [parseIntUntilCrlf, beq_iff_eq]
  constructor
  · intro parsed
    split at parsed
    · cases parsed
    rename_i inside
    generalize (if byteAt input cursor = 45 then cursor + 1 else cursor) = start at parsed ⊢
    split at parsed
    · cases parsed
    rename_i line
    simp only [not_or, Nat.not_le, not_not] at inside line
    simp only [Option.some.injEq, Prod.mk.injEq] at parsed
    exact ⟨start, _, _, inside, rfl, rfl, line.1, line.2.1, line.2.2, parsed.1.symm,
      parsed.2.symm⟩
  · rintro ⟨start, scanned, last, inside, rfl, scan, room, first, second, rfl, rfl⟩
    rw [if_neg (by omega), scan]
    have complete : ¬ (input.length ≤ last + 1 ∨ byteAt input last ≠ 13 ∨
        byteAt input (last + 1) ≠ 10) := by
      rintro (short | wrong | wrong)
      · omega
      · exact wrong first
      · exact wrong second
    simp only [if_neg complete]

theorem parseArgs_succ_iff :
    parseArgs input (count + 1) cursor = .ok (args, stop) ↔
      ∃ size start later, cursor < input.length ∧ byteAt input cursor = 36 ∧
        parseIntUntilCrlf input (cursor + 1) = some (((size : Nat) : Int), start) ∧
        start + size ≤ input.length ∧
        parseArgs input count (start + size + 2) = .ok (later, stop) ∧
        args = (input.drop start).take size :: later := by
  constructor
  · intro parsed
    unfold parseArgs at parsed
    split at parsed
    · cases parsed
    rename_i bulk
    simp only [not_or, Nat.not_le, not_not] at bulk
    split at parsed
    · cases parsed
    rename_i length start header
    split at parsed
    · cases parsed
    rename_i positive
    obtain ⟨size, rfl⟩ := Int.eq_ofNat_of_zero_le (Int.not_lt.mp positive)
    split at parsed
    · cases parsed
    rename_i complete
    split at parsed
    · cases parsed
    · rename_i later last rest
      cases parsed
      exact ⟨size, start, later, bulk.1, bulk.2, header, Nat.not_lt.mp complete, rest, rfl⟩
  · rintro ⟨size, start, later, inside, bulk, header, complete, rest, rfl⟩
    unfold parseArgs
    rw [if_neg (by simp [bulk]; omega), header]
    simp only [Int.toNat_natCast]
    rw [if_neg (by omega), if_neg (by omega), rest]

theorem parseCommand_iff :
    parseCommand input = .ok (args, stop) ↔
      ∃ count start, input ≠ [] ∧ byteAt input 0 = 42 ∧
        parseIntUntilCrlf input 1 = some (((count : Nat) : Int), start) ∧
        parseArgs input count start = .ok (args, stop) := by
  constructor
  · intro parsed
    unfold parseCommand at parsed
    split at parsed
    · cases parsed
    rename_i array
    simp only [not_or, not_not, length_eq_zero_iff] at array
    split at parsed
    · cases parsed
    rename_i length start header
    split at parsed
    · cases parsed
    · rename_i positive
      obtain ⟨count, rfl⟩ := Int.eq_ofNat_of_zero_le (Int.not_lt.mp positive)
      exact ⟨count, start, array.1, array.2, header, parsed⟩
  · rintro ⟨count, start, given, array, header, rest⟩
    unfold parseCommand
    rw [if_neg (by simp [given, array]), header]
    simp only [Int.toNat_natCast]
    rw [if_neg (by omega), rest]

/-! A parse that succeeds does not look behind its input. -/

/-- The digit loop takes the digits in front, whatever stands behind them. -/
theorem scanDigits_eq (input : Bytes) (value : Int) (cursor : Nat) :
    scanDigits input value cursor =
      ((input.takeWhile isDigit).foldl (fun total byte => wrap32 (total * 10 + digitValue byte))
        value, cursor + (input.takeWhile isDigit).length) := by
  induction input generalizing value cursor with
  | nil => rfl
  | cons byte input ih =>
    unfold scanDigits
    split
    · rename_i digit
      rw [ih, takeWhile_cons_of_pos digit, foldl_cons, length_cons, Nat.add_right_comm,
        Nat.add_assoc]
    · rename_i other
      rw [takeWhile_cons_of_neg other]
      rfl

theorem scanDigits_append (input rest : Bytes) (value : Int) (cursor : Nat)
    (stopped : (scanDigits input value cursor).2 < cursor + input.length) :
    scanDigits (input ++ rest) value cursor = scanDigits input value cursor := by
  rw [scanDigits_eq] at stopped
  rw [scanDigits_eq, scanDigits_eq, takeWhile_append, if_neg (by dsimp only at stopped; omega)]

theorem parseIntUntilCrlf_append (input rest : Bytes) (cursor : Nat) (parsed : Int × Nat)
    (success : parseIntUntilCrlf input cursor = some parsed) :
    parseIntUntilCrlf (input ++ rest) cursor = some parsed := by
  obtain ⟨value, stop⟩ := parsed
  rw [parseIntUntilCrlf_iff] at success ⊢
  obtain ⟨start, scanned, last, inside, first, scan, room, carriage, feed, rfl, rfl⟩ := success
  have begins : start ≤ input.length := by
    rw [first]
    split <;> omega
  have stopped : (scanDigits (input.drop start) 0 start).2 < start + (input.drop start).length := by
    rw [scan, length_drop]
    dsimp only
    omega
  refine ⟨start, scanned, last, ?_, ?_, ?_, ?_, ?_, ?_, ?_, rfl⟩
  · rw [length_append]
    omega
  · rw [byteAt_append_left input rest cursor inside, first]
  · rw [drop_append_of_le_length begins, scanDigits_append _ _ _ _ stopped, scan]
  · rw [length_append]
    omega
  · rw [byteAt_append_left _ _ _ (by omega), carriage]
  · rw [byteAt_append_left _ _ _ room, feed]
  · rw [byteAt_append_left input rest cursor inside]

theorem parseArgs_append (input rest : Bytes) (count cursor : Nat) (args : List Bytes)
    (stop : Nat) (success : parseArgs input count cursor = .ok (args, stop)) :
    parseArgs (input ++ rest) count cursor = .ok (args, stop) := by
  induction count generalizing cursor args stop with
  | zero => exact success
  | succ count ih =>
    rw [parseArgs_succ_iff] at success ⊢
    obtain ⟨size, start, later, inside, bulk, header, complete, parsed, rfl⟩ := success
    refine ⟨size, start, later, ?_, ?_, parseIntUntilCrlf_append _ _ _ _ header, ?_,
      ih _ _ _ parsed, ?_⟩
    · rw [length_append]
      omega
    · rw [byteAt_append_left _ _ _ inside, bulk]
    · rw [length_append]
      omega
    · rw [drop_append_of_le_length (by omega),
        take_append_of_le_length (by rw [length_drop]; omega)]

theorem parseCommand_append (input rest : Bytes) (args : List Bytes) (stop : Nat)
    (success : parseCommand input = .ok (args, stop)) :
    parseCommand (input ++ rest) = .ok (args, stop) := by
  rw [parseCommand_iff] at success ⊢
  obtain ⟨count, start, given, array, header, parsed⟩ := success
  refine ⟨count, start, by simp [given], ?_, parseIntUntilCrlf_append _ _ _ _ header,
    parseArgs_append _ _ _ _ _ _ parsed⟩
  rw [byteAt_append_left _ _ _ (length_pos_iff.mpr given), array]

/-! A command takes at least one byte. -/

theorem scanDigits_cursor (input : Bytes) (value : Int) (cursor : Nat) :
    cursor ≤ (scanDigits input value cursor).2 := by
  rw [scanDigits_eq]
  exact Nat.le_add_right _ _

theorem parseIntUntilCrlf_cursor (parsed : parseIntUntilCrlf input cursor = some (value, stop)) :
    cursor ≤ stop := by
  obtain ⟨start, scanned, last, -, first, scan, -, -, -, -, rfl⟩ := parseIntUntilCrlf_iff.mp parsed
  have ahead : cursor ≤ start := by
    rw [first]
    split <;> omega
  have further := scanDigits_cursor (input.drop start) 0 start
  rw [scan] at further
  dsimp only at further
  omega

theorem parseArgs_cursor (parsed : parseArgs input count cursor = .ok (args, stop)) :
    cursor ≤ stop := by
  induction count generalizing cursor args stop with
  | zero =>
    cases parsed
    exact Nat.le_refl _
  | succ count ih =>
    obtain ⟨size, start, later, -, -, header, -, rest, -⟩ := parseArgs_succ_iff.mp parsed
    have here := parseIntUntilCrlf_cursor header
    have there := ih rest
    omega

theorem parseCommand_consumes {length : Nat} (parsed : parseCommand input = .ok (args, length)) :
    input ≠ [] ∧ 0 < length := by
  obtain ⟨count, start, given, -, header, rest⟩ := parseCommand_iff.mp parsed
  have first := parseIntUntilCrlf_cursor header
  have last := parseArgs_cursor rest
  exact ⟨given, by omega⟩

/-! What the encoder writes, the parser reads. -/

theorem digits_grow (digits : Bytes) (total : Nat) :
    total ≤ digits.foldl (fun total byte => total * 10 + digitValue byte) total := by
  induction digits generalizing total with
  | nil => exact Nat.le_refl total
  | cons byte digits ih => exact Nat.le_trans (by omega) (ih (total * 10 + digitValue byte))

theorem takeWhile_digits {digits rest : Bytes} (decimal : digits.all isDigit = true)
    (ends : ∀ byte, rest.head? = some byte → isDigit byte = false) :
    (digits ++ rest).takeWhile isDigit = digits := by
  rw [takeWhile_append_of_pos (all_eq_true.mp decimal)]
  cases rest with
  | nil => simp
  | cons byte rest => simp [ends byte rfl]

theorem scanDigits_digits (digits rest : Bytes) (value cursor : Nat)
    (decimal : digits.all isDigit = true)
    (ends : ∀ byte, rest.head? = some byte → isDigit byte = false)
    (bound : digits.foldl (fun total byte => total * 10 + digitValue byte) value < 2 ^ 31) :
    scanDigits (digits ++ rest) value cursor =
      (((digits.foldl (fun total byte => total * 10 + digitValue byte) value : Nat) : Int),
        cursor + digits.length) := by
  rw [scanDigits_eq, takeWhile_digits decimal ends, Prod.mk.injEq]
  refine ⟨?_, rfl⟩
  clear decimal
  induction digits generalizing value with
  | nil => rfl
  | cons byte digits ih =>
    have small := Nat.lt_of_le_of_lt (digits_grow digits _) bound
    have precise := wrap32_small _ small
    push_cast at precise
    rw [foldl_cons, foldl_cons, precise]
    exact ih (value * 10 + digitValue byte) bound

theorem byteAt_natText_append (value : Nat) (rest : Bytes) :
    byteAt (natText value ++ rest) 0 ≠ 45 := by
  have decimal := natText_digits value
  have nonempty := natText_ne_nil value
  cases digits : natText value with
  | nil => exact absurd digits nonempty
  | cons byte more =>
    rw [digits, all_cons, Bool.and_eq_true] at decimal
    intro dash
    simp only [cons_append, byteAt, getD_cons_zero] at dash
    rw [dash] at decimal
    exact absurd decimal.1 (by decide)

theorem parseIntUntilCrlf_natText (before rest : Bytes) (value : Nat) (bound : value < 2 ^ 31) :
    parseIntUntilCrlf (before ++ (natText value ++ (crlf ++ rest))) before.length =
      some ((value : Int), before.length + (natText value).length + 2) := by
  have positive := byteAt_natText_append value (crlf ++ rest)
  have nonempty : 0 < (natText value).length :=
    length_pos_iff.mpr (natText_ne_nil value)
  have scanned : scanDigits (natText value ++ (crlf ++ rest)) ((0 : Nat) : Int) before.length =
      ((value : Int), before.length + (natText value).length) := by
    have digits := scanDigits_digits (natText value) (crlf ++ rest) 0 before.length
      (natText_digits value) (by simp [crlf, isDigit])
    rw [← digitsValue, natText_value] at digits
    exact digits bound
  have first : byteAt (before ++ (natText value ++ (crlf ++ rest)))
      (before.length + (natText value).length) = 13 := by
    rw [byteAt_append_right, ← Nat.add_zero (natText value).length, byteAt_append_right]
    rfl
  have second : byteAt (before ++ (natText value ++ (crlf ++ rest)))
      (before.length + (natText value).length + 1) = 10 := by
    rw [Nat.add_assoc, byteAt_append_right, byteAt_append_right]
    rfl
  have here := byteAt_append_right before (natText value ++ (crlf ++ rest)) 0
  rw [Nat.add_zero] at here
  unfold parseIntUntilCrlf
  rw [if_neg (by simp only [length_append]; omega), here]
  simp only [beq_eq_false_iff_ne.mpr positive, Bool.false_eq_true, if_false, drop_left]
  rw [show (0 : Int) = ((0 : Nat) : Int) from rfl, scanned]
  simp only [first, second]
  rw [if_neg (by simp [crlf]; omega)]

theorem parseArgs_encode (before rest : Bytes) (args : List Bytes)
    (sizes : ∀ arg ∈ args, arg.length < 2 ^ 31) :
    parseArgs (before ++ (args.flatMap encodeBulkString ++ rest)) args.length before.length =
      .ok (args, before.length + (args.flatMap encodeBulkString).length) := by
  induction args generalizing before with
  | nil => simp [parseArgs]
  | cons arg args ih =>
    have size := sizes arg (by simp)
    have header := parseIntUntilCrlf_natText (before ++ [36])
      (arg ++ (crlf ++ (args.flatMap encodeBulkString ++ rest))) arg.length size
    have layout : before ++ ((arg :: args).flatMap encodeBulkString ++ rest) =
        (before ++ [36]) ++ (natText arg.length ++ (crlf ++
          (arg ++ (crlf ++ (args.flatMap encodeBulkString ++ rest))))) := by
      simp [encodeBulkString]
    have behind : before ++ ((arg :: args).flatMap encodeBulkString ++ rest) =
        (before ++ encodeBulkString arg) ++ (args.flatMap encodeBulkString ++ rest) := by
      simp
    have payload : (before ++ ((arg :: args).flatMap encodeBulkString ++ rest)).drop
        (before.length + 1 + (natText arg.length).length + 2) =
        arg ++ (crlf ++ (args.flatMap encodeBulkString ++ rest)) := by
      have parts : before ++ ((arg :: args).flatMap encodeBulkString ++ rest) =
          (before ++ 36 :: (natText arg.length ++ crlf)) ++
            (arg ++ (crlf ++ (args.flatMap encodeBulkString ++ rest))) := by
        simp [encodeBulkString]
      rw [parts, drop_left']
      simp [crlf]
      omega
    have here : byteAt (before ++ ((arg :: args).flatMap encodeBulkString ++ rest))
        before.length = 36 := by
      have located := byteAt_append_right before
        ((arg :: args).flatMap encodeBulkString ++ rest) 0
      rw [Nat.add_zero] at located
      rw [located]
      simp [encodeBulkString, byteAt]
    rw [length_cons, parseArgs, here]
    rw [if_neg (by simp [encodeBulkString])]
    rw [length_append, length_singleton, ← layout] at header
    rw [header]
    dsimp only
    rw [if_neg (by omega), if_neg (by simp [encodeBulkString, crlf]; omega)]
    have later := ih (before ++ encodeBulkString arg)
      (fun other member => sizes other (mem_cons_of_mem _ member))
    rw [← behind] at later
    have cursor : before.length + 1 + (natText arg.length).length + 2 +
        (arg.length : Int).toNat + 2 =
        (before ++ encodeBulkString arg).length := by
      simp [encodeBulkString, crlf]
      omega
    rw [cursor, later]
    dsimp only
    rw [payload, Int.toNat_natCast, take_left]
    simp only [length_append, flatMap_cons, Nat.add_assoc]

theorem parseCommand_encodeArray (args : List Bytes) (rest : Bytes)
    (count : args.length < 2 ^ 31) (sizes : ∀ arg ∈ args, arg.length < 2 ^ 31) :
    parseCommand (encodeArray args ++ rest) = .ok (args, (encodeArray args).length) := by
  have layout : encodeArray args ++ rest =
      [42] ++ (natText args.length ++ (crlf ++ (args.flatMap encodeBulkString ++ rest))) := by
    simp [encodeArray, arrayHeader]
  have header := parseIntUntilCrlf_natText [42] (args.flatMap encodeBulkString ++ rest)
    args.length count
  have body := parseArgs_encode ([42] ++ (natText args.length ++ crlf)) rest args sizes
  have parts : ([42] ++ (natText args.length ++ crlf)) ++ (args.flatMap encodeBulkString ++ rest) =
      encodeArray args ++ rest := by
    simp [encodeArray, arrayHeader]
  have first : byteAt (encodeArray args ++ rest) 0 = 42 := by
    simp [encodeArray, arrayHeader, byteAt]
  rw [parseCommand, first, if_neg (by simp [encodeArray, arrayHeader])]
  rw [← layout, length_singleton] at header
  rw [header]
  dsimp only
  rw [if_neg (by omega)]
  rw [parts] at body
  have cursor : 1 + (natText args.length).length + 2 =
      ([42] ++ (natText args.length ++ crlf)).length := by
    simp [crlf]
    omega
  rw [Int.toNat_natCast, cursor, body]
  simp only [encodeArray, arrayHeader, length_append, length_cons, length_nil]
  congr 2
  omega

theorem natText_length {value digits : Nat} (positive : 0 < digits) (bound : value < 10 ^ digits) :
    (natText value).length ≤ digits := by
  rw [natText, length_map]
  exact (Nat.length_toDigits_le_iff (by decide) positive).mpr bound

theorem takeWhile_natText (value : Nat) : (natText value).takeWhile isDigit = natText value :=
  takeWhile_eq_self_iff.mpr (all_eq_true.mp (natText_digits value))

theorem parseNat_natText (value : Nat) : parseNat (natText value) = some value := by
  rw [parseNat, if_pos ⟨natText_ne_nil value, natText_digits value⟩, natText_value]

theorem parseInteger_natText (value : Nat) : parseInteger (natText value) = some (value : Int) := by
  have positive := byteAt_natText_append value []
  rw [append_nil] at positive
  unfold parseInteger
  split
  · rename_i digits minus
    rw [minus] at positive
    exact absurd rfl positive
  · rw [parseNat_natText]
    rfl

theorem parseInteger_intText (value : Int) : parseInteger (intText value) = some value := by
  cases value with
  | ofNat value => exact parseInteger_natText value
  | negSucc value =>
    rw [intText, parseInteger, parseNat_natText]
    rfl

theorem intText_injective : Function.Injective intText := by
  intro first second same
  have parsed := parseInteger_intText first
  rw [same, parseInteger_intText second] at parsed
  exact (Option.some.inj parsed).symm

theorem parseInt64_intText {value : Int} (low : -(2 ^ 63) ≤ value) (high : value < 2 ^ 63) :
    parseInt64 (intText value) = some value := by
  rw [parseInt64, parseInteger_intText, Option.filter_some, if_pos (decide_eq_true ⟨low, high⟩)]

end Credis
