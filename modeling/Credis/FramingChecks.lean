import Credis.AofCore
import Credis.ChunkedStream
import Credis.RespChecks

/-! The framing of commands: what is encoded is read back in front of any rest, a
command that was read is read again when more bytes follow, and what an accepted
command says. -/

namespace Credis

open ByteString List

variable {args : List Bytes}

variable {consumed cursor stop : Nat} {value : Int}

variable {input rest begun tail left right digits : Bytes} {count : Nat}

/-- The counts that the parser holds in an `int`. -/
def Encodable (args : List Bytes) : Prop :=
  args.length < 2 ^ 31 ∧ ∀ arg ∈ args, arg.length < 2 ^ 31

instance (args : List Bytes) : Decidable (Encodable args) := inferInstanceAs (Decidable (_ ∧ _))

/-- The commands that a parser reads one behind the other, and what is left. Every
command takes at least one byte, so the length of the input bounds the turns. -/
def readCommands (parse : Bytes → Except Error (List Bytes × Nat)) :
    Nat → Bytes → List (List Bytes) × Bytes
  | 0, input => ([], input)
  | fuel + 1, input =>
    match parse input with
    | .error _ => ([], input)
    | .ok (args, length) =>
      let later := readCommands parse fuel (input.drop length)
      (args :: later.1, later.2)

theorem encodeRespCommand_eq (args : List Bytes) :
    AofManager.encodeRespCommand args = encodeArray args := by
  have each : (fun arg : Bytes => ascii "$" ++ natText arg.length ++ crlf ++ arg ++ crlf) =
      encodeBulkString := by
    funext arg
    simp [encodeBulkString, ascii]
  rw [AofManager.encodeRespCommand, each, encodeArray, arrayHeader]
  simp [ascii]

theorem parseOne_iff :
    parseOne input = .ok ⟨args, consumed⟩ ↔ parseOneInto input = .ok (args, consumed) := by
  unfold parseOne parseOneInto
  cases parseCommand input with
  | error failure => simp [Except.map]
  | ok parsed =>
    obtain ⟨others, length⟩ := parsed
    simp [Except.map]

theorem encodeArray_ne_nil (args : List Bytes) : encodeArray args ≠ [] := by
  simp [encodeArray, arrayHeader]

theorem encoded_ne_nil (commands : List (List Bytes)) :
    ∀ text ∈ commands.map encodeArray, text ≠ [] := by
  intro text member
  obtain ⟨args, -, rfl⟩ := mem_map.mp member
  exact encodeArray_ne_nil args

theorem readCommands_encodeArray {commands : List (List Bytes)} {fuel : Nat}
    (fits : ∀ args ∈ commands, Encodable args) (enough : commands.length ≤ fuel) :
    readCommands parseOneInto fuel (commands.flatMap encodeArray) = (commands, []) := by
  induction commands generalizing fuel with
  | nil => cases fuel <;> simp [readCommands, parseOneInto, parseCommand]
  | cons args commands ih =>
    obtain ⟨count, sizes⟩ := fits args mem_cons_self
    have read := parseCommand_encodeArray args (commands.flatMap encodeArray) count sizes
    cases fuel with
    | zero => simp at enough
    | succ fuel =>
      have later := @ih fuel (fun other member => fits other (mem_cons_of_mem _ member))
        (by simpa using enough)
      rw [flatMap_cons, readCommands, parseOneInto, read]
      simp only [drop_left, later]

theorem length_le_encoded (commands : List (List Bytes)) :
    commands.length ≤ (commands.flatMap encodeArray).length := by
  induction commands with
  | nil => exact Nat.le_refl _
  | cons args commands ih =>
    have positive : 0 < (encodeArray args).length := by simp [encodeArray, arrayHeader]
    rw [flatMap_cons, length_append, length_cons]
    omega

/-- Both encoders and both parsers agree on every command in front of any rest, and
so on any number of commands behind each other. -/
theorem resp_round_trip {commands : List (List Bytes)}
    (fits : ∀ args ∈ commands, Encodable args) (encode : List Bytes → Bytes)
    (encoder : encode = encodeArray ∨ encode = AofManager.encodeRespCommand) :
    (∀ args ∈ commands, ∀ rest,
      parseOne (encode args ++ rest) = .ok ⟨args, (encode args).length⟩ ∧
        parseOneInto (encode args ++ rest) = .ok (args, (encode args).length)) ∧
    readCommands parseOneInto (commands.flatMap encode).length (commands.flatMap encode) =
      (commands, []) ∧
    readCommands (fun input => (parseOne input).map fun parsed => (parsed.args, parsed.consumed))
      (commands.flatMap encode).length (commands.flatMap encode) = (commands, []) := by
  have same : encode = encodeArray := by
    rcases encoder with rfl | rfl
    · rfl
    · funext args
      exact encodeRespCommand_eq args
  have single : (fun input => (parseOne input).map fun parsed => (parsed.args, parsed.consumed)) =
      parseOneInto := by
    funext input
    unfold parseOne parseOneInto
    cases parseCommand input <;> rfl
  subst same
  rw [single]
  refine ⟨?_, ?_, ?_⟩
  · intro args member rest
    obtain ⟨count, sizes⟩ := fits args member
    have read := parseCommand_encodeArray args rest count sizes
    exact ⟨parseOne_iff.mpr read, read⟩
  · exact readCommands_encodeArray fits (length_le_encoded commands)
  · exact readCommands_encodeArray fits (length_le_encoded commands)

theorem resp_round_trip_of_protocol_bytes :
    readCommands parseOneInto
        ([[ascii "SET", ascii "*1", crlf ++ ascii "$3" ++ crlf], [[]]].flatMap
          AofManager.encodeRespCommand).length
        ([[ascii "SET", ascii "*1", crlf ++ ascii "$3" ++ crlf], [[]]].flatMap
          AofManager.encodeRespCommand) =
      ([[ascii "SET", ascii "*1", crlf ++ ascii "$3" ++ crlf], [[]]], []) :=
  (resp_round_trip (by decide) AofManager.encodeRespCommand (.inr rfl)).2.1

/-- A command that was read is read the same when more bytes follow, so only a
failure can change. -/
theorem parse_stable_under_growth {input : Bytes} {parsed : ParsedCommand}
    (accepted : parseOne input = .ok parsed) (rest : Bytes) :
    parseOne (input ++ rest) = .ok parsed := by
  obtain ⟨args, consumed⟩ := parsed
  rw [parseOne_iff] at accepted ⊢
  exact parseCommand_append input rest args consumed accepted

theorem unfinished_command_is_stable :
    parseOne (ascii "*1" ++ crlf ++ ascii "$4" ++ crlf ++ ascii "PING" ++ ascii "*1") =
      .ok ⟨[ascii "PING"], 14⟩ :=
  parse_stable_under_growth (by decide +kernel) (ascii "*1")

theorem scanDigits_shrink
    (stopped : (scanDigits (input ++ rest) value cursor).2 < cursor + input.length) :
    scanDigits input value cursor = scanDigits (input ++ rest) value cursor := by
  rw [scanDigits_eq, takeWhile_append] at stopped
  rw [scanDigits_eq, scanDigits_eq, takeWhile_append]
  split at stopped
  · simp only [List.length_append] at stopped
    omega
  · rename_i short
    rw [if_neg short]

theorem parseIntUntilCrlf_shrink
    (parsed : parseIntUntilCrlf (input ++ rest) cursor = some (value, stop))
    (inside : stop ≤ input.length) : parseIntUntilCrlf input cursor = some (value, stop) := by
  have ahead := parseIntUntilCrlf_cursor parsed
  rw [parseIntUntilCrlf_iff] at parsed ⊢
  obtain ⟨start, scanned, last, -, first, scan, -, line, feed, rfl, rfl⟩ := parsed
  have further := scanDigits_cursor ((input ++ rest).drop start) 0 start
  rw [scan] at further
  dsimp only at further
  have here : cursor < input.length := by
    split at first <;> omega
  rw [drop_append_of_le_length (by omega)] at scan
  rw [byteAt_append_left _ _ _ here] at first ⊢
  rw [byteAt_append_left _ _ _ (by omega)] at line feed
  refine ⟨start, scanned, last, here, first, ?_, by omega, line, feed, rfl, rfl⟩
  rw [scanDigits_shrink (by rw [scan, length_drop]; dsimp only; omega), scan]

theorem parseArgs_stop_le (parsed : parseArgs input count cursor = .ok (args, stop))
    (inside : cursor ≤ input.length + 2) : stop ≤ input.length + 2 := by
  induction count generalizing cursor args with
  | zero =>
    cases parsed
    exact inside
  | succ count ih =>
    obtain ⟨size, start, later, -, -, -, complete, rest, -⟩ := parseArgs_succ_iff.mp parsed
    exact ih rest (by omega)

theorem parseArgs_shrink (parsed : parseArgs (input ++ rest) count cursor = .ok (args, stop))
    (filled : args ≠ []) (inside : stop ≤ input.length + 2) :
    parseArgs input count cursor = .ok (args, stop) := by
  induction count generalizing cursor args with
  | zero =>
    cases parsed
    exact absurd rfl filled
  | succ count ih =>
    rw [parseArgs_succ_iff] at parsed ⊢
    obtain ⟨size, start, later, -, bulk, header, -, behind, rfl⟩ := parsed
    have first := parseIntUntilCrlf_cursor header
    have last := parseArgs_cursor behind
    refine ⟨size, start, later, by omega, ?_, parseIntUntilCrlf_shrink header (by omega),
      by omega, ?_, ?_⟩
    · rw [← bulk, byteAt_append_left _ _ _ (by omega)]
    · cases count with
      | zero => exact behind
      | succ count =>
        refine ih behind ?_
        obtain ⟨_, _, _, -, -, -, -, -, rfl⟩ := parseArgs_succ_iff.mp behind
        exact cons_ne_nil _ _
    · rw [drop_append_of_le_length (by omega),
        take_append_of_le_length (by rw [length_drop]; omega)]

theorem parseCommand_shrink (parsed : parseCommand (input ++ rest) = .ok (args, stop))
    (filled : args ≠ []) (inside : stop ≤ input.length + 2) :
    parseCommand input = .ok (args, stop) := by
  rw [parseCommand_iff] at parsed ⊢
  obtain ⟨count, start, -, array, header, behind⟩ := parsed
  cases count with
  | zero =>
    cases behind
    exact absurd rfl filled
  | succ count =>
    obtain ⟨size, next, _, -, -, number, -, last, -⟩ := parseArgs_succ_iff.mp behind
    have first := parseIntUntilCrlf_cursor header
    have second := parseIntUntilCrlf_cursor number
    have third := parseArgs_cursor last
    refine ⟨count + 1, start, ?_, ?_, parseIntUntilCrlf_shrink header (by omega),
      parseArgs_shrink behind filled inside⟩
    · rintro rfl
      simp only [length_nil] at inside
      omega
    · rw [← array, byteAt_append_left _ _ _ (by omega)]

theorem parseCommand_stop_le (parsed : parseCommand input = .ok (args, stop)) :
    stop ≤ input.length + 2 := by
  obtain ⟨count, start, -, -, header, behind⟩ := parseCommand_iff.mp parsed
  obtain ⟨_, _, last, -, -, -, room, -, -, -, rfl⟩ := parseIntUntilCrlf_iff.mp header
  exact parseArgs_stop_le behind (by omega)

theorem parseCommand_begun
    (whole : parseCommand (begun ++ tail) = .ok (args, (begun ++ tail).length)) (filled : args ≠ [])
    (short : tail.length ≤ 2) : parseCommand begun = .ok (args, begun.length + tail.length) := by
  rw [length_append] at whole
  exact parseCommand_shrink whole filled (by omega)

theorem parseCommand_waits
    (whole : parseCommand (begun ++ tail) = .ok (args, (begun ++ tail).length))
    (long : 2 < tail.length) (parsed : List Bytes × Nat) : parseCommand begun ≠ .ok parsed := by
  intro accepted
  have bound := parseCommand_stop_le accepted
  have grown := parseCommand_append begun tail _ _ accepted
  rw [whole, length_append] at grown
  simp only [Except.ok.injEq, Prod.mk.injEq] at grown
  omega

def IsCommand (text : Bytes) : Prop :=
  ∃ args, args ≠ [] ∧ parseCommand text = .ok (args, text.length)

theorem isCommand_encodeArray (named : args ≠ []) (fits : Encodable args) :
    IsCommand (encodeArray args) := by
  have read := parseCommand_encodeArray args [] fits.1 fits.2
  rw [append_nil] at read
  exact ⟨args, named, read⟩

open ChunkedStream in
theorem parse_waits {rest : List Bytes} (texts : ∀ text ∈ rest, IsCommand text)
    (begins : Begins begun rest)
    (cut : missing rest begun.length = 0 ∨ 2 < missing rest begun.length) :
    ∀ parsed, parseCommand begun ≠ .ok parsed := by
  by_cases vacant : begun = []
  · rw [vacant]
    simp [parseCommand]
  cases rest with
  | nil => exact absurd begins vacant
  | cons next rest =>
    obtain ⟨tail, more, rfl⟩ := begins
    rw [missing_begun vacant more] at cut
    have positive := length_pos_iff.mpr more
    obtain ⟨args, -, read⟩ := texts _ mem_cons_self
    exact parseCommand_waits read (by omega)

open ChunkedStream in
theorem parse_early {rest : List Bytes} (texts : ∀ text ∈ rest, IsCommand text)
    (begins : Begins begun rest) (positive : 0 < missing rest begun.length)
    (few : missing rest begun.length ≤ 2) :
    ∃ args consumed, parseCommand begun = .ok (args, consumed) ∧ begun.length < consumed := by
  have short : begun ≠ [] := by
    rintro rfl
    simp at positive
  cases rest with
  | nil => exact absurd begins short
  | cons next rest =>
    obtain ⟨tail, more, rfl⟩ := begins
    rw [missing_begun short more] at few
    have positive := length_pos_iff.mpr more
    obtain ⟨args, named, read⟩ := texts _ mem_cons_self
    exact ⟨args, _, parseCommand_begun read named few, by omega⟩

/-- A numeral without a sign. -/
def IsDecimal (digits : Bytes) (value : Nat) : Prop :=
  digits.all isDigit = true ∧ IsNumeral digits value

theorem isDecimal_iff {value : Nat} : IsDecimal digits value ↔
    digits ≠ [] ∧ digits.all isDigit = true ∧ digitsValue digits = value := by
  constructor
  · rintro ⟨decimal, numeral⟩
    generalize number : (value : Int) = read at numeral
    cases numeral with
    | positive given _ => exact ⟨given, decimal, Int.natCast_inj.mp number.symm⟩
    | negative _ _ => cases decimal
  · rintro ⟨given, decimal, rfl⟩
    exact ⟨decimal, .positive given decimal⟩

inductive DenotesArgs : Bytes → List Bytes → Prop
  | nil : DenotesArgs [] []
  | cons {digits arg text : Bytes} {args : List Bytes} : IsDecimal digits arg.length →
      DenotesArgs text args →
      DenotesArgs (36 :: (digits ++ (crlf ++ (arg ++ (crlf ++ text))))) (arg :: args)

def Denotes (text : Bytes) (args : List Bytes) : Prop :=
  ∃ digits body, IsDecimal digits args.length ∧ DenotesArgs body args ∧
    text = 42 :: (digits ++ (crlf ++ body))

def leadingDigits (input : Bytes) : Bytes := input.takeWhile isDigit

def plainNumber (input : Bytes) : Bool :=
  leadingDigits input ≠ [] && digitsValue (leadingDigits input) < 2 ^ 31

def behindNumber (input : Bytes) : Bytes := input.drop ((leadingDigits input).length + 2)

def plainArgs : Nat → Bytes → Bool
  | 0, _ => true
  | count + 1, input =>
    let size := digitsValue (leadingDigits (input.drop 1))
    let body := behindNumber (input.drop 1)
    plainNumber (input.drop 1) && (body.drop size).take 2 == crlf &&
      plainArgs count (body.drop (size + 2))

def plainCommand (input : Bytes) : Bool :=
  plainNumber (input.drop 1) &&
    plainArgs (digitsValue (leadingDigits (input.drop 1))) (behindNumber (input.drop 1))

theorem leadingDigits_append (decimal : digits.all isDigit = true)
    (ends : ∀ byte, rest.head? = some byte → isDigit byte = false) :
    leadingDigits (digits ++ rest) = digits :=
  takeWhile_digits decimal ends

theorem crlf_ends (rest : Bytes) :
    ∀ byte, (crlf ++ rest).head? = some byte → isDigit byte = false := by
  simp [crlf, isDigit]

theorem drop_eq_crlf {index : Nat} (room : index + 1 < input.length)
    (first : byteAt input index = 13) (second : byteAt input (index + 1) = 10) :
    input.drop index = crlf ++ input.drop (index + 2) := by
  have here : index < input.length := by omega
  simp only [byteAt, getD_eq_getElem?_getD, getElem?_eq_getElem here,
    Option.getD_some] at first
  simp only [byteAt, getD_eq_getElem?_getD, getElem?_eq_getElem room,
    Option.getD_some] at second
  rw [drop_eq_getElem_cons here, drop_eq_getElem_cons room, first, second]
  rfl

theorem byteAt_drop (input : Bytes) (cursor index : Nat) :
    byteAt (input.drop cursor) index = byteAt input (cursor + index) := by
  simp [byteAt, getD_eq_getElem?_getD]

theorem leadingDigits_split (input : Bytes) : ∃ rest, input = leadingDigits input ++ rest ∧
    (leadingDigits input).all isDigit = true ∧
      ∀ byte, rest.head? = some byte → isDigit byte = false := by
  refine ⟨input.dropWhile isDigit, takeWhile_append_dropWhile.symm, all_takeWhile,
    fun byte head => ?_⟩
  have absent := head?_dropWhile_not isDigit input
  simpa [head] using absent

theorem parseIntUntilCrlf_plain (plain : plainNumber (input.drop cursor) = true)
    (parsed : parseIntUntilCrlf input cursor = some (value, stop)) :
    value = digitsValue (leadingDigits (input.drop cursor)) ∧ stop ≤ input.length ∧
      behindNumber (input.drop cursor) = input.drop stop ∧
      input.drop cursor = leadingDigits (input.drop cursor) ++ (crlf ++ input.drop stop) := by
  rw [behindNumber, drop_drop]
  obtain ⟨rest, whole, decimal, ends⟩ := leadingDigits_split (input.drop cursor)
  simp only [plainNumber, ne_eq, decide_not, Bool.and_eq_true, Bool.not_eq_true',
    decide_eq_false_iff_not, decide_eq_true_eq] at plain
  generalize leadingDigits (input.drop cursor) = digits at plain whole decimal ⊢
  have scanned := scanDigits_digits digits rest 0 cursor decimal ends plain.2
  rw [← digitsValue, ← whole] at scanned
  have positive : byteAt input cursor ≠ 45 := by
    have here := byteAt_drop input cursor 0
    cases digits with
    | nil => exact absurd rfl plain.1
    | cons byte digits =>
      rw [all_cons, Bool.and_eq_true] at decimal
      rw [whole] at here
      simp only [cons_append, byteAt, getD_cons_zero, Nat.add_zero] at here
      rw [byteAt, ← here]
      rintro rfl
      exact absurd decimal.1 (by decide)
  obtain ⟨start, scan, last, -, first, read, room, line, feed, rfl, rfl⟩ :=
    parseIntUntilCrlf_iff.mp parsed
  rw [if_neg positive] at first ⊢
  subst first
  cases scanned.symm.trans read
  have behind := drop_eq_crlf room line feed
  rw [← drop_drop, whole, drop_left] at behind
  exact ⟨rfl, room, rfl, by rw [← behind, ← whole]⟩

theorem isDecimal_leadingDigits (plain : plainNumber input = true) :
    IsDecimal (leadingDigits input) (digitsValue (leadingDigits input)) := by
  simp only [plainNumber, ne_eq, decide_not, Bool.and_eq_true, Bool.not_eq_true',
    decide_eq_false_iff_not] at plain
  exact isDecimal_iff.mpr ⟨plain.1, all_takeWhile, rfl⟩

theorem plainNumber_append {digits rest : Bytes} {value : Nat} (numeral : IsDecimal digits value)
    (bound : value < 2 ^ 31) :
    leadingDigits (digits ++ (crlf ++ rest)) = digits ∧
      plainNumber (digits ++ (crlf ++ rest)) = true ∧
      behindNumber (digits ++ (crlf ++ rest)) = rest := by
  obtain ⟨given, decimal, rfl⟩ := isDecimal_iff.mp numeral
  have leading := leadingDigits_append decimal (crlf_ends rest)
  refine ⟨leading, ?_, ?_⟩
  · rw [plainNumber, leading]
    simp only [ne_eq, given, not_false_eq_true, decide_true, Bool.true_and, decide_eq_true_eq]
    exact bound
  · rw [behindNumber, leading, ← append_assoc]
    exact drop_left' (by simp [crlf])

theorem parseArgs_plain (plain : plainArgs count (input.drop cursor) = true)
    (inside : cursor ≤ input.length) (parsed : parseArgs input count cursor = .ok (args, stop)) :
    stop ≤ input.length ∧
      ∃ text, DenotesArgs text args ∧ input.drop cursor = text ++ input.drop stop := by
  induction count generalizing cursor args with
  | zero =>
    cases parsed
    exact ⟨inside, [], .nil, rfl⟩
  | succ count ih =>
    obtain ⟨size, start, later, room, bulk, header, complete, rest, rfl⟩ :=
      parseArgs_succ_iff.mp parsed
    simp only [plainArgs, Bool.and_eq_true, drop_drop, beq_iff_eq] at plain
    obtain ⟨⟨number, line⟩, others⟩ := plain
    obtain ⟨value, -, behind, layout⟩ := parseIntUntilCrlf_plain number header
    have numeral := isDecimal_leadingDigits number
    rw [← Int.natCast_inj.mp value] at line others numeral
    rw [behind, drop_drop] at line others
    rw [← Nat.add_assoc] at others
    have ended : start + size + 2 ≤ input.length := by
      have both := congrArg length line
      rw [length_take, length_drop, show crlf.length = 2 from rfl] at both
      omega
    obtain ⟨last, text, denotes, remaining⟩ := ih others ended rest
    have payload : ((input.drop start).take size).length = size := by
      rw [length_take, length_drop]
      omega
    refine ⟨last, _, .cons (by rwa [payload]) denotes, ?_⟩
    have marked : input.drop cursor = 36 :: input.drop (cursor + 1) := by
      rw [byteAt, getD_eq_getElem?_getD, getElem?_eq_getElem room,
        Option.getD_some] at bulk
      rw [drop_eq_getElem_cons room, bulk]
    have cut : input.drop start = (input.drop start).take size ++ input.drop (start + size) := by
      rw [← drop_drop, take_append_drop]
    have ending : input.drop (start + size) = crlf ++ input.drop (start + size + 2) := by
      rw [← line, ← @drop_drop _ 2 (start + size), take_append_drop]
    generalize leadingDigits (input.drop (cursor + 1)) = digits at layout ⊢
    generalize (input.drop start).take size = arg at cut ⊢
    rw [marked, layout, cut, ending, remaining]
    simp only [cons_append, append_assoc]

/-! An `int` holds less than `2 ^ 31`, so a numeral that says how much was read
did not wrap. -/

theorem wrap32_lt (value : Int) : wrap32 value < 2 ^ 31 := by
  have := @Int.bmod_lt value (2 ^ 32) (by decide)
  simpa [wrap32] using this

theorem scanDigits_lt (input : Bytes) (value : Int) (cursor : Nat) (bound : value < 2 ^ 31) :
    (scanDigits input value cursor).1 < 2 ^ 31 := by
  induction input generalizing value cursor with
  | nil => exact bound
  | cons byte input ih =>
    unfold scanDigits
    split
    · exact ih _ _ (wrap32_lt _)
    · exact bound

theorem parseIntUntilCrlf_lt (parsed : parseIntUntilCrlf input cursor = some (value, stop)) :
    value < 2 ^ 31 := by
  obtain ⟨start, scanned, last, -, -, scan, -, -, -, rfl, -⟩ := parseIntUntilCrlf_iff.mp parsed
  have bound := scanDigits_lt (input.drop start) 0 start (by decide)
  rw [scan] at bound
  split
  · exact wrap32_lt _
  · exact bound

theorem parseArgs_sizes (parsed : parseArgs input count cursor = .ok (args, stop)) :
    args.length = count ∧ ∀ arg ∈ args, arg.length < 2 ^ 31 := by
  induction count generalizing cursor args with
  | zero =>
    cases parsed
    simp
  | succ count ih =>
    obtain ⟨size, start, later, -, -, header, -, rest, rfl⟩ := parseArgs_succ_iff.mp parsed
    obtain ⟨length, sizes⟩ := ih rest
    have bound := parseIntUntilCrlf_lt header
    refine ⟨by rw [length_cons, length], ?_⟩
    intro arg member
    rcases mem_cons.mp member with rfl | member
    · rw [length_take]
      omega
    · exact sizes arg member

theorem parseCommand_encodable (parsed : parseCommand input = .ok (args, stop)) :
    Encodable args := by
  obtain ⟨count, start, -, -, header, rest⟩ := parseCommand_iff.mp parsed
  obtain ⟨length, sizes⟩ := parseArgs_sizes rest
  have bound := parseIntUntilCrlf_lt header
  exact ⟨by omega, sizes⟩

theorem readCommands_encodable {fuel : Nat} :
    ∀ args ∈ (readCommands parseOneInto fuel input).1, Encodable args := by
  induction fuel generalizing input with
  | zero => simp [readCommands]
  | succ fuel ih =>
    rw [readCommands]
    cases read : parseOneInto input with
    | error failure => simp
    | ok parsed =>
      intro args member
      rcases mem_cons.mp member with rfl | later
      · exact parseCommand_encodable read
      · exact ih args later

theorem DenotesArgs.plain {text : Bytes} (denotes : DenotesArgs text args)
    (sizes : ∀ arg ∈ args, arg.length < 2 ^ 31) (rest : Bytes) :
    plainArgs args.length (text ++ rest) = true := by
  induction denotes with
  | nil => rfl
  | @cons digits arg text args numeral denotes ih =>
    have later := ih fun other member => sizes other (mem_cons_of_mem _ member)
    have layout : (36 :: (digits ++ (crlf ++ (arg ++ (crlf ++ text))))) ++ rest =
        36 :: (digits ++ (crlf ++ (arg ++ (crlf ++ (text ++ rest))))) := by
      simp
    obtain ⟨leading, plain, behind⟩ :=
      @plainNumber_append _ (arg ++ (crlf ++ (text ++ rest))) _ numeral
        (sizes arg mem_cons_self)
    have value : digitsValue digits = arg.length := (isDecimal_iff.mp numeral).2.2
    rw [layout, length_cons, plainArgs]
    simp only [drop_one, tail_cons]
    rw [plain, behind, leading, value, drop_left, ← drop_drop, drop_left]
    simpa [crlf] using later

theorem parseCommand_denotes (plain : plainCommand input = true)
    (parsed : parseCommand input = .ok (args, consumed)) :
    consumed ≤ input.length ∧ Denotes (input.take consumed) args := by
  obtain ⟨count, start, given, array, header, rest⟩ := parseCommand_iff.mp parsed
  simp only [plainCommand, Bool.and_eq_true] at plain
  obtain ⟨value, inside, behind, layout⟩ := parseIntUntilCrlf_plain plain.1 header
  have numeral := isDecimal_leadingDigits plain.1
  rw [← Int.natCast_inj.mp value, ← (parseArgs_sizes rest).1] at numeral
  rw [behind, ← Int.natCast_inj.mp value] at plain
  obtain ⟨last, text, denotes, remaining⟩ := parseArgs_plain plain.2 inside rest
  refine ⟨last, _, text, numeral, denotes, ?_⟩
  have marked : input = 42 :: input.drop 1 := by
    cases input with
    | nil => exact absurd rfl given
    | cons byte input =>
      simp only [byteAt, getD_cons_zero] at array
      rw [array, drop_one, tail_cons]
  generalize leadingDigits (input.drop 1) = digits at layout ⊢
  have whole : input = 42 :: (digits ++ (crlf ++ text)) ++ input.drop consumed := by
    rw [cons_append, append_assoc, append_assoc, ← remaining, ← layout]
    exact marked
  have parts := (take_append_drop consumed input).trans whole
  exact append_cancel_right parts

/-- For an accepted input: the parser consumed a well-formed command that denotes the
arguments, exactly when every numeral of it is plain and every payload is ended. -/
theorem parser_sound_iff {input : Bytes} {args : List Bytes} {consumed : Nat}
    (accepted : parseOne input = .ok ⟨args, consumed⟩) :
    (consumed ≤ input.length ∧ Denotes (input.take consumed) args) ↔
      plainCommand input = true := by
  have parsed := parseOne_iff.mp accepted
  constructor
  · rintro ⟨inside, digits, body, numeral, denotes, text⟩
    obtain ⟨count, sizes⟩ := parseCommand_encodable parsed
    have whole : input = 42 :: (digits ++ (crlf ++ (body ++ input.drop consumed))) := by
      conv => lhs; rw [← List.take_append_drop consumed input, text]
      simp
    obtain ⟨leading, plain, behind⟩ :=
      @plainNumber_append _ (body ++ input.drop consumed) _ numeral count
    have value : digitsValue digits = args.length := (isDecimal_iff.mp numeral).2.2
    have tail : input.drop 1 = digits ++ (crlf ++ (body ++ input.drop consumed)) := by
      conv => lhs; rw [whole]
      rfl
    rw [plainCommand, tail, plain, behind, leading, value, denotes.plain sizes]
    rfl
  · exact fun plain => parseCommand_denotes plain parsed

theorem parser_sound_of_ping :
    Denotes ((encodeArray [ascii "PING"]).take 14) [ascii "PING"] :=
  ((@parser_sound_iff (encodeArray [ascii "PING"]) [ascii "PING"] 14
    (by decide +kernel)).mpr (by decide +kernel)).2

/-- The last line end is counted as consumed before it has arrived. -/
theorem unfinished_command_is_accepted :
    parseOne (ascii "*1" ++ crlf ++ ascii "$4" ++ crlf ++ ascii "PING") =
        .ok ⟨[ascii "PING"], 14⟩ ∧
      (ascii "*1" ++ crlf ++ ascii "$4" ++ crlf ++ ascii "PING").length = 12 := by
  decide +kernel

theorem natText_append_inj {first second : Nat}
    (same : natText first ++ (crlf ++ left) = natText second ++ (crlf ++ right)) :
    first = second ∧ left = right := by
  have digits := congrArg leadingDigits same
  rw [leadingDigits_append (natText_digits first) (crlf_ends left),
    leadingDigits_append (natText_digits second) (crlf_ends right)] at digits
  have value := congrArg digitsValue digits
  rw [natText_value, natText_value] at value
  subst value
  exact ⟨rfl, append_cancel_left (append_cancel_left same)⟩

theorem encodeBulkString_append_inj {first second : Bytes}
    (same : encodeBulkString first ++ left = encodeBulkString second ++ right) :
    first = second ∧ left = right := by
  simp only [encodeBulkString, cons_append, append_assoc, cons.injEq,
    true_and] at same
  obtain ⟨length, rest⟩ := natText_append_inj same
  obtain ⟨payload, behind⟩ := append_inj rest length
  exact ⟨payload, append_cancel_left behind⟩

theorem encodeArray_append_inj {first second : List Bytes} {left right : Bytes}
    (same : encodeArray first ++ left = encodeArray second ++ right) :
    first = second ∧ left = right := by
  simp only [encodeArray, arrayHeader, cons_append, append_assoc, cons.injEq,
    true_and] at same
  obtain ⟨length, rest⟩ := natText_append_inj same
  clear same
  induction first generalizing second with
  | nil =>
    cases eq_nil_of_length_eq_zero length.symm
    exact ⟨rfl, rest⟩
  | cons arg first ih =>
    cases second with
    | nil => cases length
    | cons other second =>
      simp only [flatMap_cons, append_assoc] at rest
      obtain ⟨rfl, later⟩ := encodeBulkString_append_inj rest
      obtain ⟨rfl, behind⟩ := ih (Nat.succ.inj length) later
      exact ⟨rfl, behind⟩

theorem parseCommand_header (parsed : parseCommand (encodeArray args ++ rest) = .ok ([], consumed))
    : consumed = (arrayHeader args.length).length := by
  obtain ⟨count, start, -, -, header, behind⟩ := parseCommand_iff.mp parsed
  cases count with
  | succ count =>
    obtain ⟨_, _, _, -, -, -, -, -, wrong⟩ := parseArgs_succ_iff.mp behind
    cases wrong
  | zero =>
    cases behind
    have layout : encodeArray args ++ rest =
        [42] ++ (natText args.length ++ (crlf ++ (args.flatMap encodeBulkString ++ rest))) := by
      simp [encodeArray, arrayHeader]
    obtain ⟨begins, scanned, last, -, first, scan, -, -, -, -, rfl⟩ :=
      parseIntUntilCrlf_iff.mp header
    rw [layout] at first scan
    have sign := byteAt_append_right [42]
      (natText args.length ++ (crlf ++ (args.flatMap encodeBulkString ++ rest))) 0
    rw [length_singleton, Nat.add_zero] at sign
    rw [sign, if_neg (byteAt_natText_append _ _)] at first
    subst first
    rw [singleton_append, drop_one, tail_cons, scanDigits_eq, takeWhile_digits
      (natText_digits args.length) (crlf_ends (args.flatMap encodeBulkString ++ rest))] at scan
    rw [← (Prod.mk.inj scan).2, arrayHeader]
    simp [crlf]
    omega

def scanFits : Bytes → Int → Bool
  | [], _ => true
  | byte :: rest, value =>
    if isDigit byte then
      wrap32 (value * 10 + digitValue byte) == value * 10 + digitValue byte &&
        scanFits rest (wrap32 (value * 10 + digitValue byte))
    else true

theorem scanFits_iff {digits rest : Bytes} {value : Nat} (decimal : digits.all isDigit = true)
    (ends : ∀ byte, rest.head? = some byte → isDigit byte = false) (small : value < 2 ^ 31) :
    scanFits (digits ++ rest) value = true ↔
      digits.foldl (fun total byte => total * 10 + digitValue byte) value < 2 ^ 31 := by
  induction digits generalizing value with
  | nil =>
    cases rest with
    | nil => exact iff_of_true rfl small
    | cons byte rest => exact iff_of_true (by simp [scanFits, ends byte rfl]) small
  | cons byte digits ih =>
    rw [all_cons, Bool.and_eq_true] at decimal
    rw [cons_append, scanFits, if_pos decimal.1, foldl_cons, Bool.and_eq_true,
      beq_iff_eq]
    by_cases fits : value * 10 + digitValue byte < 2 ^ 31
    · have same : wrap32 (value * 10 + (digitValue byte : Nat)) =
          ((value * 10 + digitValue byte : Nat) : Int) := by
        rw [← wrap32_small _ fits]
        push_cast
        rfl
      rw [same, ih decimal.2 fits]
      exact and_iff_right rfl
    · refine iff_of_false (fun both => ?_) fun below => ?_
      · have bound := wrap32_lt (value * 10 + (digitValue byte : Nat))
        omega
      · have grows := digits_grow digits (value * 10 + digitValue byte)
        omega

def digitsStart (input : Bytes) (cursor : Nat) : Nat :=
  if byteAt input cursor = 45 then cursor + 1 else cursor

theorem drop_sign (input : Bytes) (cursor : Nat) : input.drop cursor =
    (if byteAt input cursor = 45 then [45] else []) ++ input.drop (digitsStart input cursor) := by
  unfold digitsStart
  split
  · rename_i dash
    have inside : cursor < input.length := by
      by_contra outside
      simp [byteAt, getD_eq_getElem?_getD, getElem?_eq_none (Nat.le_of_not_lt outside)]
        at dash
    simp only [byteAt, getD_eq_getElem?_getD, getElem?_eq_getElem inside,
      Option.getD_some] at dash
    rw [drop_eq_getElem_cons inside, dash]
    rfl
  · rfl

theorem parseIntUntilCrlf_empty {behind : Bytes}
    (line : input.drop (digitsStart input cursor) = crlf ++ behind) :
    parseIntUntilCrlf input cursor = some (0, digitsStart input cursor + 2) := by
  have size := congrArg length line
  have first := byteAt_drop input (digitsStart input cursor) 0
  have second := byteAt_drop input (digitsStart input cursor) 1
  have front := congrArg length (drop_sign input cursor)
  rw [line] at first second
  simp only [crlf, length_append, length_drop, length_cons, length_nil] at size front
  refine parseIntUntilCrlf_iff.mpr ⟨_, 0, digitsStart input cursor, by omega, rfl, ?_, by omega,
    first.symm, second.symm, by split <;> rfl, rfl⟩
  have scan : scanDigits (input.drop (digitsStart input cursor)) 0 (digitsStart input cursor) =
      (0, digitsStart input cursor) := by
    rw [line]
    rfl
  exact scan

/-- A number is read exactly, and summed up without an overflow, exactly if it is below
`2 ^ 31` and has a digit. -/
theorem numerals_read_exactly_iff (input : Bytes) (cursor : Nat) :
    ((∀ value stop, parseIntUntilCrlf input cursor = some (value, stop) →
          ∃ text, IsNumeral text value ∧
            input.drop cursor = text ++ (crlf ++ input.drop stop)) ∧
        scanFits (input.drop (digitsStart input cursor)) 0 = true) ↔
      digitsValue (leadingDigits (input.drop (digitsStart input cursor))) < 2 ^ 31 ∧
        ¬ crlf <+: input.drop (digitsStart input cursor) := by
  obtain ⟨rest, parts, decimal, ends⟩ :=
    leadingDigits_split (input.drop (digitsStart input cursor))
  generalize leadingDigits (input.drop (digitsStart input cursor)) = digits at parts decimal ⊢
  have fits := @scanFits_iff digits rest 0 decimal ends (by decide)
  rw [← parts] at fits
  have sign := drop_sign input cursor
  constructor
  · rintro ⟨precise, sums⟩
    refine ⟨fits.mp sums, ?_⟩
    rintro ⟨behind, line⟩
    obtain ⟨text, numeral, read⟩ := precise _ _ (parseIntUntilCrlf_empty line.symm)
    have tail := congrArg (List.drop 2) line
    rw [List.drop_drop] at tail
    change behind = _ at tail
    rw [← tail, sign, ← line, List.append_cancel_right_eq] at read
    rw [← read, ← parseInteger_eq_some] at numeral
    split at numeral
    · exact absurd numeral (by decide)
    · exact absurd numeral (by decide)
  · rintro ⟨small, line⟩
    refine ⟨fun value stop parsed => ?_, fits.mpr small⟩
    obtain ⟨_, scanned, last, -, rfl, read, room, first, second, rfl, rfl⟩ :=
      parseIntUntilCrlf_iff.mp parsed
    have sums := scanDigits_digits digits rest 0 (digitsStart input cursor) decimal ends small
    rw [← parts] at sums
    cases sums.symm.trans read
    have behind := drop_eq_crlf room first second
    rw [← List.drop_drop, parts, List.drop_left] at behind
    rw [behind] at parts
    have filled : digits ≠ [] := by
      rintro rfl
      exact line ⟨_, parts.symm⟩
    rw [parts, ← List.append_assoc] at sign
    refine ⟨_, ?_, sign⟩
    change IsNumeral _
      (if byteAt input cursor = 45 then wrap32 (-(digitsValue digits : Int))
        else digitsValue digits)
    split
    · have negated : wrap32 (-(digitsValue digits : Int)) = -(digitsValue digits : Int) := by
        simp only [wrap32, Int.bmod]
        omega
      rw [negated]
      exact .negative filled decimal
    · exact .positive filled decimal

theorem long_count_wraps :
    parseIntUntilCrlf (ascii "4294967297\r\n") 0 = some (1, 12) ∧
      ¬ IsNumeral (ascii "4294967297") 1 := by
  rw [ascii_eq rfl, ascii_eq rfl, ← parseInteger_eq_some]
  decide

end Credis
