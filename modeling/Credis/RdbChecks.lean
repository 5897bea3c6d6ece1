import Credis.RdbSafetyChecks
import Credis.RespChecks
import Credis.Run

/-! The RDB format and its decoder: what the parser returns for a file that is laid out
as the format says. -/

namespace Credis

open ByteString

namespace Rdb

/-- The three forms of a length: six bits, fourteen bits, or `0x80` and 32 bits. -/
inductive LengthForm
  | short
  | medium
  | long
  deriving DecidableEq

def LengthForm.limit : LengthForm → Nat
  | .short => 64
  | .medium => 2 ^ 14
  | .long => 2 ^ 32

def leBytes : Nat → Nat → Bytes
  | 0, _ => []
  | width + 1, value => UInt8.ofNat (value % 256) :: leBytes width (value / 256)

def LengthForm.bytes (length : Nat) : LengthForm → Bytes
  | .short => [UInt8.ofNat length]
  | .medium => [UInt8.ofNat (64 + length / 256), UInt8.ofNat (length % 256)]
  | .long => 0x80 :: (leBytes 4 length).reverse

structure CodedLength where
  form : LengthForm
  value : Nat
  fits : value < form.limit

def CodedLength.bytes (coded : CodedLength) : Bytes := coded.form.bytes coded.value

structure CodedString where
  form : LengthForm
  text : Bytes
  fits : text.length < form.limit

def CodedString.length (coded : CodedString) : CodedLength :=
  ⟨coded.form, coded.text.length, coded.fits⟩

def CodedString.bytes (coded : CodedString) : Bytes := coded.length.bytes ++ coded.text

inductive CodedExpiry
  | seconds (count : Fin (2 ^ 32))
  | millis (count : Fin (2 ^ 64))

namespace CodedExpiry

def bytes : CodedExpiry → Bytes
  | .seconds count => 0xFD :: leBytes 4 count
  | .millis count => 0xFC :: leBytes 8 count

def ms : CodedExpiry → Nat
  | .seconds count => count * 1000
  | .millis count => count

end CodedExpiry

structure CodedItem where
  expiry : Option CodedExpiry
  key : CodedString
  value : CodedString

namespace CodedItem

def bytes (item : CodedItem) : Bytes :=
  (item.expiry.map CodedExpiry.bytes).getD [] ++ 0 :: (item.key.bytes ++ item.value.bytes)

def entry (item : CodedItem) : RdbEntry := ⟨item.value.text, item.expiry.map CodedExpiry.ms⟩

end CodedItem

structure CodedDatabase where
  aux : List (CodedString × CodedString)
  number : CodedLength
  sizes : Option (CodedLength × CodedLength)
  items : List CodedItem
  distinct : (items.map fun item => item.key.text).Nodup

namespace CodedDatabase

def auxBytes (pair : CodedString × CodedString) : Bytes :=
  0xFA :: (pair.1.bytes ++ pair.2.bytes)

def sizesBytes : Option (CodedLength × CodedLength) → Bytes
  | none => []
  | some (table, expires) => 0xFB :: (table.bytes ++ expires.bytes)

def bytes (database : CodedDatabase) : Bytes :=
  database.aux.flatMap auxBytes ++ 0xFE :: (database.number.bytes ++
    (sizesBytes database.sizes ++ database.items.flatMap CodedItem.bytes))

def forms (database : CodedDatabase) : List LengthForm :=
  (database.aux.flatMap fun pair => [pair.1.form, pair.2.form]) ++ database.number.form ::
    ((database.sizes.map fun sizes => [sizes.1.form, sizes.2.form]).getD [] ++
      database.items.flatMap fun item => [item.key.form, item.value.form])

end CodedDatabase

/-- A file: four bytes of version, the databases, and anything behind the end mark. -/
structure CodedFile where
  version : Bytes
  four : version.length = 4
  databases : List CodedDatabase
  trailer : Bytes

namespace CodedFile

variable (file : CodedFile)

def body : Bytes :=
  file.databases.flatMap CodedDatabase.bytes ++ 0xFF :: file.trailer

def bytes : Bytes := ascii "REDIS" ++ (file.version ++ file.body)

def items : List CodedItem := file.databases.flatMap CodedDatabase.items

def forms : List LengthForm := file.databases.flatMap CodedDatabase.forms

end CodedFile

/-- The strings that stand as a number of this width, behind `0xC0`, `0xC1` or `0xC2`. -/
inductive IntForm
  | bits8
  | bits16
  | bits32

namespace IntForm

def mark : IntForm → UInt8
  | .bits8 => 0xC0
  | .bits16 => 0xC1
  | .bits32 => 0xC2

def width : IntForm → Nat
  | .bits8 => 1
  | .bits16 => 2
  | .bits32 => 4

def Holds (form : IntForm) (value : Int) : Prop :=
  -(2 ^ (8 * form.width - 1)) ≤ value ∧ value < 2 ^ (8 * form.width - 1)

def bytes (form : IntForm) (value : Int) : Bytes :=
  form.mark :: leBytes form.width (value % 256 ^ form.width).toNat

end IntForm

variable {value : Nat} {coded : CodedLength}

theorem toNat_byte (small : value < 256) : (UInt8.ofNat value).toNat = value :=
  UInt8.toNat_ofNat_of_lt small

theorem length_leBytes (width value : Nat) : (leBytes width value).length = width := by
  induction width generalizing value with
  | zero => rfl
  | succ width ih => rw [leBytes, List.length_cons, ih]

theorem littleEndian_leBytes {width : Nat} (fits : value < 256 ^ width) :
    Reader.littleEndian (leBytes width value) = value := by
  unfold Reader.littleEndian
  induction width generalizing value with
  | zero =>
    rw [pow_zero] at fits
    rw [leBytes]
    exact (Nat.lt_one_iff.mp fits).symm
  | succ width ih =>
    have small : value / 256 < 256 ^ width := by
      rw [pow_succ] at fits
      exact Nat.div_lt_of_lt_mul (by rwa [Nat.mul_comm])
    have byte : (UInt8.ofNat (value % 256)).toNat = value % 256 :=
      toNat_byte (Nat.mod_lt _ (by decide))
    rw [leBytes, List.reverse_cons, Reader.bigEndian, List.foldl_append, ← Reader.bigEndian,
      ih small, List.foldl_cons, List.foldl_nil, byte]
    omega

namespace Reader

variable {reader : Reader} {data tail : Bytes}

structure At (reader : Reader) (data tail : Bytes) : Prop where
  file : reader.data = data
  rest : reader.rest = tail

theorem At.follows {α : Type} {read : Except Fault (α × Reader)} {layout : Option (α × Bytes)}
    {value : α} {before : Bytes} (here : reader.At data before)
    (follows : Follows reader read layout)
    (laid : layout = some (value, tail)) :
    ∃ next, read = .ok (value, next) ∧ next.At data tail := by
  rcases follows with ⟨_, next, rfl, goes, same⟩ | ⟨-, cut⟩
  · cases same.symm.trans laid
    exact ⟨next, rfl, goes.1.trans here.file, rfl⟩
  · cases cut.symm.trans laid

theorem At.peek (here : reader.At data tail) : reader.peek = tail.head? := by
  rw [peek_rest, here.rest]

theorem At.readByte {byte : UInt8} (here : reader.At data (byte :: tail)) :
    ∃ next, reader.readByte = (byte, next) ∧ next.At data tail := by
  obtain ⟨next, read, goes, behind⟩ := reader.readByte_rest
  rw [here.rest] at read behind
  exact ⟨next, read, goes.1.trans here.file, behind⟩

theorem At.readBytes {text : Bytes} (here : reader.At data (text ++ tail)) :
    ∃ next, reader.readBytes text.length = (text, next) ∧ next.At data tail := by
  refine ⟨_, Prod.ext ?_ rfl, here.file, ?_⟩
  · exact (congrArg (List.take _) here.rest).trans List.take_left
  · rw [readBytes_rest, here.rest, List.drop_left]

theorem At.readWidth {number : Bytes} {width : Nat} (here : reader.At data (number ++ tail))
    (size : number.length = width) :
    ∃ next, reader.readWidth width = .ok (number, next) ∧ next.At data tail := by
  subst size
  refine here.follows (reader.readWidth_follows _) ?_
  rw [here.rest, numberAt, if_pos (by simp), List.take_left, List.drop_left]

theorem At.readLe32 (fits : value < 2 ^ 32) (here : reader.At data (leBytes 4 value ++ tail)) :
    ∃ next, reader.readLe32 = .ok (value, next) ∧ next.At data tail := by
  obtain ⟨next, read, after⟩ := here.readWidth (length_leBytes 4 value)
  refine ⟨next, ?_, after⟩
  rw [Reader.readLe32, read, Except.map, littleEndian_leBytes (by omega)]

theorem At.readLe64 (fits : value < 2 ^ 64) (here : reader.At data (leBytes 8 value ++ tail)) :
    ∃ next, reader.readLe64 = .ok (value, next) ∧ next.At data tail := by
  obtain ⟨next, read, after⟩ := here.readWidth (length_leBytes 8 value)
  refine ⟨next, ?_, after⟩
  rw [Reader.readLe64, read, Except.map, littleEndian_leBytes (by omega)]

theorem lengthAt_iff : lengthAt (coded.bytes ++ tail) = some (coded.value, tail) ↔
    coded.form ≠ .long := by
  obtain ⟨form, value, fits⟩ := coded
  cases form with
  | short =>
    rw [LengthForm.limit] at fits
    have first : (UInt8.ofNat value).toNat = value := toNat_byte (by omega)
    simp [lengthAt, CodedLength.bytes, LengthForm.bytes, first, Nat.div_eq_of_lt fits,
      Nat.mod_eq_of_lt fits]
  | medium =>
    rw [LengthForm.limit] at fits
    have first : (UInt8.ofNat (64 + value / 256)).toNat = 64 + value / 256 :=
      toNat_byte (by omega)
    have second : (UInt8.ofNat (value % 256)).toNat = value % 256 := toNat_byte (by omega)
    have high : (64 + value / 256) / 64 = 1 := by omega
    have whole : (64 + value / 256) % 64 * 256 + value % 256 = value := by omega
    simp only [lengthAt, CodedLength.bytes, LengthForm.bytes, List.cons_append, List.headD_cons,
      List.tail_cons, first, second, high, whole]
    simp
  | long =>
    -- the number is read one byte behind its place
    refine iff_of_false (fun same => ?_) (· rfl)
    obtain ⟨high, low, parts, size⟩ : ∃ high low,
        (leBytes 4 value).reverse = high :: low ∧ low.length = 3 := ⟨_, _, rfl, rfl⟩
    simp only [lengthAt, CodedLength.bytes, LengthForm.bytes, parts, List.cons_append,
      List.headD_cons, List.tail_cons] at same
    obtain ⟨number, read, same⟩ := Option.map_eq_some_iff.mp same
    unfold numberAt at read
    split at read
    · rename_i whole
      cases read
      have length := congrArg (fun done => done.2.length) same
      simp only [List.length_drop, List.length_append, size] at length whole
      omega
    · cases read

theorem At.readLength_iff (here : reader.At data (coded.bytes ++ tail)) :
    (∃ next, reader.readLength = .ok (coded.value, next) ∧ next.At data tail) ↔
      coded.form ≠ .long := by
  have follows := reader.readLength_follows
  rw [here.rest] at follows
  rw [← (lengthAt_iff : lengthAt (coded.bytes ++ tail) = _ ↔ _)]
  refine ⟨fun ⟨next, read, there⟩ => ?_, here.follows follows⟩
  rcases follows with ⟨_, _, same, -, layout⟩ | ⟨failed, -⟩
  · cases same.symm.trans read
    rw [layout, there.rest]
  · cases failed.symm.trans read

theorem narrow_head {form : LengthForm} {length : Nat} (fits : length < form.limit)
    (narrow : form ≠ .long) :
    ∃ first, (form.bytes length).head? = some first ∧ first.toNat / 64 ≠ 3 := by
  cases form with
  | short =>
    rw [LengthForm.limit] at fits
    refine ⟨_, rfl, ?_⟩
    rw [toNat_byte (by omega)]
    omega
  | medium =>
    rw [LengthForm.limit] at fits
    refine ⟨_, rfl, ?_⟩
    rw [toNat_byte (by omega)]
    omega
  | long => exact absurd rfl narrow

theorem At.readString {coded : CodedString} (narrow : coded.form ≠ .long)
    (here : reader.At data (coded.bytes ++ tail)) :
    ∃ next, reader.readString = .ok (coded.text, next) ∧ next.At data tail := by
  rw [CodedString.bytes, List.append_assoc] at here
  obtain ⟨first, head, plain⟩ := narrow_head coded.fits narrow
  obtain ⟨between, length, middle⟩ := here.readLength_iff.mpr narrow
  obtain ⟨next, text, after⟩ := middle.readBytes
  refine ⟨next, ?_, after⟩
  have peeked : reader.peek = some first := by
    rw [here.peek, List.head?_append, CodedLength.bytes]
    exact congrArg (Option.or · _) head
  rw [Reader.readString, peeked]
  dsimp only
  rw [if_neg plain, length]
  exact congrArg Except.ok text

theorem At.readString_special {form : IntForm} (fits : value < 256 ^ form.width)
    (here : reader.At data (form.mark :: (leBytes form.width value ++ tail))) :
    ∃ next, reader.readString = .ok (natText value, next) ∧ next.At data tail := by
  obtain ⟨middle, marked, between⟩ := here.readByte
  have peeked : reader.peek = some form.mark := here.peek
  cases form with
  | bits8 =>
    obtain ⟨next, byte, after⟩ := between.readByte
    refine ⟨next, ?_, after⟩
    rw [Reader.readString, peeked]
    dsimp only
    rw [if_pos (by decide), if_pos (by decide), marked]
    dsimp only
    rw [byte, toNat_byte (Nat.mod_lt _ (by decide))]
    exact congrArg (fun number => Except.ok (natText number, next)) (Nat.mod_eq_of_lt fits)
  | bits16 =>
    obtain ⟨next, read, after⟩ := between.readWidth (length_leBytes 2 value)
    refine ⟨next, ?_, after⟩
    rw [Reader.readString, peeked]
    dsimp only
    rw [if_pos (by decide), if_neg (by decide), if_pos (by decide), marked, Reader.readLe16, read,
      Except.map, Except.map, littleEndian_leBytes fits]
  | bits32 =>
    obtain ⟨next, read, after⟩ := between.readLe32 fits
    refine ⟨next, ?_, after⟩
    rw [Reader.readString, peeked]
    dsimp only
    rw [if_pos (by decide), if_neg (by decide), if_neg (by decide), if_pos (by decide), marked,
      read, Except.map]

theorem natText_unsigned_iff {width : Nat} {value : Int} (high : value < 256 ^ width) :
    natText (value % 256 ^ width).toNat = intText value ↔ 0 ≤ value := by
  constructor
  · intro same
    have number : ((value % 256 ^ width).toNat : Int) = value := intText_injective same
    exact number ▸ Int.natCast_nonneg _
  · intro nonneg
    have kept : ((value % 256 ^ width).toNat : Int) = value := by
      rw [Int.emod_eq_of_lt nonneg high, Int.toNat_of_nonneg nonneg]
    exact congrArg intText kept

/-- A string that stands as a number is read up to its end, and as that number exactly
when the number is not negative. -/
theorem integer_string_iff {form : IntForm} {value : Int} (holds : form.Holds value)
    (here : reader.At data (form.bytes value ++ tail)) :
    ∃ text next, reader.readString = .ok (text, next) ∧ next.At data tail ∧
      (text = intText value ↔ 0 ≤ value) := by
  have small : (value % 256 ^ form.width).toNat < 256 ^ form.width := by
    have positive : (0 : Int) < 256 ^ form.width := pow_pos (by decide) _
    have below := Int.emod_lt_of_pos value positive
    have nonneg := Int.emod_nonneg value positive.ne'
    have size : ((256 ^ form.width : Nat) : Int) = 256 ^ form.width := by push_cast; rfl
    omega
  obtain ⟨next, read, after⟩ := here.readString_special small
  refine ⟨_, next, read, after, natText_unsigned_iff ?_⟩
  cases form <;> simp only [IntForm.Holds, IntForm.width] at holds ⊢ <;> omega

theorem integer_string_read :
    ∃ text next, (⟨IntForm.bits16.bytes 300 ++ [0xFF], 0, by decide⟩ : Reader).readString =
        .ok (text, next) ∧ next.At (IntForm.bits16.bytes 300 ++ [0xFF]) [0xFF] ∧
      (text = intText 300 ↔ (0 : Int) ≤ 300) :=
  integer_string_iff ⟨by decide, by decide⟩ ⟨rfl, rfl⟩

/-- The byte `0xFF` stands for -1 and is read as 255. -/
theorem integer_string_misread :
    IntForm.bits8.Holds (-1) ∧
    ((⟨IntForm.bits8.bytes (-1), 0, by decide⟩ : Reader).readString.map Prod.fst) =
      .ok (intText 255) ∧ intText 255 ≠ intText (-1) :=
  ⟨⟨by decide, by decide⟩, by decide +kernel, by decide⟩

theorem At.skipSizes {sizes : Option (CodedLength × CodedLength)}
    (narrow : ∀ pair, sizes = some pair → pair.1.form ≠ .long ∧ pair.2.form ≠ .long)
    (absent : tail.head? ≠ some 0xFB)
    (here : reader.At data (CodedDatabase.sizesBytes sizes ++ tail)) :
    ∃ next, reader.skipSizes = .ok next ∧ next.At data tail := by
  unfold Reader.skipSizes
  cases sizes with
  | none =>
    refine ⟨reader, if_neg ?_, here⟩
    rw [here.peek]
    exact absent
  | some pair =>
    obtain ⟨first, last⟩ := narrow pair rfl
    rw [CodedDatabase.sizesBytes, List.cons_append, List.append_assoc] at here
    have peeked : reader.peek = some 0xFB := here.peek
    obtain ⟨one, byte, front⟩ := here.readByte
    obtain ⟨two, table, middle⟩ := front.readLength_iff.mpr first
    obtain ⟨next, expires, after⟩ := middle.readLength_iff.mpr last
    refine ⟨next, ?_, after⟩
    rw [if_pos peeked, byte]
    dsimp only
    rw [table]
    dsimp only
    rw [expires]
    rfl

theorem At.readExpiry {expiry : Option CodedExpiry}
    (here : reader.At data ((expiry.map CodedExpiry.bytes).getD [] ++ 0 :: tail)) :
    ∃ next, reader.readExpiry = .ok (expiry.map CodedExpiry.ms, next) ∧
      next.At data (0 :: tail) := by
  unfold Reader.readExpiry
  cases expiry with
  | none =>
    have peeked : reader.peek = some 0 := here.peek
    rw [peeked]
    exact ⟨reader, rfl, here⟩
  | some expiry =>
    cases expiry with
    | seconds count =>
      have peeked : reader.peek = some 0xFD := here.peek
      obtain ⟨between, byte, middle⟩ := here.readByte
      obtain ⟨next, number, after⟩ := middle.readLe32 count.isLt
      refine ⟨next, ?_, after⟩
      rw [if_pos peeked, byte]
      dsimp only
      rw [number]
      rfl
    | millis count =>
      have peeked : reader.peek = some 0xFC := here.peek
      obtain ⟨between, byte, middle⟩ := here.readByte
      obtain ⟨next, number, after⟩ := middle.readLe64 count.isLt
      refine ⟨next, ?_, after⟩
      rw [peeked, if_neg (by decide), if_pos rfl, byte]
      dsimp only
      rw [number]
      rfl

theorem At.readEntry {item : CodedItem} (key : item.key.form ≠ .long)
    (value : item.value.form ≠ .long) (here : reader.At data (item.bytes ++ tail)) :
    ∃ next, reader.readEntry = .ok (item.key.text, item.entry, next) ∧ next.At data tail := by
  rw [CodedItem.bytes, List.append_assoc, List.cons_append, List.append_assoc] at here
  obtain ⟨one, expiry, front⟩ := here.readExpiry
  obtain ⟨two, byte, middle⟩ := front.readByte
  obtain ⟨three, name, behind⟩ := middle.readString key
  obtain ⟨next, text, after⟩ := behind.readString value
  refine ⟨next, ?_, after⟩
  rw [Reader.readEntry, expiry]
  dsimp only
  rw [byte]
  dsimp only
  rw [name]
  dsimp only
  rw [text]
  rfl

end Reader

open Reader (At)

variable {reader : Reader} {data tail : Bytes}

def stops : List UInt8 := [0xFF, 0xFE, 0xFA]

def collect (entries : Entries) (items : List CodedItem) : Entries :=
  items.foldl (fun entries item => emplace entries item.key.text item.entry) entries

theorem item_head (item : CodedItem) :
    ∃ first, (item.bytes ++ tail).head? = some first ∧ first ∉ stops ∧ first ≠ 0xFB := by
  obtain ⟨expiry, key, value⟩ := item
  cases expiry with
  | none => exact ⟨0, rfl, by decide, by decide⟩
  | some expiry =>
    cases expiry with
    | seconds count => exact ⟨0xFD, rfl, by decide, by decide⟩
    | millis count => exact ⟨0xFC, rfl, by decide, by decide⟩

theorem readEntries_items {items : List CodedItem} {entries : Entries} {fuel : Nat} {stop : UInt8}
    (narrow : ∀ item ∈ items, item.key.form ≠ .long ∧ item.value.form ≠ .long)
    (ends : stop ∈ stops) (enough : items.length ≤ fuel)
    (here : reader.At data (items.flatMap CodedItem.bytes ++ stop :: tail)) :
    ∃ next, readEntries fuel reader entries = .ok (next, collect entries items) ∧
      next.At data (stop :: tail) := by
  induction items generalizing reader entries fuel with
  | nil =>
    refine ⟨reader, ?_, here⟩
    cases fuel with
    | zero => rfl
    | succ fuel =>
      rw [readEntries, here.peek]
      simp only [stops, List.mem_cons, List.not_mem_nil, or_false] at ends
      exact if_pos ends
  | cons item items ih =>
    obtain ⟨fuel, rfl⟩ : ∃ less, fuel = less + 1 := ⟨fuel - 1, by simp at enough; omega⟩
    obtain ⟨first, head, goes, -⟩ := @item_head
      (items.flatMap CodedItem.bytes ++ stop :: tail) item
    rw [List.flatMap_cons, List.append_assoc] at here
    obtain ⟨own, others⟩ := List.forall_mem_cons.mp narrow
    obtain ⟨between, read, middle⟩ := here.readEntry own.1 own.2
    obtain ⟨next, rest, after⟩ := ih others (by simpa using enough) middle
    refine ⟨next, ?_, after⟩
    simp only [stops, List.mem_cons, List.not_mem_nil, or_false] at goes
    rw [readEntries, here.peek, head]
    dsimp only
    rw [if_neg goes, read]
    exact rest

theorem items_head {items : List CodedItem} {stop : UInt8} (ends : stop ∈ stops) :
    (items.flatMap CodedItem.bytes ++ stop :: tail).head? ≠ some 0xFB := by
  cases items with
  | nil =>
    rintro same
    cases same
    exact absurd ends (by decide)
  | cons item items =>
    obtain ⟨first, head, -, other⟩ := @item_head
      (items.flatMap CodedItem.bytes ++ stop :: tail) item
    rw [List.flatMap_cons, List.append_assoc, head]
    exact fun same => other (Option.some.inj same)

theorem length_le_flatMap {α : Type} {encode : α → Bytes} (filled : ∀ item, encode item ≠ [])
    (items : List α) : items.length ≤ (items.flatMap encode).length := by
  induction items with
  | nil => exact Nat.zero_le _
  | cons item items ih =>
    have one := List.length_pos_iff.mpr (filled item)
    rw [List.flatMap_cons, List.length_append, List.length_cons]
    omega

namespace CodedDatabase

structure Narrow (database : CodedDatabase) : Prop where
  aux : ∀ pair ∈ database.aux, pair.1.form ≠ .long ∧ pair.2.form ≠ .long
  number : database.number.form ≠ .long
  sizes : ∀ pair, database.sizes = some pair → pair.1.form ≠ .long ∧ pair.2.form ≠ .long
  items : ∀ item ∈ database.items, item.key.form ≠ .long ∧ item.value.form ≠ .long

theorem narrow_of_forms {database : CodedDatabase} (narrow : .long ∉ database.forms) :
    database.Narrow := by
  unfold forms at narrow
  simp only [List.mem_append, List.mem_cons, List.mem_flatMap, not_or, not_exists, not_and]
    at narrow
  obtain ⟨aux, number, sizes, items⟩ := narrow
  refine ⟨fun pair member => ?_, fun same => number same.symm, fun pair found => ?_,
    fun item member => ?_⟩
  · have both := aux pair member
    exact ⟨fun same => both.1 same.symm, fun same => both.2.1 same.symm⟩
  · rw [found] at sizes
    simp only [Option.map_some, Option.getD_some, List.mem_cons, List.not_mem_nil, or_false,
      not_or] at sizes
    exact ⟨fun same => sizes.1 same.symm, fun same => sizes.2 same.symm⟩
  · have both := items item member
    exact ⟨fun same => both.1 same.symm, fun same => both.2.1 same.symm⟩

def turns (database : CodedDatabase) : Nat := database.aux.length + 1

theorem turns_le (database : CodedDatabase) : database.turns ≤ database.bytes.length := by
  have aux := @length_le_flatMap _ auxBytes (fun _ => List.cons_ne_nil _ _) database.aux
  rw [turns, bytes, List.length_append, List.length_cons]
  omega

end CodedDatabase

theorem readDatabase_coded {database : CodedDatabase} {entries : Entries} {stop : UInt8}
    (narrow : database.Narrow) (ends : stop ∈ stops)
    (here : reader.At data (database.number.bytes ++ (CodedDatabase.sizesBytes database.sizes ++
      (database.items.flatMap CodedItem.bytes ++ stop :: tail)))) :
    ∃ next, readDatabase reader entries = .ok (next, collect entries database.items) ∧
      next.At data (stop :: tail) := by
  obtain ⟨one, number, front⟩ := here.readLength_iff.mpr narrow.number
  obtain ⟨two, sizes, middle⟩ := front.skipSizes narrow.sizes (items_head ends)
  have enough : database.items.length ≤ two.data.length := by
    have length := congrArg List.length middle.rest
    have items := length_le_flatMap
      (fun item => by simp [CodedItem.bytes] : ∀ item : CodedItem, item.bytes ≠ []) database.items
    rw [Reader.length_rest, List.length_append] at length
    omega
  obtain ⟨next, read, after⟩ := @readEntries_items _ _ _ _ entries _ _ narrow.items ends enough
    middle
  refine ⟨next, ?_, after⟩
  rw [readDatabase, number]
  dsimp only
  rw [sizes]
  exact read

theorem readSections_aux {aux : List (CodedString × CodedString)} {entries : Entries} {fuel : Nat}
    (narrow : ∀ pair ∈ aux, pair.1.form ≠ .long ∧ pair.2.form ≠ .long)
    (here : reader.At data (aux.flatMap CodedDatabase.auxBytes ++ tail)) :
    ∃ next, readSections (aux.length + fuel) reader entries = readSections fuel next entries ∧
      next.At data tail := by
  induction aux generalizing reader with
  | nil => exact ⟨reader, by rw [List.length_nil, Nat.zero_add], here⟩
  | cons pair aux ih =>
    obtain ⟨own, others⟩ := List.forall_mem_cons.mp narrow
    rw [List.flatMap_cons, CodedDatabase.auxBytes, List.append_assoc, List.cons_append,
      List.append_assoc] at here
    have peeked : reader.peek = some 0xFA := here.peek
    obtain ⟨one, op, front⟩ := here.readByte
    obtain ⟨two, first, middle⟩ := front.readString own.1
    obtain ⟨three, second, behind⟩ := middle.readString own.2
    obtain ⟨next, rest, after⟩ := ih others behind
    refine ⟨next, ?_, after⟩
    rw [← rest, List.length_cons, Nat.add_right_comm, readSections, peeked]
    dsimp only
    rw [if_pos rfl, op, readAux, first]
    dsimp only
    rw [second]
    rfl

theorem body_head (databases : List CodedDatabase) (trailer : Bytes) :
    ∃ stop rest, databases.flatMap CodedDatabase.bytes ++ 0xFF :: trailer = stop :: rest ∧
      stop ∈ stops := by
  cases databases with
  | nil => exact ⟨0xFF, trailer, rfl, by decide⟩
  | cons database databases =>
    rw [List.flatMap_cons, CodedDatabase.bytes]
    cases database.aux with
    | nil => exact ⟨0xFE, _, rfl, by decide⟩
    | cons pair aux => exact ⟨0xFA, _, rfl, by decide⟩

theorem readSections_coded {databases : List CodedDatabase} {entries : Entries} {fuel : Nat}
    (narrow : ∀ database ∈ databases, database.Narrow)
    (here : reader.At data (databases.flatMap CodedDatabase.bytes ++ 0xFF :: tail)) :
    readSections ((databases.map CodedDatabase.turns).sum + fuel) reader entries =
      .ok (collect entries (databases.flatMap CodedDatabase.items)) := by
  induction databases generalizing reader entries with
  | nil =>
    have peeked : reader.peek = some 0xFF := here.peek
    rw [List.map_nil, List.sum_nil, Nat.zero_add]
    cases fuel with
    | zero => rfl
    | succ fuel =>
      rw [readSections, peeked]
      rfl
  | cons database databases ih =>
    obtain ⟨own, others⟩ := List.forall_mem_cons.mp narrow
    obtain ⟨stop, rest, behind, ends⟩ := body_head databases tail
    rw [List.flatMap_cons, List.append_assoc, behind, CodedDatabase.bytes, List.append_assoc,
      List.cons_append, List.append_assoc, List.append_assoc] at here
    rw [List.map_cons, List.sum_cons, CodedDatabase.turns, Nat.add_assoc, Nat.add_assoc]
    obtain ⟨one, skipped, front⟩ := @readSections_aux _ _ _ _ entries
      (1 + ((databases.map CodedDatabase.turns).sum + fuel)) own.aux here
    have peeked : one.peek = some 0xFE := front.peek
    obtain ⟨two, op, middle⟩ := front.readByte
    obtain ⟨next, read, after⟩ := @readDatabase_coded _ _ _ _ entries _ own ends middle
    rw [← behind] at after
    rw [skipped, Nat.add_comm 1, readSections, peeked]
    dsimp only
    rw [if_neg (by decide), if_pos rfl, op]
    dsimp only
    rw [read]
    dsimp only
    rw [ih others after, collect, collect, List.flatMap_cons, collect, List.foldl_append]

theorem sum_turns_le (databases : List CodedDatabase) :
    (databases.map CodedDatabase.turns).sum ≤
      (databases.flatMap CodedDatabase.bytes).length := by
  induction databases with
  | nil => exact Nat.le_refl _
  | cons database databases ih =>
    have own := database.turns_le
    rw [List.map_cons, List.sum_cons, List.flatMap_cons, List.length_append]
    omega

theorem parseRdb_coded {file : CodedFile} (narrow : .long ∉ file.forms) :
    parseRdb file.bytes = .ok (collect ∅ file.items) := by
  have each : ∀ database ∈ file.databases, database.Narrow := fun database member =>
    CodedDatabase.narrow_of_forms fun long =>
      narrow (List.mem_flatMap.mpr ⟨database, member, long⟩)
  have magic : (ascii "REDIS").length = 5 := rfl
  have header : 9 ≤ file.bytes.length := by
    rw [CodedFile.bytes, List.length_append, List.length_append, file.four, magic]
    omega
  have named : file.bytes.take 5 = ascii "REDIS" := List.take_left' magic
  have here : Reader.At ⟨file.bytes, 9, header⟩ file.bytes file.body := by
    refine ⟨rfl, ?_⟩
    rw [Reader.rest]
    dsimp only
    rw [CodedFile.bytes, ← List.append_assoc]
    exact List.drop_left' (by rw [List.length_append, file.four, magic])
  obtain ⟨fuel, enough⟩ : ∃ fuel, file.bytes.length =
      (file.databases.map CodedDatabase.turns).sum + fuel := by
    refine Nat.exists_eq_add_of_le ((sum_turns_le file.databases).trans ?_)
    rw [CodedFile.bytes, CodedFile.body, List.length_append, List.length_append,
      List.length_append]
    omega
  rw [parseRdb, dif_pos header, if_pos named]
  nth_rewrite 1 [enough]
  exact readSections_coded each here

theorem lookup_emplace (entries : Entries) (key other : Key) (entry : RdbEntry) :
    (emplace entries key entry).lookup other =
      (entries.lookup other).or (if key = other then some entry else none) := by
  unfold emplace
  by_cases present : key ∈ entries
  · rw [if_pos present]
    by_cases same : key = other
    · subst same
      obtain ⟨found, lookup⟩ := Option.isSome_iff_exists.mp (AList.lookup_isSome.mpr present)
      rw [lookup, Option.some_or]
    · rw [if_neg same, Option.or_none]
  · rw [if_neg present]
    by_cases same : key = other
    · subst same
      rw [AList.lookup_insert, AList.lookup_eq_none.mpr present, if_pos rfl, Option.none_or]
    · rw [AList.lookup_insert_ne (Ne.symm same), if_neg same, Option.or_none]

theorem lookup_collect (entries : Entries) (items : List CodedItem) (key : Key) :
    (collect entries items).lookup key = (entries.lookup key).or
      ((items.find? fun item => item.key.text == key).map CodedItem.entry) := by
  induction items generalizing entries with
  | nil => rw [collect, List.foldl_nil, List.find?_nil, Option.map_none, Option.or_none]
  | cons item items ih =>
    have step : collect entries (item :: items) =
        collect (emplace entries item.key.text item.entry) items := rfl
    rw [step, ih, lookup_emplace, Option.or_assoc, List.find?_cons]
    by_cases same : item.key.text = key
    · rw [if_pos same, beq_iff_eq.mpr same, Option.some_or]
      rfl
    · rw [if_neg same, beq_eq_false_iff_ne.mpr same, Option.none_or]

structure CodedFile.Decoded (file : CodedFile) (entries : Entries) : Prop where
  every : ∀ item ∈ file.items, entries.lookup item.key.text = some item.entry
  only : ∀ key entry, entries.lookup key = some entry →
    ∃ item ∈ file.items, item.key.text = key ∧ item.entry = entry

/-- A key that stands in several databases has one value and expiry in all of them. -/
def CodedFile.OneEntryPerKey (file : CodedFile) : Prop :=
  ∀ item ∈ file.items, ∀ other ∈ file.items, item.key.text = other.key.text →
    item.entry = other.entry

instance (file : CodedFile) : Decidable file.OneEntryPerKey :=
  inferInstanceAs (Decidable (∀ _ ∈ file.items, ∀ _ ∈ file.items, _ → _))

theorem CodedFile.decoded_collect_iff (file : CodedFile) :
    file.Decoded (collect ∅ file.items) ↔ file.OneEntryPerKey := by
  have lookup : ∀ key, (collect ∅ file.items).lookup key =
      (file.items.find? fun item => item.key.text == key).map CodedItem.entry := by
    intro key
    rw [lookup_collect, AList.lookup_empty, Option.none_or]
  constructor
  · intro decoded item inside other present same
    have one := decoded.every item inside
    rw [same, decoded.every other present] at one
    exact (Option.some.inj one).symm
  · intro agree
    refine ⟨fun item inside => ?_, fun key entry found => ?_⟩
    · rw [lookup]
      cases found : file.items.find? fun other => other.key.text == item.key.text with
      | none => exact absurd (List.find?_eq_none.mp found item inside) (by simp)
      | some other =>
        have same := List.find?_some found
        exact congrArg some (agree other (List.mem_of_find?_eq_some found) item inside
          (eq_of_beq same))
    · rw [lookup] at found
      obtain ⟨item, first, rfl⟩ := Option.map_eq_some_iff.mp found
      have same := List.find?_some first
      exact ⟨item, List.mem_of_find?_eq_some first, eq_of_beq same, rfl⟩

/-- A file without lengths in the long form is decoded, exactly if no key has two
entries in it; and a length is read back exactly if it is not in the long form. -/
theorem narrow_files_decoded (file : CodedFile) :
    (.long ∉ file.forms → ∃ entries, parseRdb file.bytes = .ok entries ∧
      (file.Decoded entries ↔ file.OneEntryPerKey)) ∧
    ∀ (reader : Reader) (coded : CodedLength) (data tail : Bytes),
      reader.At data (coded.bytes ++ tail) →
      ((∃ next, reader.readLength = .ok (coded.value, next) ∧ next.At data tail) ↔
        coded.form ≠ .long) :=
  ⟨fun narrow => ⟨_, parseRdb_coded narrow, file.decoded_collect_iff⟩,
    fun _ _ _ _ here => here.readLength_iff⟩

def shortString (text : Bytes) (fits : text.length < 64) : CodedString := ⟨.short, text, fits⟩

def twoDatabases : CodedFile where
  version := ascii "0011"
  four := rfl
  databases :=
    [⟨[(shortString (ascii "redis-ver") (by decide), shortString (ascii "7.2.0") (by decide))],
        ⟨.short, 0, by decide⟩, some (⟨.short, 2, by decide⟩, ⟨.medium, 1, by decide⟩),
        [⟨none, shortString (ascii "k") (by decide), ⟨.medium, ascii "v", by decide⟩⟩,
          ⟨some (.seconds 3), shortString (ascii "s") (by decide),
            shortString (ascii "w") (by decide)⟩], by decide⟩,
      ⟨[], ⟨.short, 1, by decide⟩, none,
        [⟨some (.millis 4500), shortString (ascii "m") (by decide), shortString [] (by decide)⟩],
        by decide⟩]
  trailer := [1, 2, 3, 4, 5, 6, 7, 8]

theorem twoDatabases_decoded :
    ∃ entries, parseRdb twoDatabases.bytes = .ok entries ∧ twoDatabases.Decoded entries := by
  obtain ⟨entries, parsed, decoded⟩ := (narrow_files_decoded twoDatabases).1 (by decide)
  exact ⟨entries, parsed, decoded.mpr (by decide)⟩

def longKey : CodedFile where
  version := ascii "0011"
  four := rfl
  databases :=
    [⟨[], ⟨.short, 0, by decide⟩, none,
      [⟨none, ⟨.long, ascii "k", by decide⟩, shortString (ascii "v") (by decide)⟩], by decide⟩]
  trailer := []

theorem longKey_lost :
    Run.Succeeds (parseRdb longKey.bytes) fun entries =>
      entries.lookup (ascii "k") = none ∧ entries.lookup [1, 118, 255] = some ⟨[], none⟩ := by
  decide +kernel

end Rdb

end Credis
