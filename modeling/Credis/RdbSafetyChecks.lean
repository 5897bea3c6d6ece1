import Credis.RdbCore

/-! The RDB parser on any file: its loops come to an end, and its reads stay inside the file
exactly when the end of the file cuts off no number. -/

namespace Credis

open ByteString

namespace Rdb

variable (width : Nat) (input : Bytes)

/-! What stands behind each part of a file, if the numbers in it are whole. A byte that is
missing elsewhere counts as zero, and a text may be cut off. -/

def numberAt : Option (Bytes × Bytes) :=
  if width ≤ input.length then some (input.take width, input.drop width) else none

def lengthAt : Option (Nat × Bytes) :=
  let first := (input.headD 0).toNat
  if first / 64 = 1 then
    some (first % 64 * 256 + (input.tail.headD 0).toNat, input.tail.tail)
  else if first / 64 = 2 then
    (numberAt 4 input.tail.tail).map fun number => (Reader.bigEndian number.1, number.2)
  else some (first % 64, input.tail)

def behindString : Option Bytes :=
  match input.head? with
  | none => some input
  | some first =>
    if first.toNat / 64 = 3 then
      if first.toNat % 64 = 0 then some input.tail.tail
      else if first.toNat % 64 = 1 then (numberAt 2 input.tail).map Prod.snd
      else if first.toNat % 64 = 2 then (numberAt 4 input.tail).map Prod.snd
      else some input.tail
    else (lengthAt input).map fun length => length.2.drop length.1

def behindStrings : Option Bytes := (behindString input).bind behindString

def behindSizes : Option Bytes :=
  if input.head? = some 0xFB then
    (lengthAt input.tail).bind fun table => (lengthAt table.2).map Prod.snd
  else some input

def behindExpiry : Option Bytes :=
  if input.head? = some 0xFD then (numberAt 4 input.tail).map Prod.snd
  else if input.head? = some 0xFC then (numberAt 8 input.tail).map Prod.snd
  else some input

def behindEntry : Option Bytes :=
  (behindExpiry input).bind fun rest => behindStrings rest.tail

def behindEntries : Nat → Bytes → Option Bytes
  | 0, input => some input
  | turns + 1, input =>
    match input.head? with
    | none => some input
    | some next =>
      if next = 0xFF ∨ next = 0xFE ∨ next = 0xFA then some input
      else (behindEntry input).bind (behindEntries turns)

def behindDatabase (turns : Nat) (input : Bytes) : Option Bytes :=
  ((lengthAt input).bind fun number => behindSizes number.2).bind (behindEntries turns)

def sectionsWhole (size : Nat) : Nat → Bytes → Bool
  | 0, _ => true
  | turns + 1, input =>
    match input.head? with
    | none => true
    | some op =>
      if op = 0xFA then (behindStrings input.tail).any (sectionsWhole size turns)
      else if op = 0xFE then (behindDatabase size input.tail).any (sectionsWhole size turns)
      else if op = 0xFF then true
      else sectionsWhole size turns input.tail

def numbersWhole (data : Bytes) : Bool :=
  if 9 ≤ data.length ∧ data.take 5 = ascii "REDIS" then
    sectionsWhole data.length data.length (data.drop 9)
  else true

namespace Reader

variable {reader next last : Reader}

def rest (reader : Reader) : Bytes := reader.data.drop reader.pos

theorem length_rest (reader : Reader) : reader.rest.length = reader.data.length - reader.pos :=
  List.length_drop

def Before (reader next : Reader) : Prop :=
  next.data = reader.data ∧ next.rest.length ≤ reader.rest.length

theorem Before.refl (reader : Reader) : reader.Before reader := ⟨rfl, Nat.le_refl _⟩

theorem Before.trans (first : reader.Before next) (second : next.Before last) :
    reader.Before last :=
  ⟨second.1.trans first.1, Nat.le_trans second.2 first.2⟩

/-- The read goes on in the file and leaves of it what the layout says, or a number is cut
off and the read goes behind the end. -/
def Leaves {α : Type} (reach : α → Reader) (reader : Reader) (read : Except Fault α)
    (layout : Option Bytes) : Prop :=
  (∃ done, read = .ok done ∧ reader.Before (reach done) ∧ layout = some (reach done).rest) ∨
    (read = .error .bufferOverread ∧ layout = none)

theorem Leaves.whole {α : Type} {reach : α → Reader} (done : α)
    (goes : reader.Before (reach done)) :
    Leaves reach reader (.ok done) (some (reach done).rest) := .inl ⟨done, rfl, goes, rfl⟩

theorem Leaves.cut {α : Type} {reach : α → Reader} :
    Leaves reach reader (.error .bufferOverread) none := .inr ⟨rfl, rfl⟩

theorem Leaves.from {α : Type} {reach : α → Reader} {read : Except Fault α}
    {layout : Option Bytes} (leaves : Leaves reach next read layout) (goes : reader.Before next) :
    Leaves reach reader read layout := by
  rcases leaves with ⟨done, rfl, further, rfl⟩ | ⟨rfl, rfl⟩
  · exact .whole done (goes.trans further)
  · exact .cut

def Follows {α : Type} (reader : Reader) (read : Except Fault (α × Reader))
    (layout : Option (α × Bytes)) : Prop :=
  (∃ value next, read = .ok (value, next) ∧ reader.Before next ∧
    layout = some (value, next.rest)) ∨ (read = .error .bufferOverread ∧ layout = none)

section

variable (reader : Reader)

theorem peek_rest : reader.peek = reader.rest.head? := List.head?_drop.symm

theorem readByte_rest :
    ∃ next, reader.readByte = (reader.rest.headD 0, next) ∧ reader.Before next ∧
      next.rest = reader.rest.tail := by
  unfold readByte
  split
  · rename_i more
    have tail : Reader.rest ⟨reader.data, reader.pos + 1, more⟩ = reader.rest.tail :=
      List.tail_drop.symm
    refine ⟨_, congrArg (·, _) ?_, ⟨rfl, ?_⟩, tail⟩
    · rw [rest, List.drop_eq_getElem_cons more]
      rfl
    · rw [tail, List.length_tail]
      omega
  · rename_i done
    have empty : reader.rest = [] := List.drop_of_length_le (Nat.not_lt.mp done)
    exact ⟨reader, by rw [empty]; rfl, .refl reader, by rw [empty]; rfl⟩

theorem readWidth_follows (width : Nat) :
    Follows reader (reader.readWidth width) (numberAt width reader.rest) := by
  have inside := reader.inside
  have length := reader.length_rest
  unfold readWidth numberAt
  split
  · rename_i fits
    have behind : Reader.rest ⟨reader.data, reader.pos + width, fits⟩ = reader.rest.drop width :=
      List.drop_drop.symm
    rw [if_pos (by omega), ← behind]
    refine .inl ⟨_, _, rfl, ⟨rfl, ?_⟩, rfl⟩
    rw [behind, List.length_drop]
    omega
  · rw [if_neg (by omega)]
    exact .inr ⟨rfl, rfl⟩

theorem readNumber_leaves {α β : Type} (width : Nat) (number : Bytes → α) (convert : α → β) :
    Leaves Prod.snd reader (((reader.readWidth width).map fun read =>
        (number read.1, read.2)).map fun read => (convert read.1, read.2))
      ((numberAt width reader.rest).map Prod.snd) := by
  rcases reader.readWidth_follows width with ⟨bytes, next, read, goes, layout⟩ | ⟨read, layout⟩
  · rw [read, layout]
    exact .whole (convert (number bytes), next) goes
  · rw [read, layout]
    exact .cut

theorem readLength_follows : Follows reader reader.readLength (lengthAt reader.rest) := by
  obtain ⟨one, first, goes, behind⟩ := reader.readByte_rest
  obtain ⟨two, second, further, beyond⟩ := one.readByte_rest
  rw [readLength, lengthAt, first]
  dsimp only
  rw [← behind, ← beyond]
  split
  · rw [second]
    exact .inl ⟨_, two, rfl, goes.trans further, rfl⟩
  split
  · rw [second, readBe32]
    rcases two.readWidth_follows 4 with ⟨bytes, next, read, onward, layout⟩ | ⟨read, layout⟩
    · rw [read, layout]
      exact .inl ⟨_, next, rfl, goes.trans (further.trans onward), rfl⟩
    · rw [read, layout]
      exact .inr ⟨rfl, rfl⟩
  · exact .inl ⟨_, one, rfl, goes, rfl⟩

theorem readBytes_rest (count : Nat) :
    (reader.readBytes count).2.rest = reader.rest.drop count := by
  have short := reader.length_rest
  rw [rest, readBytes, rest, List.drop_drop]
  dsimp only
  by_cases fits : count ≤ reader.data.length - reader.pos
  · rw [Nat.min_eq_left fits]
  · rw [List.drop_of_length_le (by omega), List.drop_of_length_le (by omega)]

theorem readString_leaves :
    Leaves Prod.snd reader reader.readString (behindString reader.rest) := by
  rw [readString, behindString, peek_rest]
  cases reader.rest.head? with
  | none => exact .whole ([], reader) (.refl reader)
  | some first =>
    obtain ⟨one, byte, goes, behind⟩ := reader.readByte_rest
    obtain ⟨two, second, further, beyond⟩ := one.readByte_rest
    dsimp only
    split
    · rw [byte, ← behind]
      dsimp only
      split
      · rw [second, ← beyond]
        exact .whole (_, two) (goes.trans further)
      split
      · exact (one.readNumber_leaves 2 littleEndian natText).from goes
      · split
        · exact (one.readNumber_leaves 4 littleEndian natText).from goes
        · exact .whole ([], one) goes
    · rcases reader.readLength_follows with ⟨length, next, read, goes, layout⟩ | ⟨read, layout⟩
      · have behind := next.readBytes_rest length
        rw [read, layout, Option.map_some, ← behind]
        refine .whole (next.readBytes length) (goes.trans ⟨rfl, ?_⟩)
        rw [behind, List.length_drop]
        omega
      · rw [read, layout]
        exact .cut

theorem skipSizes_leaves : Leaves id reader reader.skipSizes (behindSizes reader.rest) := by
  rw [skipSizes, behindSizes, peek_rest]
  split
  · obtain ⟨one, byte, goes, behind⟩ := reader.readByte_rest
    rw [byte, ← behind]
    rcases one.readLength_follows with ⟨_, two, read, further, layout⟩ | ⟨read, layout⟩
    · rw [layout, read]
      dsimp only [Option.bind]
      rcases two.readLength_follows with ⟨_, last, read, onward, layout⟩ | ⟨read, layout⟩
      · rw [layout, read]
        exact .whole last (goes.trans (further.trans onward))
      · rw [layout, read]
        exact .cut
    · rw [layout, read]
      exact .cut
  · exact .whole reader (.refl reader)

theorem readExpiry_leaves :
    Leaves Prod.snd reader reader.readExpiry (behindExpiry reader.rest) := by
  obtain ⟨one, byte, goes, behind⟩ := reader.readByte_rest
  rw [readExpiry, behindExpiry, peek_rest, byte, ← behind]
  dsimp only
  split
  · exact (one.readNumber_leaves 4 littleEndian fun seconds => some (seconds * 1000)).from goes
  · split
    · exact (one.readNumber_leaves 8 littleEndian some).from goes
    · exact .whole (none, reader) (.refl reader)

theorem readEntry_leaves :
    Leaves (fun done => done.2.2) reader.readByte.2 reader.readEntry
      (behindEntry reader.rest) := by
  obtain ⟨front, taken, goes, tail⟩ := reader.readByte_rest
  rw [readEntry, behindEntry, taken]
  rcases reader.readExpiry_leaves with ⟨⟨expireMs, next⟩, read, further, layout⟩ | ⟨read, layout⟩
  · obtain ⟨one, byte, onward, behind⟩ := next.readByte_rest
    have start : front.Before one := by
      refine ⟨onward.1.trans (further.1.trans goes.1.symm), ?_⟩
      rw [behind, tail, List.length_tail, List.length_tail]
      exact Nat.sub_le_sub_right further.2 1
    rw [layout, read]
    dsimp only [Option.bind]
    rw [byte, ← behind, behindStrings]
    rcases one.readString_leaves with ⟨⟨key, two⟩, read, second, layout⟩ | ⟨read, layout⟩
    · rw [layout, read]
      dsimp only [Option.bind]
      rcases two.readString_leaves with ⟨⟨value, last⟩, read, third, layout⟩ | ⟨read, layout⟩
      · rw [layout, read]
        exact .whole (key, RdbEntry.mk value expireMs, last) (start.trans (second.trans third))
      · rw [layout, read]
        exact .cut
    · rw [layout, read]
      exact .cut
  · rw [layout, read]
    exact .cut

end

end Reader

open Reader (Leaves)

theorem readAux_leaves (reader : Reader) :
    Leaves id reader (readAux reader) (behindStrings reader.rest) := by
  rw [readAux, behindStrings]
  rcases reader.readString_leaves with ⟨⟨_, one⟩, read, goes, layout⟩ | ⟨read, layout⟩
  · rw [layout, read]
    dsimp only [Option.bind]
    rcases one.readString_leaves with ⟨⟨_, last⟩, read, further, layout⟩ | ⟨read, layout⟩
    · rw [layout, read]
      exact .whole last (goes.trans further)
    · rw [layout, read]
      exact .cut
  · rw [layout, read]
    exact .cut

theorem readEntries_leaves (turns : Nat) (reader : Reader) (entries : Entries) :
    Leaves Prod.fst reader (readEntries turns reader entries)
      (behindEntries turns reader.rest) := by
  induction turns generalizing reader entries with
  | zero => exact .whole (reader, entries) (.refl reader)
  | succ turns ih =>
    rw [readEntries, behindEntries, reader.peek_rest]
    cases reader.rest.head? with
    | none => exact .whole (reader, entries) (.refl reader)
    | some next =>
      dsimp only
      split
      · exact .whole (reader, entries) (.refl reader)
      obtain ⟨front, taken, goes, -⟩ := reader.readByte_rest
      rcases reader.readEntry_leaves with ⟨done, read, further, layout⟩ | ⟨read, layout⟩
      · rw [taken] at further
        rw [layout, read]
        exact (ih done.2.2 _).from (goes.trans further)
      · rw [layout, read]
        exact .cut

theorem readDatabase_leaves (reader : Reader) (entries : Entries) :
    Leaves Prod.fst reader (readDatabase reader entries)
      (behindDatabase reader.data.length reader.rest) := by
  rw [readDatabase, behindDatabase]
  rcases reader.readLength_follows with ⟨_, one, read, goes, layout⟩ | ⟨read, layout⟩
  · rw [layout, read]
    dsimp only [Option.bind]
    rcases one.skipSizes_leaves with ⟨last, read, further, layout⟩ | ⟨read, layout⟩
    · rw [layout, read, ← (goes.trans further).1]
      exact (readEntries_leaves _ last entries).from (goes.trans further)
    · rw [layout, read]
      exact .cut
  · rw [layout, read]
    exact .cut

theorem readSections_isOk (turns : Nat) (reader : Reader) (entries : Entries) :
    (readSections turns reader entries).isOk =
      sectionsWhole reader.data.length turns reader.rest := by
  induction turns generalizing reader entries with
  | zero => rfl
  | succ turns ih =>
    obtain ⟨one, byte, goes, behind⟩ := reader.readByte_rest
    rw [readSections, sectionsWhole, reader.peek_rest, byte, ← behind, ← goes.1]
    cases reader.rest.head? with
    | none => rfl
    | some op =>
      dsimp only
      split
      · rcases readAux_leaves one with ⟨next, read, further, layout⟩ | ⟨read, layout⟩
        · rw [layout, read, ← further.1]
          exact ih next entries
        · rw [layout, read]
          rfl
      · split
        · rcases readDatabase_leaves one entries with
            ⟨done, read, further, layout⟩ | ⟨read, layout⟩
          · rw [layout, read, ← further.1]
            exact ih done.1 done.2
          · rw [layout, read]
            rfl
        · split
          · rfl
          · exact ih one entries

theorem parseRdb_isOk (data : Bytes) : (parseRdb data).isOk = numbersWhole data := by
  unfold parseRdb numbersWhole
  by_cases header : 9 ≤ data.length
  · by_cases named : data.take 5 = ascii "REDIS"
    · rw [dif_pos header, if_pos named, if_pos ⟨header, named⟩]
      exact readSections_isOk data.length ⟨data, 9, header⟩ ∅
    · rw [dif_pos header, if_neg named, if_neg fun both => named both.2]
      rfl
  · rw [dif_neg header, if_neg fun both => header both.1]
    rfl

variable {reader : Reader} {turns : Nat} {entries : Entries}

theorem readEntries_enough (enough : reader.rest.length ≤ turns) :
    readEntries turns reader entries = readEntries (turns + 1) reader entries := by
  induction turns generalizing reader entries with
  | zero =>
    rw [readEntries, readEntries, reader.peek_rest,
      List.length_eq_zero_iff.mp (Nat.le_zero.mp enough)]
    rfl
  | succ turns ih =>
    obtain ⟨front, taken, -, tail⟩ := reader.readByte_rest
    rw [readEntries, readEntries, reader.peek_rest]
    cases reader.rest.head? with
    | none => rfl
    | some next =>
      dsimp only
      split
      · rfl
      rcases reader.readEntry_leaves with ⟨done, read, further, -⟩ | ⟨read, -⟩
      · have shorter := further.2
        rw [taken, tail, List.length_tail] at shorter
        rw [read]
        exact ih (Nat.le_trans shorter (by omega))
      · rw [read]

theorem readSections_enough (enough : reader.rest.length ≤ turns) :
    readSections turns reader entries = readSections (turns + 1) reader entries := by
  induction turns generalizing reader entries with
  | zero =>
    rw [readSections, readSections, reader.peek_rest,
      List.length_eq_zero_iff.mp (Nat.le_zero.mp enough)]
    rfl
  | succ turns ih =>
    obtain ⟨one, byte, -, tail⟩ := reader.readByte_rest
    have less : one.rest.length ≤ turns := by
      rw [tail, List.length_tail]
      omega
    rw [readSections, readSections, reader.peek_rest, byte]
    cases reader.rest.head? with
    | none => rfl
    | some op =>
      dsimp only
      split
      · rcases readAux_leaves one with ⟨next, read, further, -⟩ | ⟨read, -⟩
        · rw [read]
          exact ih (Nat.le_trans further.2 less)
        · rw [read]
      · split
        · rcases readDatabase_leaves one entries with ⟨done, read, further, -⟩ | ⟨read, -⟩
          · rw [read]
            exact ih (Nat.le_trans further.2 less)
          · rw [read]
        · split
          · rfl
          · exact ih less

/-- On any file neither loop takes more turns than there are bytes left, and all bytes that
are read lie in the file exactly when the numbers in it are whole. -/
theorem rdb_reads_inside_iff (data : Bytes) :
    ((parseRdb data).isOk = true ↔ numbersWhole data = true) ∧
    ∀ (reader : Reader) entries turns, reader.rest.length ≤ turns →
      readEntries turns reader entries = readEntries (turns + 1) reader entries ∧
      readSections turns reader entries = readSections (turns + 1) reader entries := by
  refine ⟨by rw [parseRdb_isOk], fun reader entries turns enough => ?_⟩
  exact ⟨readEntries_enough enough, readSections_enough enough⟩

/-- Files that end behind the mark of a number of two bytes, and inside a length. -/
theorem rdb_reads_behind_end :
    (parseRdb (ascii "REDIS0011" ++ [0xFA, 0xC1])).isOk = false ∧
    (parseRdb (ascii "REDIS0011" ++ [0xFA, 0x80, 0, 1])).isOk = false := by
  rw [ascii_eq rfl]
  exact ⟨by decide +kernel, by decide +kernel⟩

end Rdb

end Credis
