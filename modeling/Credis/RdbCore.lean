import Credis.SystemCore

/-! The RDB file and the start of the server. A read behind the end of the file is
undefined in the source and a fault here. The file of a start is given by its
content, and nothing is given when it cannot be opened. -/

namespace Credis

open ByteString

structure RdbEntry where
  value : Bytes
  expireMs : Option Nat
  deriving DecidableEq

namespace Rdb

structure Reader where
  data : Bytes
  pos : Nat
  inside : pos ≤ data.length

namespace Reader

variable (reader : Reader)

def peek : Option UInt8 := reader.data[reader.pos]?

def readByte : UInt8 × Reader :=
  if more : reader.pos < reader.data.length then
    (reader.data[reader.pos], ⟨reader.data, reader.pos + 1, more⟩)
  else (0, reader)

def readBytes (count : Nat) : Bytes × Reader :=
  ((reader.data.drop reader.pos).take count,
    ⟨reader.data, reader.pos + min count (reader.data.length - reader.pos), by
      have := reader.inside
      omega⟩)

/-- The bytes of a number of this width, which nothing in the source keeps inside
the file. -/
def readWidth (width : Nat) : Except Fault (Bytes × Reader) :=
  if fits : reader.pos + width ≤ reader.data.length then
    .ok ((reader.data.drop reader.pos).take width, ⟨reader.data, reader.pos + width, fits⟩)
  else .error .bufferOverread

def bigEndian (bytes : Bytes) : Nat :=
  bytes.foldl (fun value byte => value * 256 + byte.toNat) 0

def littleEndian (bytes : Bytes) : Nat := bigEndian bytes.reverse

def readBe32 : Except Fault (Nat × Reader) :=
  (reader.readWidth 4).map fun read => (bigEndian read.1, read.2)

def readLe16 : Except Fault (Nat × Reader) :=
  (reader.readWidth 2).map fun read => (littleEndian read.1, read.2)

def readLe32 : Except Fault (Nat × Reader) :=
  (reader.readWidth 4).map fun read => (littleEndian read.1, read.2)

def readLe64 : Except Fault (Nat × Reader) :=
  (reader.readWidth 8).map fun read => (littleEndian read.1, read.2)

/-- The long form skips one byte more before it reads the number. -/
def readLength : Except Fault (Nat × Reader) :=
  let (first, reader) := reader.readByte
  let low := first.toNat % 64
  if first.toNat / 64 = 1 then
    let (second, reader) := reader.readByte
    .ok (low * 256 + second.toNat, reader)
  else if first.toNat / 64 = 2 then reader.readByte.2.readBe32
  else .ok (low, reader)

def readString : Except Fault (Bytes × Reader) :=
  match reader.peek with
  | none => .ok ([], reader)
  | some first =>
    if first.toNat / 64 = 3 then
      let reader := reader.readByte.2
      if first.toNat % 64 = 0 then
        let (value, reader) := reader.readByte
        .ok (natText value.toNat, reader)
      else if first.toNat % 64 = 1 then
        reader.readLe16.map fun read => (natText read.1, read.2)
      else if first.toNat % 64 = 2 then
        reader.readLe32.map fun read => (natText read.1, read.2)
      else .ok ([], reader)
    else reader.readLength.map fun read => read.2.readBytes read.1

def skipSizes : Except Fault Reader :=
  if reader.peek = some 0xFB then
    match reader.readByte.2.readLength with
    | .error fault => .error fault
    | .ok (_, reader) => reader.readLength.map Prod.snd
  else .ok reader

def readExpiry : Except Fault (Option Nat × Reader) :=
  if reader.peek = some 0xFD then
    reader.readByte.2.readLe32.map fun read => (some (read.1 * 1000), read.2)
  else if reader.peek = some 0xFC then
    reader.readByte.2.readLe64.map fun read => (some read.1, read.2)
  else .ok (none, reader)

/-- The byte in front of the key, which is the type of the value, is skipped. -/
def readEntry : Except Fault (Key × RdbEntry × Reader) :=
  match reader.readExpiry with
  | .error fault => .error fault
  | .ok (expireMs, reader) =>
    match reader.readByte.2.readString with
    | .error fault => .error fault
    | .ok (key, reader) =>
      reader.readString.map fun read => (key, ⟨read.1, expireMs⟩, read.2)

end Reader

variable (store : Store) (config : ServerConfig) (file : Option Bytes) (now : Instant)

abbrev Entries := AList fun _ : Key => RdbEntry

def emplace (entries : Entries) (key : Key) (entry : RdbEntry) : Entries :=
  if key ∈ entries then entries else entries.insert key entry

/-- The entries of one database. Every turn takes a byte, so the size of the file is
fuel enough. -/
def readEntries : Nat → Reader → Entries → Except Fault (Reader × Entries)
  | 0, reader, entries => .ok (reader, entries)
  | fuel + 1, reader, entries =>
    match reader.peek with
    | none => .ok (reader, entries)
    | some next =>
      if next = 0xFF ∨ next = 0xFE ∨ next = 0xFA then .ok (reader, entries)
      else
        match reader.readEntry with
        | .error fault => .error fault
        | .ok (key, entry, reader) => readEntries fuel reader (emplace entries key entry)

def readAux (reader : Reader) : Except Fault Reader :=
  match reader.readString with
  | .error fault => .error fault
  | .ok (_, reader) => reader.readString.map Prod.snd

def readDatabase (reader : Reader) (entries : Entries) : Except Fault (Reader × Entries) :=
  match reader.readLength with
  | .error fault => .error fault
  | .ok (_, reader) =>
    match reader.skipSizes with
    | .error fault => .error fault
    | .ok reader => readEntries reader.data.length reader entries

def readSections : Nat → Reader → Entries → Except Fault Entries
  | 0, _, entries => .ok entries
  | fuel + 1, reader, entries =>
    match reader.peek with
    | none => .ok entries
    | some op =>
      let reader := reader.readByte.2
      if op = 0xFA then
        match readAux reader with
        | .error fault => .error fault
        | .ok reader => readSections fuel reader entries
      else if op = 0xFE then
        match readDatabase reader entries with
        | .error fault => .error fault
        | .ok (reader, entries) => readSections fuel reader entries
      else if op = 0xFF then .ok entries
      else readSections fuel reader entries

def parseRdb (data : Bytes) : Except Fault Entries :=
  if header : 9 ≤ data.length then
    if data.take 5 = ascii "REDIS" then readSections data.length ⟨data, 9, header⟩ ∅
    else .ok ∅
  else .ok ∅

def loadRdbFile : Option Bytes → Except Fault Entries
  | none => .ok ∅
  | some data => parseRdb data

def ttlMs (system : Int) (entry : RdbEntry) : Option (Option Nat) :=
  match entry.expireMs with
  | none => some none
  | some expireMs =>
    let remaining := wrap64 (wrap64 expireMs - system)
    if remaining ≤ 0 then none else some (some remaining.toNat)

def loadEntry (store : Store) (key : Key) (entry : RdbEntry) : Store :=
  match ttlMs now.system entry with
  | none => store
  | some ttl => store.set now.steady key entry.value ttl

def fileEntries : Except Fault Entries :=
  if config.dir = [] ∨ config.dbfilename = [] then .ok ∅ else loadRdbFile file

def loadIntoStore : Except Fault Store :=
  (fileEntries config file).map fun entries =>
    entries.entries.foldl (fun store item => loadEntry now store item.1 item.2) store

end Rdb

namespace CommandContext

def replayLog (handler : CommandContext) (content : Bytes) : Except Fault CommandContext :=
  if content = [] then .ok handler else (handler.process content).map Prod.fst

/-- `main` up to the event loop, for a server that is no replica: the log is
replayed, then the RDB file is loaded into the same keyspace. -/
def boot (config : ServerConfig) (aof : AofManager) (file : Option Bytes) (clock : Nat → Instant)
    (forks : Nat → Bool) : Except Fault CommandContext :=
  let aof := (aof.ensureFile config.dir).ensureManifest config.dir
  match (fresh Store.empty config clock forks).replayLog (aof.readAofContent config.dir) with
  | .error fault => .error fault
  | .ok handler =>
    (Rdb.loadIntoStore handler.store config file (handler.clock handler.ticks)).map fun store =>
      { handler with
        store := store
        ticks := handler.ticks + 1
        aofManager := some (aof.openFile config.dir)
        blockingManager := some BlockingManager.empty
        pubsubManager := some PubSubManager.empty
        replicaCount := some 0
        offset := some 0
        connPool := some ConnectionPool.empty }

end CommandContext

end Credis
