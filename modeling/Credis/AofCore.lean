import Credis.StoreCore
import Credis.RespCore
import Credis.Double

/-! `AofManager` over the files it writes. Opens and writes succeed; `fsync` and
its thread change no content and are left out. -/

namespace Credis

open ByteString

structure RewriteChild where
  snapshot : Store
  path : Bytes

/-- `aofFd` is the file the descriptor appends to. -/
structure AofManager where
  appendonly : Bytes
  appenddirname : Bytes
  appendfilename : Bytes
  appendfsync : Bytes
  aofFd : Option Bytes
  currentSeq : Int
  baseDir : Bytes
  rewriteInProgress : Bool
  rewriteChild : Option RewriteChild
  rewriteBuffer : Bytes
  rewriteTempFile : Bytes
  files : AList fun _ : Bytes => Bytes

namespace AofManager

variable (manager : AofManager) (store : Store) (baseDir : Bytes)

def initial : AofManager where
  appendonly := ascii "no"
  appenddirname := ascii "appendonlydir"
  appendfilename := ascii "appendonly.aof"
  appendfsync := ascii "everysec"
  aofFd := none
  currentSeq := 0
  baseDir := []
  rewriteInProgress := false
  rewriteChild := none
  rewriteBuffer := []
  rewriteTempFile := []
  files := ∅

def enabled : Bool := manager.appendonly == ascii "yes"

def directory : Bytes :=
  baseDir ++ ascii "/" ++ manager.appenddirname ++ ascii "/"

def incrName (sequence : Int) : Bytes :=
  manager.appendfilename ++ ascii "." ++ intText sequence ++ ascii ".incr.aof"

def manifestPath : Bytes :=
  manager.directory baseDir ++ manager.appendfilename ++ ascii ".manifest"

def manifestLine (sequence : Int) : Bytes :=
  ascii "file " ++ manager.incrName sequence ++ ascii " seq " ++ intText sequence ++
    ascii " type i" ++ [10]

def ensurePath (path content : Bytes) : AofManager :=
  if path ∈ manager.files then manager
  else { manager with files := manager.files.insert path content }

def ensureFile : AofManager :=
  if manager.enabled then
    manager.ensurePath (manager.directory baseDir ++ manager.incrName 1) []
  else manager

def ensureManifest : AofManager :=
  if manager.enabled then
    manager.ensurePath (manager.manifestPath baseDir) (manager.manifestLine 1)
  else manager

def isSpace (byte : UInt8) : Bool := byte == 32 || (9 ≤ byte && byte ≤ 13)

def words (text : Bytes) : List Bytes :=
  (text.splitOnP isSpace).filter fun word => word ≠ []

/-- An absent number leaves its initial value, text that is none stores zero. -/
def sequenceNumber : Option Bytes → Int
  | none => 1
  | some (45 :: digits) => -(digitsValue (digits.takeWhile isDigit))
  | some digits => digitsValue (digits.takeWhile isDigit)

def readAofContent : Bytes :=
  if manager.enabled then
    match manager.files.lookup (manager.manifestPath baseDir) with
    | none => []
    | some manifest =>
      (manager.files.lookup
        (manager.directory baseDir ++ ((words manifest)[1]?).getD [])).getD []
  else []

def openFile : AofManager :=
  if manager.enabled then
    let manager := { manager with baseDir := baseDir }
    match manager.files.lookup (manager.manifestPath baseDir) with
    | none => manager
    | some manifest =>
      let path := manager.directory baseDir ++ ((words manifest)[1]?).getD []
      let manager := manager.ensurePath path []
      { manager with
        currentSeq := sequenceNumber (words manifest)[3]?
        aofFd := some path }
  else manager

def appendTo (path data : Bytes) : AofManager :=
  { manager with
    files := manager.files.insert path ((manager.files.lookup path).getD [] ++ data) }

def append (data : Bytes) : AofManager :=
  match manager.aofFd with
  | none => manager
  | some path => manager.appendTo path data

def close : AofManager := { manager with aofFd := none }

def appendToRewriteBuffer (data : Bytes) : AofManager :=
  if manager.rewriteInProgress then
    { manager with rewriteBuffer := manager.rewriteBuffer ++ data }
  else manager

def setAppendonly (value : Bytes) : AofManager :=
  { manager with appendonly := value }

def setAppendfsync (value : Bytes) : AofManager :=
  { manager with appendfsync := value }

def encodeRespCommand (args : List Bytes) : Bytes :=
  ascii "*" ++ natText args.length ++ crlf ++
    args.flatMap fun arg => ascii "$" ++ natText arg.length ++ crlf ++ arg ++ crlf

def entryCommands (now : Time) (key : Key) (entry : Entry) : List (List Bytes) :=
  match entry.value with
  | .string text =>
    match entry.expiry with
    | some expiry =>
      if now < expiry then
        [[ascii "SET", key, text, ascii "PX", intText ((expiry - now) / 1000000)]]
      else [[ascii "SET", key, text]]
    | none => [[ascii "SET", key, text]]
  | .list items => if items = [] then [] else [ascii "RPUSH" :: key :: items]
  | .stream entries =>
    entries.map fun item =>
      ascii "XADD" :: key :: item.id :: item.fields.flatMap fun field => [field.1, field.2]
  | .zset set =>
    if set.entries = [] then []
    else
      [ascii "ZADD" :: key ::
        set.entries.flatMap fun item => [Double.formatGeneral 17 item.1, item.2]]

def rewriteChildMain (now : Time) : Bytes :=
  (store.validEntries now).flatMap fun item =>
    (entryCommands now item.1 item.2).flatMap encodeRespCommand

/-- `forked` tells whether `fork` succeeded. -/
def startRewrite (forked : Bool) : AofManager × Bool :=
  if manager.rewriteInProgress ∨ ¬manager.enabled then (manager, false)
  else
    let target := manager.appenddirname ++ ascii "/" ++ manager.incrName (manager.currentSeq + 1)
    let manager := { manager with baseDir := baseDir, rewriteTempFile := target }
    if forked then
      ({ manager with
          rewriteChild := some ⟨store, baseDir ++ ascii "/" ++ target⟩
          rewriteInProgress := true
          rewriteBuffer := [] }, true)
    else (manager, false)

inductive ChildStatus
  | running
  | succeeded
  | failed
  deriving DecidableEq

def childFile (now : Time) : AofManager :=
  match manager.rewriteChild with
  | none => manager
  | some child =>
    { manager with files := manager.files.insert child.path (rewriteChildMain child.snapshot now) }

def lastDirectory (path : Bytes) : Bytes :=
  (path.reverse.dropWhile fun byte => byte != 47).reverse

/-- The commands buffered since the fork go behind the snapshot. -/
def appendRewriteBuffer (path : Bytes) : AofManager :=
  if manager.rewriteBuffer = [] ∨ path ∉ manager.files then manager
  else manager.appendTo path manager.rewriteBuffer

def writeManifest (sequence : Int) : AofManager :=
  let path := manager.baseDir ++ ascii "/" ++ lastDirectory manager.rewriteTempFile ++
    manager.appendfilename ++ ascii ".manifest"
  { manager with files := manager.files.insert path (manager.manifestLine sequence) }

def finishRewrite (path : Bytes) (sequence : Int) : AofManager :=
  { ((manager.appendRewriteBuffer path).writeManifest sequence).ensurePath path [] with
    aofFd := some path
    currentSeq := sequence
    rewriteInProgress := false
    rewriteBuffer := []
    rewriteTempFile := [] }

def checkRewriteComplete (status : ChildStatus) (now : Time) : AofManager × Bool :=
  if manager.rewriteInProgress then
    match status with
    | .running => (manager, false)
    | .failed =>
      ({ manager with rewriteInProgress := false, rewriteChild := none, rewriteBuffer := [] },
        true)
    | .succeeded =>
      let path := manager.baseDir ++ ascii "/" ++ manager.rewriteTempFile
      let written : AofManager := { manager.childFile now with rewriteChild := none }
      (written.finishRewrite path (manager.currentSeq + 1), true)
  else (manager, false)

end AofManager

end Credis
