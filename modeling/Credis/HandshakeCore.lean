import Credis.ReplicaCore

/-! `connect_if_replica`: how a replica opens the stream of its master. The socket
is an input: the pieces in which the bytes of the master arrive. Every send
succeeds. -/

namespace Credis

open ByteString

/-- One `read` of at most `limit` bytes: it takes from the first piece only, and a
piece without bytes is the end of the stream. -/
def readSocket (limit : Nat) : List Bytes → Option (Bytes × List Bytes)
  | [] => none
  | piece :: rest =>
    if piece.take limit = [] then none
    else
      some (piece.take limit,
        if piece.drop limit = [] then rest else piece.drop limit :: rest)

def findCrlf : Bytes → Option Nat
  | [] => none
  | byte :: rest =>
    if byte = 13 ∧ rest.head? = some 10 then some 0 else (findCrlf rest).map (· + 1)

/-- `from_chars` for an `int`: the number in front, whatever stands behind it. -/
def readInt32 (text : Bytes) : Option Int :=
  let number :=
    match text with
    | 45 :: digits => 45 :: digits.takeWhile isDigit
    | digits => digits.takeWhile isDigit
  (parseInteger number).filter fun value => decide (-(2 ^ 31) ≤ value ∧ value < 2 ^ 31)

/-- The connector in its handshake, with what it has sent and what is still to be
read. -/
structure Handshake where
  connector : ReplicaConnector
  sent : List Bytes
  socket : List Bytes
  deriving DecidableEq

namespace Handshake

variable (shake : Handshake)

def start (fd : Fd) (socket : List Bytes) : Handshake := ⟨⟨fd, [], 0⟩, [], socket⟩

def sendAndExpect (args : List Bytes) (expected : Bytes) : Option Handshake :=
  match readSocket 256 shake.socket with
  | none => none
  | some (response, rest) =>
    if response = expected then
      some { shake with sent := shake.sent ++ [encodeArray args], socket := rest }
    else none

def sendPing : Option Handshake :=
  shake.sendAndExpect [ascii "PING"] respPong

def sendReplconf (listeningPort : Int) : Option Handshake :=
  (shake.sendAndExpect [ascii "REPLCONF", ascii "listening-port", intText listeningPort]
    respOk).bind fun shake =>
      shake.sendAndExpect [ascii "REPLCONF", ascii "capa", ascii "psync2"] respOk

/-- The first line of the answer is dropped with all that stands in it, the rest of
what was read with it is kept. -/
def sendPsync : Option Handshake :=
  match readSocket 512 shake.socket with
  | none => none
  | some (every, rest) =>
    if ascii "+FULLRESYNC" <+: every then
      (findCrlf every).map fun line =>
        let remaining := every.drop (line + 2)
        { connector :=
            if remaining = [] then shake.connector
            else { shake.connector with pendingBuffer := remaining }
          sent := shake.sent ++ [encodeArray [ascii "PSYNC", ascii "?", ascii "-1"]]
          socket := rest }
    else none

def readRest : Nat → Nat → List Bytes → Option (Bytes × List Bytes)
  | 0, _, socket => some ([], socket)
  | fuel + 1, missing, socket =>
    if missing = 0 then some ([], socket)
    else
      match readSocket missing socket with
      | none => none
      | some (piece, rest) =>
        (readRest fuel (missing - piece.length) rest).map fun result =>
          (piece ++ result.1, result.2)

/-- The header is there, with its line end at the index: the content is taken from
what was read with the header and from the socket. -/
def receiveContent (header : Bytes) (line : Nat) : Option (Bytes × Handshake) :=
  if header.head? ≠ some 36 then none
  else
    match readInt32 ((header.take line).drop 1) with
    | none => none
    | some length =>
      if length ≤ 0 then none
      else
        let available := header.drop (line + 2)
        let copied := available.take length.toNat
        let missing := length.toNat - copied.length
        (readRest missing missing shake.socket).map fun result =>
          (copied ++ result.1,
            { shake with
              connector := { shake.connector with pendingBuffer := available.drop length.toNat }
              socket := result.2 })

/-- The outer loop of `receive_rdb`; every turn reads a byte or more. -/
def receiveHeader : Nat → Handshake → Bytes → Option (Bytes × Handshake)
  | 0, _, _ => none
  | fuel + 1, shake, header =>
    match findCrlf header with
    | some line => shake.receiveContent header line
    | none =>
      match readSocket 256 shake.socket with
      | none => none
      | some (piece, rest) =>
        receiveHeader fuel { shake with socket := rest } (header ++ piece)

def receiveRdb : Option (Bytes × Handshake) :=
  receiveHeader (shake.socket.flatten.length + 1)
    { shake with connector := { shake.connector with pendingBuffer := [] } }
    shake.connector.pendingBuffer

def connectIfReplica (config : ServerConfig) (listeningPort : Int) (fd : Fd)
    (socket : List Bytes) : Option Handshake :=
  match config.replica with
  | none => none
  | some _ => do
      let shake ← (start fd socket).sendPing
      let shake ← shake.sendReplconf listeningPort
      let shake ← shake.sendPsync
      let (_, shake) ← shake.receiveRdb
      some shake

end Handshake

end Credis
