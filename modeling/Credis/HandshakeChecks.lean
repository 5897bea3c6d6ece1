import Credis.HandshakeCore
import Credis.LinkChecks
import Credis.ReplyChecks

/-! A replica that joins late. The line that opens its stream tells the offset of
the master; the handshake drops the line, so the replica counts from zero and
what it acknowledges is short by that offset. -/

namespace Credis

open ByteString MarkedStream ChunkedStream ServerState Replication ReplicaConnector
open ProcessedBuffer ReplicaManager
open Run List

variable {shake : Handshake} {line piece text held : Bytes} {offset : Int}
  {socket args : List Bytes} {index fuel : Nat} {fd : Fd} {net : Replication}

variable {answers : List Answer} {after : Bytes} {state : HandlerState}
  {pieces messages : List Bytes} {replicas : List ReplicaState} {outputs : List ProcessedBuffer}
  {limit consumed : Nat} {event : ReplicationEvent} {last : ReplicaConnector}
  {output : ProcessedBuffer}

theorem readSocket_ok {rest : List Bytes} (read : readSocket limit socket = some (piece, rest)) :
    socket.flatten = piece ++ rest.flatten ∧ piece.length ≤ limit ∧ piece ≠ [] := by
  unfold readSocket at read
  split at read
  · cases read
  rename_i first others
  split at read
  · cases read
  rename_i given
  cases read
  refine ⟨?_, by simp, given⟩
  split
  · rename_i whole
    rw [flatten_cons, take_of_length_le (drop_eq_nil_iff.mp whole)]
  · rw [flatten_cons, flatten_cons, ← append_assoc, take_append_drop]

theorem readSocket_some (full : ∀ piece ∈ socket, piece ≠ []) (more : socket.flatten ≠ [])
    (positive : 0 < limit) :
    ∃ piece rest, readSocket limit socket = some (piece, rest) ∧ ∀ piece ∈ rest, piece ≠ [] := by
  cases socket with
  | nil => exact absurd rfl more
  | cons piece rest =>
    rw [forall_mem_cons] at full
    refine ⟨_, _, if_neg ?_, ?_⟩
    · rw [take_eq_nil_iff]
      rintro (zero | nothing)
      · omega
      · exact full.1 nothing
    · split
      · exact full.2
      · rename_i left
        exact forall_mem_cons.mpr ⟨left, full.2⟩

theorem readInt32_natText {value : Nat} (small : value < 2 ^ 31) :
    readInt32 (natText value) = some (value : Int) := by
  unfold readInt32
  split
  · rename_i digits dash
    have decimal := natText_digits value
    rw [dash, all_cons] at decimal
    cases decimal
  · rw [takeWhile_natText]
    dsimp only
    rw [parseInteger_natText, Option.filter_some, if_pos (decide_eq_true (by omega))]

theorem findCrlf_bound (found : findCrlf text = some index) : index + 2 ≤ text.length := by
  induction text generalizing index with
  | nil => cases found
  | cons byte text ih =>
    unfold findCrlf at found
    split at found
    · rename_i here
      cases found
      cases text with
      | nil => simp at here
      | cons => simp
    · obtain ⟨before, earlier, rfl⟩ := Option.map_eq_some_iff.mp found
      have bound := ih earlier
      rw [length_cons]
      omega

theorem findCrlf_append (found : findCrlf text = some index) (rest : Bytes) :
    findCrlf (text ++ rest) = some index := by
  induction text generalizing index with
  | nil => cases found
  | cons byte text ih =>
    cases text with
    | nil =>
      have bound := findCrlf_bound found
      simp at bound
    | cons next text =>
      rw [findCrlf] at found
      rw [cons_append, findCrlf]
      split at found
      · rename_i here
        cases found
        exact if_pos here
      · rename_i elsewhere
        obtain ⟨before, earlier, rfl⟩ := Option.map_eq_some_iff.mp found
        rw [ih earlier]
        exact if_neg elsewhere

theorem findCrlf_line (plain : 13 ∉ line) (rest : Bytes) :
    findCrlf (line ++ (crlf ++ rest)) = some line.length := by
  induction line with
  | nil => rfl
  | cons byte line ih =>
    have other : byte ≠ 13 := fun same => plain (by simp [same])
    have later := ih fun member => plain (by simp [member])
    simp only [cons_append, findCrlf, other, false_and, if_false, later, Option.map_some,
      length_cons]

theorem findCrlf_read {unread : Bytes} (plain : 13 ∉ line)
    (text : piece ++ unread = line ++ (crlf ++ after)) (found : findCrlf piece = some index) :
    index = line.length ∧ piece.drop (index + 2) ++ unread = after := by
  have whole := findCrlf_append found unread
  rw [text, findCrlf_line plain] at whole
  cases whole
  have bound := findCrlf_bound found
  have behind := congrArg (drop (line.length + 2)) text
  have skipped : (line ++ (crlf ++ after)).drop (line.length + 2) = after := by
    rw [← drop_drop, drop_left]
    rfl
  rw [drop_append_of_le_length bound, skipped] at behind
  exact ⟨rfl, behind⟩

namespace Handshake

def coming (shake : Handshake) : Bytes := shake.connector.pendingBuffer ++ shake.socket.flatten

theorem sendAndExpect_ok {next : Handshake} {expected : Bytes}
    (done : shake.sendAndExpect args expected = some next) :
    next.connector = shake.connector ∧
      shake.socket.flatten = expected ++ next.socket.flatten := by
  unfold sendAndExpect at done
  split at done
  · cases done
  rename_i response rest read
  split at done
  · rename_i same
    cases done
    rw [← same]
    exact ⟨rfl, (readSocket_ok read).1⟩
  · cases done

theorem sendPsync_ok {next : Handshake} (done : shake.sendPsync = some next)
    (idle : shake.connector.pendingBuffer = []) (plain : 13 ∉ line)
    (text : shake.socket.flatten = line ++ (crlf ++ after)) :
    next.connector.fd = shake.connector.fd ∧ next.connector.offset = shake.connector.offset ∧
      next.coming = after := by
  unfold sendPsync at done
  split at done
  · cases done
  rename_i every rest read
  split at done
  · obtain ⟨index, found, rfl⟩ := Option.map_eq_some_iff.mp done
    have arrived := (readSocket_ok read).1
    rw [text] at arrived
    obtain ⟨rfl, behind⟩ := findCrlf_read plain arrived.symm found
    refine ⟨?_, ?_, ?_⟩
    · dsimp only
      split <;> rfl
    · dsimp only
      split <;> rfl
    · unfold coming
      dsimp only
      split
      · rename_i nothing
        rw [idle, ← behind, nothing]
      · exact behind
  · cases done

theorem readRest_ok {missing : Nat} {rest : List Bytes} {bytes : Bytes}
    (done : readRest fuel missing socket = some (bytes, rest)) (enough : missing ≤ fuel) :
    socket.flatten = bytes ++ rest.flatten ∧ bytes.length = missing := by
  induction fuel generalizing missing socket bytes with
  | zero =>
    cases done
    exact ⟨rfl, (Nat.le_zero.mp enough).symm⟩
  | succ fuel ih =>
    unfold readRest at done
    split at done
    · rename_i complete
      cases done
      exact ⟨rfl, complete.symm⟩
    · split at done
      · cases done
      · rename_i piece others read
        obtain ⟨⟨later, left⟩, further, same⟩ := Option.map_eq_some_iff.mp done
        cases same
        obtain ⟨text, most, given⟩ := readSocket_ok read
        have positive := length_pos_iff.mpr given
        obtain ⟨behind, length⟩ := ih further (by omega)
        refine ⟨by rw [text, behind, append_assoc], ?_⟩
        rw [length_append, length]
        omega

theorem readRest_some {missing : Nat} (full : ∀ piece ∈ socket, piece ≠ [])
    (enough : missing ≤ socket.flatten.length) :
    ∃ result, readRest fuel missing socket = some result := by
  induction fuel generalizing missing socket with
  | zero => exact ⟨_, rfl⟩
  | succ fuel ih =>
    unfold readRest
    split
    · exact ⟨_, rfl⟩
    rename_i given
    obtain ⟨piece, rest, read, others⟩ := readSocket_some full
      (by rintro nothing; simp [nothing] at enough; omega) (Nat.pos_of_ne_zero given)
    have length := congrArg length (readSocket_ok read).1
    rw [length_append] at length
    obtain ⟨result, further⟩ := @ih rest (missing - piece.length) others (by omega)
    exact ⟨_, by rw [read]; dsimp only; rw [further]; rfl⟩

section Transfer

variable {header content after rdb : Bytes} {next : Handshake}

structure Carries (line content after arrived : Bytes) : Prop where
  dollar : line.head? = some 36
  size : readInt32 (line.drop 1) = some (content.length : Int)
  plain : 13 ∉ line
  full : content ≠ []
  text : arrived = line ++ (crlf ++ (content ++ after))

theorem receiveContent_eq (carries : Carries line content after (header ++ shake.socket.flatten))
    (found : findCrlf header = some index) :
    header.drop (index + 2) ++ shake.socket.flatten = content ++ after ∧
      shake.receiveContent header index =
        (readRest (content.length - (header.drop (index + 2)).length)
            (content.length - (header.drop (index + 2)).length) shake.socket).map fun result =>
          ((header.drop (index + 2)).take content.length ++ result.1,
            { shake with
              connector :=
                { shake.connector with
                  pendingBuffer := (header.drop (index + 2)).drop content.length }
              socket := result.2 }) := by
  obtain ⟨dollar, size, plain, full, text⟩ := carries
  obtain ⟨rfl, behind⟩ := findCrlf_read plain text found
  refine ⟨behind, ?_⟩
  have bound := findCrlf_bound found
  have front := congrArg (take line.length) text
  rw [take_append_of_le_length (by omega), take_left] at front
  have opens : header.head? = some 36 := by
    rw [← dollar, ← front, head?_take, if_neg]
    rintro nothing
    rw [length_eq_zero_iff.mp nothing] at dollar
    cases dollar
  have positive := length_pos_iff.mpr full
  rw [receiveContent, if_neg (not_not.mpr opens), front, size]
  dsimp only
  rw [if_neg (by omega), Int.toNat_natCast, length_take,
    show content.length - min content.length (header.drop (line.length + 2)).length =
      content.length - (header.drop (line.length + 2)).length by omega]

theorem receiveContent_ok (done : shake.receiveContent header index = some (rdb, next))
    (carries : Carries line content after (header ++ shake.socket.flatten))
    (found : findCrlf header = some index) :
    rdb = content ∧ next.connector.fd = shake.connector.fd ∧
      next.connector.offset = shake.connector.offset ∧ next.coming = after := by
  obtain ⟨behind, same⟩ := receiveContent_eq carries found
  rw [same] at done
  obtain ⟨⟨bytes, rest⟩, filled, same⟩ := Option.map_eq_some_iff.mp done
  cases same
  obtain ⟨read, length⟩ := readRest_ok filled (Nat.le_refl _)
  rw [read] at behind
  have parts : ((header.drop (index + 2)).take content.length ++ bytes) ++
      ((header.drop (index + 2)).drop content.length ++ rest.flatten) = content ++ after := by
    rw [← behind]
    rcases Nat.le_total content.length (header.drop (index + 2)).length with held | short
    · rw [eq_nil_of_length_eq_zero (length.trans (by omega)), append_nil,
        ← append_assoc, take_append_drop, nil_append]
    · rw [take_of_length_le short, drop_of_length_le short, nil_append,
        append_assoc]
  obtain ⟨whole, left⟩ := append_inj parts
    (by rw [length_append, length_take]; omega)
  exact ⟨whole, rfl, rfl, left⟩

theorem receiveHeader_ok (done : receiveHeader fuel shake header = some (rdb, next))
    (carries : Carries line content after (header ++ shake.socket.flatten)) :
    rdb = content ∧ next.connector.fd = shake.connector.fd ∧
      next.connector.offset = shake.connector.offset ∧ next.coming = after := by
  induction fuel generalizing shake header with
  | zero => cases done
  | succ fuel ih =>
    unfold receiveHeader at done
    split at done
    · rename_i index found
      exact receiveContent_ok done carries found
    split at done
    · cases done
    rename_i piece rest read
    have arrived := (readSocket_ok read).1
    exact @ih { shake with socket := rest } _ done
      (by rwa [append_assoc, ← arrived])

theorem receiveHeader_some (full : ∀ piece ∈ shake.socket, piece ≠ [])
    (carries : Carries line content after (header ++ shake.socket.flatten))
    (enough : shake.socket.flatten.length < fuel) :
    ∃ result, receiveHeader fuel shake header = some result := by
  induction fuel generalizing shake header with
  | zero => cases enough
  | succ fuel ih =>
    unfold receiveHeader
    split
    · rename_i index found
      obtain ⟨behind, same⟩ := receiveContent_eq carries found
      have length := congrArg length behind
      rw [length_append, length_append] at length
      obtain ⟨result, filled⟩ := @readRest_some _ _
        (content.length - (header.drop (index + 2)).length) full (by omega)
      rw [same, filled]
      exact ⟨_, rfl⟩
    · rename_i unfinished
      have more : shake.socket.flatten ≠ [] := by
        intro nothing
        have text := carries.text
        rw [nothing, append_nil] at text
        rw [text, findCrlf_line carries.plain] at unfinished
        cases unfinished
      obtain ⟨piece, rest, read, others⟩ := readSocket_some full more (by decide : 0 < 256)
      obtain ⟨arrived, -, given⟩ := readSocket_ok read
      have length := congrArg length arrived
      have positive := length_pos_iff.mpr given
      rw [length_append] at length
      rw [read]
      exact @ih { shake with socket := rest } _ others
        (by rwa [append_assoc, ← arrived]) (by dsimp only; omega)

/-- However the stream is cut, the RDB is taken out of it exactly. -/
theorem rdb_is_cut_out (content tail : Bytes) (full : content ≠ [])
    (small : content.length < 2 ^ 31) (shake : Handshake)
    (stream : shake.coming = 36 :: natText content.length ++ crlf ++ content ++ tail)
    (pieces : ∀ piece ∈ shake.socket, piece ≠ []) :
    ∃ next, shake.receiveRdb = some (content, next) ∧ next.coming = tail := by
  have carries : Carries (36 :: natText content.length) content tail
      (shake.connector.pendingBuffer ++ shake.socket.flatten) := by
    refine ⟨rfl, readInt32_natText small, fun member => ?_, full, by simpa [coming] using stream⟩
    rcases List.mem_cons.mp member with wrong | digit
    · cases wrong
    · exact absurd (List.all_eq_true.mp (natText_digits _) _ digit) (by decide)
  obtain ⟨⟨rdb, next⟩, done⟩ := @receiveHeader_some
    { shake with connector := { shake.connector with pendingBuffer := [] } } _ _ _ _ _ pieces
    carries (Nat.lt_succ_self _)
  obtain ⟨rfl, -, -, coming⟩ := receiveHeader_ok done carries
  exact ⟨next, done, coming⟩

theorem split_header_is_cut_out :
    ∃ next, receiveRdb ⟨⟨5, [36, 50], 0⟩, [], [[13], [10, 7], [8, 42]]⟩ = some ([7, 8], next) ∧
      next.coming = [42] :=
  rdb_is_cut_out [7, 8] [42] (by decide) (by decide) _ (by decide) (by decide)

end Transfer

theorem fullresyncLine_plain (hex : 13 ∉ state.config.masterReplid) :
    13 ∉ ascii "+FULLRESYNC " ++ state.config.masterReplid ++ ascii " " ++
      intText (state.offset.getD 0) := by
  have opening : 13 ∉ ascii "+FULLRESYNC " := by
    rw [ascii_eq rfl]
    decide
  have blank : 13 ∉ ascii " " := by decide
  simp only [mem_append, not_or]
  exact ⟨⟨⟨opening, hex⟩, blank⟩, cr_not_mem_intText _⟩

theorem connectIfReplica_ok {config : ServerConfig} {port : Int}
    (done : connectIfReplica config port fd socket = some shake)
    (hex : 13 ∉ state.config.masterReplid)
    (text : socket.flatten = respPong ++ (respOk ++ (respOk ++ (handlePsync state ++ after)))) :
    shake.connector.fd = fd ∧ shake.connector.offset = 0 ∧ shake.coming = after := by
  unfold connectIfReplica at done
  split at done
  · cases done
  simp only [Option.bind_eq_bind, Option.bind_eq_some_iff, sendPing, sendReplconf] at done
  obtain ⟨pinged, ping, known, ⟨listening, port, capa⟩, opened, psync, ⟨rdb, final⟩, received,
    same⟩ := done
  cases same
  obtain ⟨first, afterPing⟩ := sendAndExpect_ok ping
  obtain ⟨second, afterPort⟩ := sendAndExpect_ok port
  obtain ⟨third, afterCapa⟩ := sendAndExpect_ok capa
  have connector : known.connector = ⟨fd, [], 0⟩ := by rw [third, second, first]; rfl
  rw [show (start fd socket).socket = socket from rfl, text, append_cancel_left_eq,
    afterPort, append_cancel_left_eq, afterCapa, append_cancel_left_eq] at afterPing
  have line : known.socket.flatten =
      (ascii "+FULLRESYNC " ++ state.config.masterReplid ++ ascii " " ++
        intText (state.offset.getD 0)) ++
          (crlf ++ (ascii "$88" ++ (crlf ++ (emptyRdb ++ after)))) := by
    rw [← afterPing]
    simp only [handlePsync, append_assoc]
  obtain ⟨fd', offset, coming⟩ := sendPsync_ok psync (by rw [connector])
    (fullresyncLine_plain hex) line
  have size : readInt32 ((ascii "$88").drop 1) = some (emptyRdb.length : Int) := by decide
  obtain ⟨-, fd'', offset', left⟩ := receiveHeader_ok received
    ⟨(by decide : (ascii "$88").head? = some 36), size, by decide, by decide, coming⟩
  rw [fd'', offset', fd', offset, connector]
  exact ⟨rfl, rfl, left⟩

end Handshake

namespace ReplicaConnector

theorem parseOne_front {buffer : Bytes} (front : ∀ byte, buffer.head? = some byte → byte ≠ 42)
    (parsed : ParsedCommand) : parseOne buffer ≠ .ok parsed := by
  cases buffer with
  | nil => exact parseOne_nil parsed
  | cons byte rest =>
    have other : byteAt (byte :: rest) 0 ≠ 42 := front byte rfl
    simp only [parseOne, parseCommand, if_pos (Or.inr other), Except.map]
    intro same
    cases same

theorem run_stuck {connector : ReplicaConnector} {byte : UInt8} (other : byte ≠ 42)
    (coming : connector.pendingBuffer ++ pieces.flatten = byte :: text)
    (ran : run receive connector pieces = .ok (last, outputs)) :
    outputs.flatMap ackResponses = [] ∧
      outputs.flatMap commands = [] := by
  induction pieces generalizing connector outputs with
  | nil =>
    cases ran
    exact ⟨rfl, rfl⟩
  | cons piece pieces ih =>
    obtain ⟨next, output, later, taken, rest, rfl⟩ := run_cons ran
    rw [flatten_cons, ← append_assoc] at coming
    have waits : ∀ parsed, parseOne (connector.pendingBuffer ++ piece) ≠ .ok parsed := by
      refine parseOne_front fun first front => ?_
      have head := congrArg head? coming
      rw [head?_append, front] at head
      cases head
      exact other
    rw [receive, processBufferImpl, bufferLoop_idle waits] at taken
    cases taken
    obtain ⟨acks, commands⟩ := ih coming rest
    exact ⟨by rw [flatMap_cons, acks]; rfl, by rw [flatMap_cons, commands]; rfl⟩

theorem bufferLoop_early_getack (accepted : parseOne held = .ok ⟨args, consumed⟩)
    (asked : isGetack args = true) (beyond : held.length ≤ consumed) (offset : Int) (fuel : Nat) :
    bufferLoop (fuel + 1) ⟨fd, held, offset⟩ =
      .ok (⟨fd, [], offset + consumed⟩, ⟨ackReply offset, []⟩) := by
  have idle := @bufferLoop_idle ⟨fd, [], offset + consumed⟩ parseOne_nil fuel
  simp only [bufferLoop, accepted, asked, if_true, drop_of_length_le beyond, idle,
    append_nil]

theorem bufferLoop_early_write {next : ReplicaConnector}
    (accepted : parseOne held = .ok ⟨args, consumed⟩) (plain : isGetack args = false)
    (beyond : held.length < consumed)
    (done : bufferLoop (fuel + 1) ⟨fd, held, offset⟩ = .ok (next, output)) :
    consumed = held.length + 1 ∧ next.pendingBuffer = [] ∧ output = ⟨[], [held ++ [0]]⟩ := by
  have idle := @bufferLoop_idle ⟨fd, [], offset + consumed⟩ parseOne_nil fuel
  simp only [bufferLoop, accepted, plain, Bool.false_eq_true, if_false, copyFront] at done
  split at done
  · cases done
  rename_i copied front
  split at front
  · rename_i room
    have exactly : consumed = held.length + 1 := by omega
    subst exactly
    cases front
    rw [drop_of_length_le (by omega), idle] at done
    cases done
    refine ⟨rfl, rfl, ?_⟩
    rw [take_of_length_le (by simp)]
  · cases front

end ReplicaConnector

theorem writes_silent (writes : ∀ message ∈ messages, isWriteText message = true) (offset : Int) :
    ackValues offset messages = [] ∧ payload isGetackCommand messages = messages := by
  have plain : ∀ message ∈ messages, isGetackCommand message = false :=
    fun message member => isWriteText_marker (writes message member)
  constructor
  · clear writes
    induction messages generalizing offset with
    | nil => rfl
    | cons message messages ih =>
      simp only [ackValues, plain message (by simp), Bool.false_eq_true, if_false,
        nil_append]
      exact ih _ fun other member => plain other (by simp [member])
  · rw [payload, filter_eq_self]
    intro message member
    rw [plain message member]
    rfl

theorem receive_front {begun : Bytes} {fresh : List Bytes} {next : ReplicaConnector}
    (legible : ∀ message ∈ fresh, Legible message) (filled : held ≠ [])
    (arrived : begun ++ piece = fresh.flatten ++ held)
    (taken : receive ⟨fd, begun, offset⟩ piece = .ok (next, output)) :
    ∃ fuel inner, bufferLoop (fuel + 1)
        ⟨fd, held, offset + fresh.flatten.length⟩ = .ok (next, inner) ∧
      output = ⟨(ackValues offset fresh).flatMap ackReply ++ inner.ackResponses,
        payload isGetackCommand fresh ++ inner.commands⟩ := by
  have most := messages_length_le fun message member => (legible message member).ne_nil
  have positive := length_pos_iff.mpr filled
  obtain ⟨fuel, count⟩ : ∃ fuel, (fresh.flatten ++ held).length = fresh.length + (fuel + 1) := by
    refine ⟨(fresh.flatten ++ held).length - fresh.length - 1, ?_⟩
    rw [length_append]
    omega
  simp only [receive, processBufferImpl, arrived, count] at taken
  rw [bufferLoop_front fd fresh legible] at taken
  cases inner : bufferLoop (fuel + 1)
      ⟨fd, held, offset + fresh.flatten.length⟩ with
  | error fault =>
    rw [inner] at taken
    cases taken
  | ok result =>
    rw [inner] at taken
    cases taken
    exact ⟨fuel, result.2, inner, rfl⟩

theorem isWriteText_isCommand {raw : Bytes} (write : isWriteText raw = true) : IsCommand raw := by
  obtain ⟨args, read, name⟩ := isWriteText_parsed write
  refine ⟨args, ?_, read⟩
  rintro rfl
  exact absurd name (by decide)

theorem getackCommand_end {tail : Bytes} (parts : getackCommand = held ++ tail)
    (few : tail.length ≤ 2) (filled : tail ≠ []) :
    ∃ byte text, tail = byte :: text ∧ byte ≠ 42 := by
  have positive := length_pos_iff.mpr filled
  have lengths := congrArg length parts
  have size : getackCommand.length = 37 := by decide
  rw [size, length_append] at lengths
  have behind := congrArg (drop held.length) parts
  rw [drop_left] at behind
  have short : held.length = 36 ∨ held.length = 35 := by omega
  rcases short with one | two
  · refine ⟨10, [], ?_, by decide⟩
    rw [← behind, one]
    decide
  · refine ⟨13, [10], ?_, by decide⟩
    rw [← behind, two]
    decide

section TakenEarly

-- the replica has read `done`, and a piece completes `fresh` and leaves all but one or
-- two bytes of another message, which is taken at once
variable {fd : Fd} {done fresh pieces : List Bytes} {held tail after : Bytes} {args : List Bytes}
  {fuel : Nat} {next last : ReplicaConnector} {early final : List ProcessedBuffer}
  {inner : ProcessedBuffer}

def outputsBehind (early : List ProcessedBuffer) (done fresh : List Bytes)
    (inner : ProcessedBuffer) (final : List ProcessedBuffer) : List ProcessedBuffer :=
  early ++ ⟨(ackValues done.flatten.length fresh).flatMap ackReply ++
      inner.ackResponses, payload isGetackCommand fresh ++ inner.commands⟩ :: final

variable (accepted : parseOne held = .ok ⟨args, held.length + tail.length⟩) (more : tail ≠ [])
  (writes : ∀ message ∈ done ++ fresh, isWriteText message = true)
  (acks : early.flatMap ackResponses =
    (ackValues 0 done).flatMap ackReply)
  (loop : bufferLoop (fuel + 1)
    ⟨fd, held, done.flatten.length + fresh.flatten.length⟩ = .ok (next, inner))
  (remaining : run receive next pieces = .ok (last, final))
  (rest : pieces.flatten = tail ++ after)
include accepted more writes acks loop remaining rest

theorem request_taken_early (asks : getackCommand = held ++ tail) (few : tail.length ≤ 2)
    (kind : isGetack args = true) :
    (outputsBehind early done fresh inner final).flatMap ackResponses =
      ackReply (done ++ fresh).flatten.length := by
  rw [bufferLoop_early_getack accepted kind (by omega)] at loop
  cases loop
  obtain ⟨byte, text, rfl, other⟩ := getackCommand_end asks few more
  obtain ⟨quiet, -⟩ := run_stuck other
    (by rw [rest, cons_append, nil_append]) remaining
  have first := writes_silent (fun m member => writes m (mem_append_left fresh member)) 0
  have second := writes_silent (fun m member => writes m (mem_append_right done member))
    done.flatten.length
  have total : ((done.flatten.length : Int) + fresh.flatten.length) =
      ((done ++ fresh).flatten.length : Int) := by
    rw [flatten_append, length_append, Int.natCast_add]
  rw [outputsBehind, flatMap_append, flatMap_cons, acks, first.1, second.1, quiet,
    ← total]
  simp only [flatMap_nil, nil_append, append_nil]

theorem write_taken_early {others : List Bytes} (kind : isGetack args = false)
    (commands : early.flatMap commands = payload isGetackCommand done)
    (handed : (outputsBehind early done fresh inner final).flatMap ProcessedBuffer.commands =
      done ++ fresh ++ (held ++ tail) :: others) :
    (outputsBehind early done fresh inner final).flatMap ackResponses = [] := by
  have positive := length_pos_iff.mpr more
  obtain ⟨exactly, empty, rfl⟩ :=
    bufferLoop_early_write accepted kind (by omega) loop
  have first := writes_silent (fun m member => writes m (mem_append_left fresh member)) 0
  have second := writes_silent (fun m member => writes m (mem_append_right done member))
    done.flatten.length
  have zero : tail = [0] := by
    rw [outputsBehind, flatMap_append, flatMap_cons, commands, first.2, second.2,
      append_assoc, append_assoc, append_cancel_left_eq,
      append_cancel_left_eq, singleton_append, cons.injEq,
      append_cancel_left_eq] at handed
    exact handed.1.symm
  subst zero
  obtain ⟨quiet, -⟩ := run_stuck (by decide : (0 : UInt8) ≠ 42)
    (by rw [empty, rest, nil_append, cons_append]) remaining
  rw [outputsBehind, flatMap_append, flatMap_cons, acks, first.1, second.1, quiet]
  rfl

end TakenEarly

theorem stream_acked (writes : ∀ message ∈ messages, isWriteText message = true)
    (stream : pieces.flatten = messages.flatten ++ getackCommand)
    (ran : run receive ⟨fd, [], 0⟩ pieces = .ok (last, outputs))
    (handed : outputs.flatMap commands = messages)
    (answered : outputs.flatMap ackResponses ≠ []) :
    outputs.flatMap ackResponses =
      ackReply messages.flatten.length := by
  have texts : ∀ message ∈ messages ++ [getackCommand], Legible message ∧ IsCommand message := by
    intro message member
    rcases mem_append.mp member with write | asks
    · exact ⟨legible_of_kind (.inr (writes message write)),
        isWriteText_isCommand (writes message write)⟩
    · rw [mem_singleton.mp asks]
      exact ⟨legible_getack, isCommand_encodeArray (by decide) (by decide)⟩
  have whole : pieces.flatten = (messages ++ [getackCommand]).flatten := by
    rw [stream, flatten_append, flatten_singleton]
  by_cases well : CutWell 2 (messages ++ [getackCommand]) 0 pieces
  · obtain ⟨final, outs, done, held, rest, again, synced, parts, arrived, begins⟩ :=
      @run_in_step fd _ pieces [] texts (by rw [append_nil, whole]) well
    cases again.symm.trans ran
    rw [whole, parts, flatten_append, append_cancel_left_eq] at arrived
    obtain ⟨rfl, rfl⟩ := begins.complete arrived.symm
    obtain ⟨every, complete, -, acks, -⟩ := synced
    rw [append_nil] at complete
    rw [acks, ← complete, ackValues_append, (writes_silent writes 0).1]
    simp [ackValues, isGetackCommand]
  · -- up to the first bad cut the link is in step, and there it takes a message early
    rw [← map_id pieces] at well
    obtain ⟨earlier, piece, later, rfl, before, short, few⟩ := exists_badly_cut well
    rw [map_id] at before short few
    have cut : earlier.flatten ++ (piece ++ later.flatten) =
        (messages ++ [getackCommand]).flatten := by
      rw [← whole]
      simp
    obtain ⟨middle, early, done, begun, rest, reached, synced, parts, sofar, -⟩ :=
      run_in_step fd texts cut before
    obtain ⟨again, first, second, ranFirst, behind, rfl⟩ := run_append ran
    cases reached.symm.trans ranFirst
    obtain ⟨next, output, final, taken, remaining, rfl⟩ := run_cons behind
    obtain ⟨fresh, held, ahead, rfl, arrived, begins, left, gap⟩ :=
      split_chunk (fun message member => (texts message member).1.ne_nil) parts sofar cut
    rw [Nat.zero_add, flatten_concat, gap] at short few
    obtain ⟨done', same, rfl, acks, commands⟩ := synced
    rw [parts, append_left_inj] at same
    subst same
    have started : held ≠ [] := by
      rintro rfl
      simp at short
    cases ahead with
    | nil => exact absurd begins started
    | cons message ahead =>
      obtain ⟨tail, more, rfl⟩ := begins
      rw [missing_begun started more] at few
      obtain ⟨fuel, inner, loop, rfl⟩ := receive_front
        (fun other member => (texts other (by rw [parts]; simp [member])).1) started arrived taken
      obtain ⟨args, parsed, kind⟩ := (texts (held ++ tail) (by rw [parts]; simp)).1
      have named : args ≠ [] := by
        obtain ⟨other, named, again⟩ := (texts (held ++ tail) (by rw [parts]; simp)).2
        cases again.symm.trans parsed
        exact named
      have accepted := parseOne_iff.mpr (parseCommand_begun parsed named few)
      have rest : later.flatten = tail ++ ahead.flatten := by
        rwa [flatten_cons, append_assoc, append_cancel_left_eq] at left
      rw [← append_assoc] at parts
      rcases eq_nil_or_concat' ahead with rfl | ⟨others, request, rfl⟩
      · obtain ⟨rfl, asks⟩ := append_inj' parts rfl
        rw [singleton_inj] at asks
        rw [← asks, isGetackCommand, beq_self_eq_true] at kind
        exact request_taken_early accepted more writes acks loop remaining rest asks few kind
      · rw [← cons_append, ← append_assoc] at parts
        obtain ⟨rfl, -⟩ := append_inj' parts rfl
        rw [isWriteText_marker (writes (held ++ tail) (by simp))] at kind
        exact absurd (write_taken_early accepted more
          (fun m member => writes m (mem_append_left _ member)) acks loop remaining rest kind
          commands handed) answered

theorem checkWaitTimeout_frame (manager : ReplicaManager) (now : Time) :
    (manager.checkWaitTimeout now).1.replicas = manager.replicas ∧
      (manager.checkWaitTimeout now).1.masterOffset = manager.masterOffset := by
  unfold checkWaitTimeout
  split
  · exact ⟨rfl, rfl⟩
  · split
    · exact ⟨rfl, rfl⟩
    · exact ⟨rfl, rfl⟩

theorem processAck_frame (manager : ReplicaManager) (fd : Fd) (data : Bytes) :
    ((manager.processAck fd data).1.replicas = manager.replicas ∨
      ∃ offset, (manager.processAck fd data).1.replicas =
        setOffset fd offset manager.replicas) ∧
      (manager.processAck fd data).1.masterOffset = manager.masterOffset := by
  unfold processAck
  split
  · dsimp only
    split
    · obtain ⟨replicas, offset, -⟩ := settleWait_frame manager
      exact ⟨.inl replicas, offset⟩
    rename_i value _
    obtain ⟨replicas, offset, -⟩ := settleWait_frame { manager with
      replicas := setOffset fd value manager.replicas }
    exact ⟨.inr ⟨value, replicas⟩, offset⟩
  · exact ⟨.inl rfl, rfl⟩

namespace Replication

def Joins (net : Replication) : ReplicationEvent → Prop
  | .handshake fd => net.manager.contains fd = false
  | .call _ _ result _ => result ≠ .replicaHandshake
  | .timeouts _ | .deliver _ _ | .acknowledge _ _ | .leave _ => True

/-- Only writes are propagated, no acknowledgement is asked for, and nothing is heard
of this replica. -/
def OnlyWrites (fd : Fd) (net : Replication) : ReplicationEvent → Prop
  | .handshake _ | .timeouts _ => True
  | .call _ _ result commands =>
    (∀ raw ∈ commands, isWriteText raw = true) ∧ asks net.manager result = false
  | .deliver other _ | .acknowledge other _ | .leave other => other ≠ fd

instance (net : Replication) (event : ReplicationEvent) : Decidable (net.Joins event) :=
  match event with
  | .handshake _ => inferInstanceAs (Decidable (_ = _))
  | .call _ _ _ _ => inferInstanceAs (Decidable (_ ≠ _))
  | .timeouts _ | .deliver _ _ | .acknowledge _ _ | .leave _ => inferInstanceAs (Decidable True)

instance (fd : Fd) (net : Replication) (event : ReplicationEvent) :
    Decidable (net.OnlyWrites fd event) :=
  match event with
  | .handshake _ | .timeouts _ => inferInstanceAs (Decidable True)
  | .call _ _ _ _ => inferInstanceAs (Decidable (_ ∧ _))
  | .deliver _ _ | .acknowledge _ _ | .leave _ => inferInstanceAs (Decidable (_ ≠ _))

theorem step_timeouts (net : Replication) (now : Time) :
    net.step (.timeouts now) = .ok ({ net with manager := (net.manager.checkWaitTimeout now).1 },
      net.answers (target net.manager) (results (net.manager.checkWaitTimeout now).2)) := rfl

variable {next : Replication}

theorem step_acknowledge {count : Nat}
    (done : net.step (.acknowledge fd count) = .ok (next, answers)) :
    next.manager =
        (net.manager.processAck fd ((net.links fd).toMaster.take count).flatten).1 ∧
      ∀ other, other ≠ fd → next.links other = net.links other := by
  simp only [Replication.step, Except.ok.injEq, Prod.mk.injEq] at done
  obtain ⟨rfl, -⟩ := done
  exact ⟨rfl, fun other different => setLink_of_ne _ different⟩

structure Orderly (net : Replication) : Prop where
  distinct : (net.manager.replicas.map ReplicaState.fd).Nodup
  counted : 0 ≤ net.manager.masterOffset

theorem Orderly.step (orderly : net.Orderly) (joins : net.Joins event)
    (done : net.step event = .ok (next, answers)) : next.Orderly := by
  cases event with
  | handshake fd =>
    cases done
    exact ⟨addReplica_nodup orderly.distinct joins, orderly.counted⟩
  | call now fd result commands =>
    rw [step_call] at done
    cases done
    obtain ⟨replicas, offset, -⟩ :=
      dispatchState_frame net.manager now fd joins orderly.distinct
    refine ⟨?_, ?_⟩
    · rw [dispatchPropagate_manager, replicas]
      exact orderly.distinct
    · rw [dispatchPropagate_manager, offset]
      have counted := orderly.counted
      dsimp only
      omega
  | timeouts now =>
    rw [step_timeouts] at done
    cases done
    obtain ⟨replicas, offset⟩ := checkWaitTimeout_frame net.manager now
    exact ⟨by rw [replicas]; exact orderly.distinct, by rw [offset]; exact orderly.counted⟩
  | deliver fd count =>
    simp only [Replication.step] at done
    split at done
    · cases done
    · cases done
      exact ⟨orderly.distinct, orderly.counted⟩
  | acknowledge fd count =>
    obtain ⟨manager, -⟩ := step_acknowledge done
    obtain ⟨replicas, offset⟩ :=
      processAck_frame net.manager fd ((net.links fd).toMaster.take count).flatten
    rw [← manager] at replicas offset
    refine ⟨?_, by rw [offset]; exact orderly.counted⟩
    rcases replicas with same | ⟨value, set⟩
    · rw [same]
      exact orderly.distinct
    · rw [set, setOffset_fds]
      exact orderly.distinct
  | leave fd =>
    cases done
    exact ⟨removeReplica_nodup orderly.distinct fd, orderly.counted⟩

/-- The replica has been sent the bytes that the master has counted since it joined. -/
structure Attached (fd : Fd) (start : Int) (net : Replication) : Prop where
  orderly : net.Orderly
  listed : ⟨fd, 0⟩ ∈ net.manager.replicas
  offset : net.manager.masterOffset = start + (net.links fd).toReplica.flatten.length
  writes : ∀ message ∈ (net.links fd).toReplica, isWriteText message = true

theorem Attached.start (orderly : net.Orderly) (new : net.manager.contains fd = false)
    (done : net.step (.handshake fd) = .ok (next, answers)) :
    Attached fd net.manager.masterOffset next := by
  have joins : net.Joins (.handshake fd) := new
  have after := orderly.step joins done
  cases done
  refine ⟨after, ?_, ?_, ?_⟩
  · exact mem_append_right _ (mem_singleton.mpr rfl)
  · rw [setLink_self]
    exact (Int.add_zero _).symm
  · rw [setLink_self]
    intro message member
    cases member

theorem setOffset_keeps {replica : ReplicaState} (other : replica.fd ≠ fd)
    (member : replica ∈ replicas) : replica ∈ setOffset fd offset replicas := by
  induction replicas with
  | nil => cases member
  | cons first replicas ih =>
    unfold setOffset
    rcases mem_cons.mp member with rfl | later
    · rw [if_neg other]
      exact mem_cons_self
    · split
      · exact mem_cons_of_mem _ later
      · exact mem_cons_of_mem _ (ih later)

theorem setOffset_sets (offset : Int) (member : fd ∈ replicas.map ReplicaState.fd) :
    ∃ replica ∈ setOffset fd offset replicas,
      replica.fd = fd ∧ replica.offset = offset := by
  induction replicas with
  | nil => cases member
  | cons first replicas ih =>
    unfold setOffset
    split
    · rename_i here
      exact ⟨{ first with offset := offset }, mem_cons_self, here, rfl⟩
    rename_i elsewhere
    have later : fd ∈ replicas.map ReplicaState.fd :=
      (mem_cons.mp member).resolve_left (Ne.symm elsewhere)
    obtain ⟨replica, present, found⟩ := ih later
    exact ⟨replica, mem_cons_of_mem _ present, found⟩

theorem Attached.step {start : Int} (attached : Attached fd start net)
    (fits : net.Joins event ∧ net.OnlyWrites fd event) (done : net.step event = .ok (next, answers))
    : Attached fd start next := by
  obtain ⟨joins, only⟩ := fits
  have after := attached.orderly.step joins done
  have listed : fd ∈ net.manager.replicas.map ReplicaState.fd :=
    mem_map_of_mem attached.listed
  cases event with
  | handshake other =>
    have different : fd ≠ other := by
      rintro rfl
      exact fd_not_mem_of_contains joins listed
    cases done
    refine ⟨after, mem_append_left _ attached.listed, ?_, ?_⟩
    · rw [setLink_of_ne _ different]
      exact attached.offset
    · rw [setLink_of_ne _ different]
      exact attached.writes
  | call now caller result commands =>
    rw [step_call] at done
    cases done
    obtain ⟨replicas, offset, -, first, -⟩ :=
      dispatchState_frame net.manager now caller joins attached.orderly.distinct
    have second := @messagesTo_dispatchPropagate fd
      (dispatchState net.manager now caller result).1 commands
      (by rw [replicas]; exact attached.orderly.distinct) (by rw [replicas]; exact listed)
    have quiet := first fd listed
    rw [only.2] at quiet
    have sent : messagesTo fd ((dispatchState net.manager now caller result).2 ++
        (dispatchPropagate commands (dispatchState net.manager now caller result).1).2) =
        commands := by
      rw [messagesTo_append, quiet, second]
      rfl
    refine ⟨after, ?_, ?_, ?_⟩
    · rw [dispatchPropagate_manager, replicas]
      exact attached.listed
    · dsimp only
      rw [dispatchPropagate_manager, sent, offset, attached.offset, flatten_append,
        length_append]
      dsimp only
      omega
    · dsimp only
      rw [sent]
      exact forall_mem_append.mpr ⟨attached.writes, only.1⟩
  | timeouts now =>
    rw [step_timeouts] at done
    cases done
    obtain ⟨replicas, offset⟩ := checkWaitTimeout_frame net.manager now
    exact ⟨after, by rw [replicas]; exact attached.listed, by rw [offset]; exact attached.offset,
      attached.writes⟩
  | deliver other count =>
    have different : fd ≠ other := only.symm
    simp only [Replication.step] at done
    split at done
    · cases done
    cases done
    refine ⟨after, attached.listed, ?_, ?_⟩
    · rw [setLink_of_ne _ different]
      exact attached.offset
    · rw [setLink_of_ne _ different]
      exact attached.writes
  | acknowledge other count =>
    obtain ⟨manager, links⟩ := step_acknowledge done
    have link := links fd only.symm
    obtain ⟨replicas, offset⟩ :=
      processAck_frame net.manager other ((net.links other).toMaster.take count).flatten
    rw [← manager] at replicas offset
    refine ⟨after, ?_, by rw [offset, link]; exact attached.offset,
      by rw [link]; exact attached.writes⟩
    rcases replicas with same | ⟨value, set⟩
    · rw [same]
      exact attached.listed
    · rw [set]
      exact setOffset_keeps only.symm attached.listed
  | leave other =>
    cases done
    refine ⟨after, ?_, attached.offset, attached.writes⟩
    have kept : ⟨fd, 0⟩ ∈ net.manager.replicas.eraseP fun replica => replica.fd == other :=
      (mem_eraseP_of_neg (by simpa using only.symm)).mpr attached.listed
    exact (removeFirst_perm other net.manager.replicas).mem_iff.mpr kept

end Replication

/-- A replica whose handshake is answered at `net` has read its stream up to `last` and
the request for an acknowledgement behind it. -/
structure LateReplica where
  before : List ReplicationEvent
  later : List ReplicationEvent
  net : Replication
  last : Replication
  fd : Fd
  /-- the handler of the master when it answers `PSYNC` -/
  state : HandlerState
  config : ServerConfig
  port : Int
  masterFd : Fd
  /-- the bytes from the master, as they arrive during the handshake and behind it -/
  socket : List Bytes
  shake : Handshake
  pieces : List Bytes
  opened : ReplicaConnector × ProcessedBuffer
  final : ReplicaConnector
  outputs : List ProcessedBuffer
  reached : ∃ answers, run step initial before = .ok (net, answers)
  joins : Along step Joins initial before
  ran : ∃ answers, run step net (.handshake fd :: later) = .ok (last, answers)
  follows : Along step (fun net event => net.Joins event ∧ net.OnlyWrites fd event) net
    (.handshake fd :: later)
  told : state.offset = some net.manager.masterOffset
  hex : 13 ∉ state.config.masterReplid
  completed : Handshake.connectIfReplica config port masterFd socket = some shake
  arrived : socket.flatten = respPong ++ (respOk ++ (respOk ++ (handlePsync state ++
    ((last.links fd).toReplica.flatten ++ getackCommand))))
  opening : shake.connector.processBufferImpl = .ok opened
  reading : run receive opened.1 pieces = .ok (final, outputs)
  unread : pieces.flatten = shake.socket.flatten
  handed : (opened.2 :: outputs).flatMap commands = (last.links fd).toReplica
  answered : (opened.2 :: outputs).flatMap ackResponses ≠ []
  small : last.manager.masterOffset < 2 ^ 63

namespace LateReplica

variable (late : LateReplica)

def acks : Bytes :=
  (late.opened.2 :: late.outputs).flatMap ackResponses

def written : Nat := (late.last.links late.fd).toReplica.flatten.length

/-- The offset that is acknowledged continues that of the master, and the master counts
the replica among those that have acknowledged all of it. -/
def Comparable : Prop :=
  late.acks = ackReply (late.net.manager.masterOffset + late.written) ∧
    ∃ replica ∈ (late.last.manager.processAck late.fd late.acks).1.replicas,
      replica.fd = late.fd ∧ late.last.manager.masterOffset ≤ replica.offset

theorem attached : late.net.Orderly ∧ Attached late.fd late.net.manager.masterOffset late.last := by
  obtain ⟨_, reached⟩ := late.reached
  have first : initial.Orderly := ⟨nodup_nil, Int.le_refl 0⟩
  have orderly : late.net.Orderly := run_invariant Orderly
    (fun _ _ _ _ orderly joins done => orderly.step joins done) first late.joins reached
  obtain ⟨_, ran⟩ := late.ran
  obtain ⟨joined, _, _, shaken, followed, -⟩ := run_cons ran
  have start := Attached.start orderly late.follows.1.1 shaken
  exact ⟨orderly, run_invariant (Attached late.fd late.net.manager.masterOffset)
    (fun _ _ _ _ attached fits done => attached.step fits done) start
    (late.follows.next shaken) followed⟩

theorem acks_eq : late.acks = ackReply late.written := by
  obtain ⟨fd, offset, coming⟩ := Handshake.connectIfReplica_ok late.completed late.hex late.arrived
  have connector : late.shake.connector =
      ⟨late.masterFd, late.shake.connector.pendingBuffer, 0⟩ := by
    rw [← fd, ← offset]
  have taken : receive ⟨late.masterFd, [], 0⟩ late.shake.connector.pendingBuffer =
      .ok late.opened := by
    rw [← late.opening, connector]
    rfl
  have ran : run receive ⟨late.masterFd, [], 0⟩
      (late.shake.connector.pendingBuffer :: late.pieces) =
      .ok (late.final, late.opened.2 :: late.outputs) := by
    simp only [run, taken, late.reading]
  refine stream_acked late.attached.2.writes ?_ ran late.handed late.answered
  rw [flatten_cons, late.unread]
  exact coming

theorem recorded :
    ∃ replica ∈ (late.last.manager.processAck late.fd late.acks).1.replicas,
      replica.fd = late.fd ∧ replica.offset = late.written := by
  obtain ⟨orderly, attached⟩ := late.attached
  have known : late.last.manager.contains late.fd = true := by
    by_contra unknown
    exact fd_not_mem_of_contains (by simpa using unknown) (mem_map_of_mem attached.listed)
  have bounds : ∀ value ∈ [(late.written : Int)], 0 ≤ value ∧ value < 2 ^ 63 := by
    intro value member
    rw [mem_singleton.mp member]
    have small := late.small
    have counted := orderly.counted
    rw [attached.offset] at small
    rw [written]
    omega
  obtain ⟨manager, recording, settled, -⟩ := processAck_values known bounds
  rw [flatMap_singleton, ← late.acks_eq] at settled
  rw [settled, (settleWait_frame manager).1, recording]
  exact setOffset_sets _ (mem_map_of_mem attached.listed)

/-- A replica is comparable exactly when the master had counted nothing before it
joined. -/
theorem comparable_iff (late : LateReplica) :
    late.Comparable ↔ late.net.manager.masterOffset = 0 := by
  obtain ⟨orderly, attached⟩ := late.attached
  constructor
  · rintro ⟨acked, -⟩
    have same := congrArg (· ++ ([] : Bytes)) (late.acks_eq.symm.trans acked)
    have values := (ackReply_append_inj same).1
    omega
  · intro nothing
    refine ⟨?_, ?_⟩
    · rw [late.acks_eq, nothing, Int.zero_add]
    · obtain ⟨replica, member, same, offset⟩ := late.recorded
      refine ⟨replica, member, same, ?_⟩
      rw [offset, attached.offset, nothing, Int.zero_add]
      exact Int.le_refl _

def masterAt (offset : Int) : HandlerState :=
  { (CommandContext.twoClients 0).toHandlerState with offset := some offset }

def netBehind (net : Replication) (events : List ReplicationEvent) : Replication :=
  match run step net events with
  | .ok (last, _) => last
  | .error _ => net

def socketAt (offset : Int) : List Bytes :=
  [respPong, respOk, respOk, handlePsync (masterAt offset), setText "v" ++ getackCommand]

def firstReplica : LateReplica where
  before := []
  later := [.call 0 5 .normal [setText "v"]]
  net := initial
  last := netBehind initial [.handshake 9, .call 0 5 .normal [setText "v"]]
  fd := 9
  state := masterAt 0
  config := ⟨some ⟨ascii "localhost", 6379⟩, [], [], []⟩
  port := 6380
  masterFd := 4
  socket := socketAt 0
  shake := ⟨⟨4, [], 0⟩, [encodeArray [ascii "PING"],
    encodeArray [ascii "REPLCONF", ascii "listening-port", ascii "6380"],
    encodeArray [ascii "REPLCONF", ascii "capa", ascii "psync2"],
    encodeArray [ascii "PSYNC", ascii "?", ascii "-1"]], [setText "v" ++ getackCommand]⟩
  pieces := [setText "v" ++ getackCommand]
  opened := (⟨4, [], 0⟩, ⟨[], []⟩)
  final := ⟨4, [], 64⟩
  outputs := [⟨ackReply 27, [setText "v"]⟩]
  reached := ⟨[], rfl⟩
  joins := trivial
  ran := ⟨_, rfl⟩
  follows := by decide +kernel
  told := rfl
  hex := by decide
  completed := by decide +kernel
  arrived := by decide +kernel
  opening := by decide +kernel
  reading := by decide +kernel
  unread := rfl
  handed := by decide +kernel
  answered := by decide +kernel
  small := by decide +kernel

theorem firstReplica_comparable : firstReplica.Comparable :=
  (comparable_iff firstReplica).mpr rfl

def secondReplica : LateReplica :=
  { firstReplica with
    before := [.handshake 7, .call 0 5 .normal [setText "v"]]
    net := netBehind initial [.handshake 7, .call 0 5 .normal [setText "v"]]
    last := netBehind (netBehind initial [.handshake 7, .call 0 5 .normal [setText "v"]])
      [.handshake 9, .call 0 5 .normal [setText "v"]]
    state := masterAt 27
    socket := socketAt 27
    reached := ⟨_, rfl⟩
    joins := by decide +kernel
    ran := ⟨_, rfl⟩
    follows := by decide +kernel
    told := by decide +kernel
    hex := by decide
    completed := by decide +kernel
    arrived := by decide +kernel
    handed := by decide +kernel
    small := by decide +kernel }

theorem secondReplica_behind :
    secondReplica.net.manager.masterOffset = 27 ∧ secondReplica.written = 27 ∧
      secondReplica.last.manager.masterOffset = 54 ∧
      secondReplica.acks = ackReply 27 ∧
      (secondReplica.last.manager.processAck 9 secondReplica.acks).1.countAckedFor 54 = 0 ∧
      ¬ secondReplica.Comparable := by
  have facts : secondReplica.net.manager.masterOffset = 27 ∧ secondReplica.written = 27 ∧
      secondReplica.last.manager.masterOffset = 54 ∧
      secondReplica.acks = ackReply 27 ∧
      (secondReplica.last.manager.processAck 9 secondReplica.acks).1.countAckedFor 54 = 0 ∧
      secondReplica.acks ≠ ackReply (27 + 27) := by
    decide +kernel
  obtain ⟨start, written, offset, acks, counted, short⟩ := facts
  refine ⟨start, written, offset, acks, counted, ?_⟩
  rintro ⟨comparable, -⟩
  rw [start, written] at comparable
  exact short comparable

end LateReplica

end Credis
