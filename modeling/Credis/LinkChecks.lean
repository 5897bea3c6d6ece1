import Credis.AckChecks
import Credis.FramingChecks

/-! The link of a replica under any cut of its stream. A command is taken as soon
as its last payload is there, with its line end counted as read, so a chunk that
ends inside that line end puts the link out of step for good. -/

namespace Credis

open ByteString MarkedStream ChunkedStream ServerState Replication ReplicaConnector List

variable {connector : ReplicaConnector} {offset : Int} {fuel : Nat} {processed : ProcessedBuffer}
  {args messages : List Bytes} {fd : Fd} {held : Bytes}

variable {last : ReplicaConnector} {outputs : List ProcessedBuffer} {chunk more begun : Bytes}
  {chunks fresh rest ahead : List Bytes} {enough consumed : Nat} {commands : List (List Bytes)}

namespace ReplicaConnector

def receive (connector : ReplicaConnector) (chunk : Bytes) :
    Except Fault (ReplicaConnector × ProcessedBuffer) :=
  { connector with pendingBuffer := connector.pendingBuffer ++ chunk }.processBufferImpl

def reach (connector : ReplicaConnector) : Int :=
  connector.offset + connector.pendingBuffer.length

theorem bufferLoop_succ (done : bufferLoop (fuel + 1) connector = .ok (last, processed)) :
    ((∀ parsed, parseOne connector.pendingBuffer ≠ .ok parsed) ∧ last = connector ∧
        processed = ⟨[], []⟩) ∨
      ∃ args consumed later,
        parseOne connector.pendingBuffer = .ok ⟨args, consumed⟩ ∧
        bufferLoop fuel ⟨connector.fd, connector.pendingBuffer.drop consumed,
          connector.offset + consumed⟩ = .ok (last, later) ∧
        ((isGetack args = true ∧ processed =
            ⟨ackReply connector.offset ++ later.ackResponses, later.commands⟩) ∨
          (isGetack args = false ∧ consumed ≤ connector.pendingBuffer.length + 1 ∧ processed =
            ⟨later.ackResponses,
              (connector.pendingBuffer ++ [0]).take consumed :: later.commands⟩)) := by
  unfold bufferLoop at done
  split at done
  · rename_i failure read
    cases done
    exact .inl ⟨fun parsed => by simp [read], rfl, rfl⟩
  · rename_i command read
    dsimp only at done
    refine .inr ⟨command.args, command.consumed, ?_⟩
    split at done
    · rename_i asked
      split at done
      · cases done
      · rename_i final later rest
        cases done
        exact ⟨later, read, rest, .inl ⟨asked, rfl⟩⟩
    · rename_i plain
      unfold copyFront at done
      split at done
      · cases done
      rename_i copied front
      split at front
      · rename_i room
        cases front
        split at done
        · cases done
        · rename_i final later rest
          cases done
          exact ⟨later, read, rest, .inr ⟨by simpa using plain, room, rfl⟩⟩
      · cases front

theorem bufferLoop_reach (done : bufferLoop fuel connector = .ok (last, processed)) :
    connector.reach ≤ last.reach := by
  induction fuel generalizing connector processed with
  | zero =>
    cases done
    exact Int.le_refl _
  | succ fuel ih =>
    rcases bufferLoop_succ done with ⟨-, rfl, -⟩ | ⟨args, consumed, later, -, rest, -⟩
    · exact Int.le_refl _
    · have further := ih rest
      simp only [reach, length_drop] at further ⊢
      omega

theorem run_reach (ran : Run.run receive connector chunks = .ok (last, outputs)) :
    connector.reach + chunks.flatten.length ≤ last.reach := by
  induction chunks generalizing connector outputs with
  | nil =>
    cases ran
    simp
  | cons chunk chunks ih =>
    obtain ⟨next, output, later, taken, rest, rfl⟩ := Run.run_cons ran
    have here := bufferLoop_reach taken
    have there := ih rest
    simp only [reach, length_append, flatten_cons] at here there ⊢
    omega

theorem parseOne_consumes {input : Bytes} (read : parseOne input = .ok ⟨args, consumed⟩) :
    0 < input.length ∧ 0 < consumed := by
  obtain ⟨given, positive⟩ := parseCommand_consumes (parseOne_iff.mp read)
  exact ⟨length_pos_iff.mpr given, positive⟩

theorem bufferLoop_waits (enough : connector.pendingBuffer.length ≤ fuel)
    (done : bufferLoop fuel connector = .ok (last, processed)) :
    ∀ parsed, parseOne last.pendingBuffer ≠ .ok parsed := by
  induction fuel generalizing connector processed with
  | zero =>
    cases done
    rw [eq_nil_of_length_eq_zero (Nat.le_zero.mp enough)]
    exact parseOne_nil
  | succ fuel ih =>
    rcases bufferLoop_succ done with ⟨waits, rfl, -⟩ | ⟨args, consumed, later, read, rest, -⟩
    · exact waits
    have positive := parseOne_consumes read
    refine ih ?_ rest
    dsimp only
    rw [length_drop]
    omega

theorem bufferLoop_fuel {other : Nat} (enough : connector.pendingBuffer.length ≤ fuel)
    (also : connector.pendingBuffer.length ≤ other) :
    bufferLoop fuel connector = bufferLoop other connector := by
  induction fuel generalizing connector other with
  | zero =>
    have absent := eq_nil_of_length_eq_zero (Nat.le_zero.mp enough)
    cases other with
    | zero => rfl
    | succ other =>
      cases read : parseOne connector.pendingBuffer with
      | ok parsed =>
        rw [absent] at read
        exact absurd read (parseOne_nil parsed)
      | error failure => simp only [bufferLoop, read]
  | succ fuel ih =>
    cases read : parseOne connector.pendingBuffer with
    | error failure => cases other <;> simp only [bufferLoop, read]
    | ok command =>
      have positive := parseOne_consumes read
      cases other with
      | zero => omega
      | succ other =>
        have rest := @ih ⟨connector.fd, connector.pendingBuffer.drop command.consumed,
          connector.offset + command.consumed⟩ other (by rw [length_drop]; omega)
          (by rw [length_drop]; omega)
        simp only [bufferLoop, read, rest]

theorem bufferLoop_receive (room : connector.pendingBuffer.length + more.length ≤ enough) :
    bufferLoop enough { connector with pendingBuffer := connector.pendingBuffer ++ more } =
      connector.receive more :=
  bufferLoop_fuel (by simpa using room) (Nat.le_refl _)

theorem bufferLoop_join {final : ReplicaConnector} {later : ProcessedBuffer}
    (done : bufferLoop fuel connector = .ok (last, processed)) (kept : last.reach = connector.reach)
    (behind : last.receive more = .ok (final, later))
    (room : connector.pendingBuffer.length + more.length ≤ enough) :
    bufferLoop enough { connector with pendingBuffer := connector.pendingBuffer ++ more } =
      .ok (final, ⟨processed.ackResponses ++ later.ackResponses,
        processed.commands ++ later.commands⟩) := by
  induction fuel generalizing connector processed enough with
  | zero =>
    cases done
    rw [bufferLoop_receive room, behind]
    rfl
  | succ fuel ih =>
    rcases bufferLoop_succ done with ⟨-, rfl, rfl⟩ | ⟨args, consumed, tail, read, rest, turn⟩
    · rw [bufferLoop_receive room, behind]
      rfl
    have further := bufferLoop_reach rest
    have positive := parseOne_consumes read
    have inside : consumed ≤ connector.pendingBuffer.length := by
      simp only [reach, length_drop] at kept further
      omega
    cases enough with
    | zero => omega
    | succ enough =>
      have there := @ih _ _ enough rest (by
        rw [kept]
        simp only [reach, length_drop]
        omega) (by
        dsimp only
        rw [length_drop]
        omega)
      dsimp only at there
      rw [bufferLoop, parseOne_append more (parseOne_iff.mp read)]
      simp only [drop_append_of_le_length inside, there]
      rcases turn with ⟨asked, rfl⟩ | ⟨plain, -, rfl⟩
      · simp only [asked, if_true, append_assoc]
      have front : copyFront (connector.pendingBuffer ++ more) consumed =
          .ok ((connector.pendingBuffer ++ [0]).take consumed) := by
        rw [copyFront, if_pos (by rw [length_append]; omega), append_assoc,
          take_append_of_le_length inside, take_append_of_le_length inside]
      simp only [plain, Bool.false_eq_true, if_false, front, cons_append]

theorem run_oneshot (waits : ∀ parsed, parseOne connector.pendingBuffer ≠ .ok parsed)
    (ran : Run.run receive connector chunks = .ok (last, outputs))
    (kept : last.reach = connector.reach + chunks.flatten.length) :
    connector.receive chunks.flatten = .ok (last,
      ⟨outputs.flatMap ProcessedBuffer.ackResponses,
        outputs.flatMap ProcessedBuffer.commands⟩) := by
  induction chunks generalizing connector outputs with
  | nil =>
    cases ran
    have idle := bufferLoop_messages last.fd [] (by simp) waits last.offset
      (Nat.zero_le last.pendingBuffer.length)
    simpa [receive, processBufferImpl, ackValues, payload] using idle
  | cons chunk chunks ih =>
    obtain ⟨next, output, later, taken, rest, rfl⟩ := Run.run_cons ran
    have here := bufferLoop_reach taken
    have there := run_reach rest
    have first : connector.reach + chunk.length =
        reach
          { connector with pendingBuffer := connector.pendingBuffer ++ chunk } := by
      simp only [reach, length_append]
      omega
    rw [flatten_cons, length_append] at kept
    have behind := ih (bufferLoop_waits (Nat.le_refl _) taken) rest (by omega)
    have joined := bufferLoop_join taken (by omega) behind (Nat.le_refl _)
    rw [bufferLoop_receive (Nat.le_refl _)] at joined
    simpa only [receive, flatten_cons, append_assoc, flatMap_cons] using joined

end ReplicaConnector

def Propagated (args : List Bytes) : Prop :=
  args = [ascii "REPLCONF", ascii "GETACK", ascii "*"] ∨
    isWriteCommand (toUpper (args.headD [])) = true

instance (args : List Bytes) : Decidable (Propagated args) := inferInstanceAs (Decidable (_ ∨ _))

theorem isGetackCommand_iff :
    isGetackCommand (encodeArray args) = true ↔
      args = [ascii "REPLCONF", ascii "GETACK", ascii "*"] := by
  rw [isGetackCommand, beq_iff_eq, getackCommand]
  constructor
  · intro same
    exact (@encodeArray_append_inj _ _ [] [] (by rw [same])).1
  · exact congrArg encodeArray

theorem Propagated.ne_nil (kind : Propagated args) : args ≠ [] := by
  rcases kind with rfl | write
  · simp
  · rintro rfl
    exact absurd write (by decide)

theorem Propagated.isGetack (kind : Propagated args) :
    isGetack args = isGetackCommand (encodeArray args) := by
  rcases kind with rfl | write
  · rw [isGetackCommand_iff.mpr rfl]
    decide
  · rw [isGetack_write write, eq_comm, ← Bool.not_eq_true, isGetackCommand_iff]
    rintro rfl
    exact absurd write (by decide)

theorem legible_getack : Legible getackCommand := legible_of_kind (.inl rfl)

theorem Propagated.legible (kind : Propagated args) (fits : Encodable args) :
    Legible (encodeArray args) := by
  have read := parseCommand_encodeArray args [] fits.1 fits.2
  rw [append_nil] at read
  exact ⟨args, read, kind.isGetack⟩

theorem ackReply_append_inj {first second : Int} {left right : Bytes}
    (same : ackReply first ++ left = ackReply second ++ right) : first = second ∧ left = right := by
  obtain ⟨args, rest⟩ := encodeArray_append_inj same
  simp only [cons.injEq, true_and, and_true] at args
  exact ⟨intText_injective args, rest⟩

theorem le_of_mem_ackValues {offset value : Int} {messages : List Bytes}
    (member : value ∈ ackValues offset messages) : offset ≤ value := by
  induction messages generalizing offset with
  | nil => cases member
  | cons message messages ih =>
    rcases mem_append.mp member with here | later
    · split at here
      · exact Int.le_of_eq (mem_singleton.mp here).symm
      · cases here
    · have := ih later
      omega

theorem ackReply_early {message rest : Bytes} (filled : message ≠ []) :
    ackReply offset ++ rest ≠
      (ackValues (offset + message.length) messages).flatMap ackReply := by
  intro same
  have positive := length_pos_iff.mpr filled
  cases due : ackValues (offset + message.length) messages with
  | nil =>
    rw [due] at same
    exact encodeArray_ne_nil _ (append_eq_nil_iff.mp same).1
  | cons value values =>
    have bound := @le_of_mem_ackValues (offset + message.length) value messages (by simp [due])
    rw [due, flatMap_cons] at same
    have := (ackReply_append_inj same).1
    omega

theorem read_ne_nil {args read : List Bytes} {rest : Bytes} (named : args ≠ [])
    (parsed : parseOneInto (encodeArray args ++ rest) = .ok (read, (encodeArray args).length)) :
    read ≠ [] := by
  rintro rfl
  have header := parseCommand_header parsed
  cases args with
  | nil => exact named rfl
  | cons name args =>
    simp only [encodeArray, flatMap_cons, length_append, encodeBulkString,
      length_cons] at header
    omega

theorem ackValues_append (offset : Int) (first second : List Bytes) :
    ackValues offset (first ++ second) =
      ackValues offset first ++ ackValues (offset + first.flatten.length) second := by
  induction first generalizing offset with
  | nil => simp [ackValues]
  | cons message first ih =>
    simp only [cons_append, ackValues, ih, append_assoc, flatten_cons,
      length_append]
    congr 3
    push_cast
    omega

theorem legible_front (named : args ≠ []) (done : bufferLoop (fuel + 1)
      ⟨fd, encodeArray args ++ messages.flatten, offset⟩ = .ok (last,
        ⟨(ackValues offset (encodeArray args :: messages)).flatMap ackReply,
          payload isGetackCommand (encodeArray args :: messages)⟩))
    (empty : last.pendingBuffer = []) : Legible (encodeArray args) := by
  have given := encodeArray_ne_nil args
  cases marked : isGetackCommand (encodeArray args) with
  | true =>
    rw [isGetackCommand_iff.mp marked]
    exact legible_getack
  | false =>
    rcases bufferLoop_succ done with
      ⟨-, rfl, -⟩ | ⟨read, consumed, tail, parsed, rest, turn⟩
    · exact absurd (append_eq_nil_iff.mp empty).1 given
    simp only [ackValues, marked, Bool.false_eq_true, if_false, nil_append, payload,
      filter_cons, Bool.not_false, if_true, ProcessedBuffer.mk.injEq] at turn
    rcases turn with ⟨-, acks, -⟩ | ⟨plain, room, -, copies⟩
    · exact absurd acks.symm (ackReply_early given)
    have length := congrArg length (cons.inj copies).1
    rw [length_take, length_append, length_singleton] at length
    have precise : consumed = (encodeArray args).length := by omega
    rw [parseOne_iff, precise] at parsed
    exact ⟨read, parseCommand_shrink parsed (read_ne_nil named parsed)
      (Nat.le_add_right _ _), by rw [plain, marked]⟩

theorem legible_of_reading (kinds : ∀ args ∈ commands, Propagated args) (done : bufferLoop fuel
      ⟨fd, (commands.map encodeArray).flatten, offset⟩ = .ok (last,
        ⟨(ackValues offset (commands.map encodeArray)).flatMap ackReply,
          payload isGetackCommand (commands.map encodeArray)⟩)) (empty : last.pendingBuffer = []) :
    ∀ args ∈ commands, Legible (encodeArray args) := by
  induction commands generalizing offset fuel with
  | nil => simp
  | cons args commands ih =>
    rw [map_cons, flatten_cons] at done
    cases fuel with
    | zero =>
      simp only [bufferLoop, Except.ok.injEq, Prod.mk.injEq] at done
      rw [← done.1] at empty
      exact absurd (append_eq_nil_iff.mp empty).1 (encodeArray_ne_nil args)
    | succ fuel =>
      have front := legible_front (kinds args mem_cons_self).ne_nil done empty
      have acks := ackValues_append offset [encodeArray args] (commands.map encodeArray)
      have writes := @payload_append _ isGetackCommand [encodeArray args]
        (commands.map encodeArray)
      rw [singleton_append, flatten_singleton] at acks
      rw [singleton_append] at writes
      rw [bufferLoop_legible front, acks, flatMap_append, writes] at done
      cases rest : bufferLoop fuel
        ⟨fd, (commands.map encodeArray).flatten, offset + (encodeArray args).length⟩ with
      | error fault => simp [rest, Except.map] at done
      | ok result =>
        simp only [rest, Except.map, Except.ok.injEq, Prod.mk.injEq,
          ProcessedBuffer.mk.injEq, append_cancel_left_eq] at done
        obtain ⟨rfl, responses, copies⟩ := done
        have later := ih (fun other member => kinds other (mem_cons_of_mem args member))
          (rest.trans (by rw [← responses, ← copies]))
        intro other member
        rcases mem_cons.mp member with rfl | member
        · exact front
        · exact later other member

/-- The connector has read some messages and holds the beginning of the next. -/
def Synced (fd : Fd) (messages : List Bytes) (connector : ReplicaConnector)
    (outputs : List ProcessedBuffer) (begun : Bytes) (rest : List Bytes) : Prop :=
  ∃ done, messages = done ++ rest ∧ connector = ⟨fd, begun, done.flatten.length⟩ ∧
    outputs.flatMap ProcessedBuffer.ackResponses =
      (ackValues 0 done).flatMap ackReply ∧
    outputs.flatMap ProcessedBuffer.commands = payload isGetackCommand done

theorem legible_isCommand (kind : Propagated args) (legible : Legible (encodeArray args)) :
    IsCommand (encodeArray args) := by
  obtain ⟨read, parsed, -⟩ := legible
  exact ⟨read, @read_ne_nil args read [] kind.ne_nil (by rwa [append_nil]), parsed⟩

theorem Synced.receive (texts : ∀ message ∈ messages, Legible message ∧ IsCommand message)
    (synced : Synced fd messages connector outputs begun rest) (parts : rest = fresh ++ ahead)
    (arrived : begun ++ chunk = fresh.flatten ++ held) (begins : Begins held ahead)
    (cut : missing ahead held.length = 0 ∨ 2 < missing ahead held.length) :
    ∃ next output, connector.receive chunk = .ok (next, output) ∧
      Synced fd messages next (outputs ++ [output]) held ahead := by
  obtain ⟨done, rfl, rfl, acks, commands⟩ := synced
  subst parts
  have waits : ∀ parsed, parseOne held ≠ .ok parsed := by
    intro parsed accepted
    exact parse_waits (fun message member => (texts message (by simp [member])).2) begins cut _
      (parseOne_iff.mp accepted)
  have each : ∀ message ∈ fresh, Legible message :=
    fun message member => (texts message (by simp [member])).1
  have enough : fresh.length ≤ (fresh.flatten ++ held).length := by
    have most := messages_length_le fun message member => (each message member).ne_nil
    rw [length_append]
    omega
  have loop := bufferLoop_messages fd fresh each waits (done.flatten.length : Int) enough
  rw [← arrived] at loop
  refine ⟨_, _, loop, done ++ fresh, by rw [append_assoc], ?_, ?_, ?_⟩
  · rw [flatten_append, length_append, Int.natCast_add]
  · rw [flatMap_append, acks, ackValues_append, flatMap_append, Int.zero_add,
      flatMap_singleton]
  · rw [flatMap_append, commands, payload_append, flatMap_singleton]

theorem bufferLoop_overreach (legible : ∀ message ∈ messages, Legible message)
    (accepted : parseOne held = .ok ⟨args, consumed⟩) (beyond : held.length < consumed)
    (enough : (messages.flatten ++ held).length ≤ fuel)
    (done : bufferLoop fuel ⟨fd, messages.flatten ++ held, offset⟩ =
      .ok (last, processed)) : offset + (messages.flatten ++ held).length < last.reach := by
  induction messages generalizing offset fuel processed with
  | nil =>
    have positive := parseOne_consumes accepted
    cases fuel with
    | zero =>
      simp only [flatten_nil, nil_append] at enough
      omega
    | succ fuel =>
      rcases bufferLoop_succ done with
        ⟨waits, -, -⟩ | ⟨read, count, later, parsed, rest, -⟩
      · exact absurd accepted (waits _)
      simp only [flatten_nil, nil_append] at parsed rest ⊢
      rw [accepted] at parsed
      cases parsed
      have further := bufferLoop_reach rest
      simp only [reach, length_drop] at further ⊢
      omega
  | cons message messages ih =>
    have front := legible message mem_cons_self
    have positive := length_pos_iff.mpr front.ne_nil
    simp only [flatten_cons, append_assoc, length_append] at done enough ⊢
    cases fuel with
    | zero => omega
    | succ fuel =>
      rw [bufferLoop_legible front] at done
      cases rest : bufferLoop fuel
        ⟨fd, messages.flatten ++ held, offset + message.length⟩ with
      | error fault => simp [rest, Except.map] at done
      | ok result =>
        simp only [rest, Except.map, Except.ok.injEq, Prod.mk.injEq] at done
        obtain ⟨rfl, -⟩ := done
        have further := ih (fun other member => legible other (by simp [member]))
          (by rw [length_append]; omega) rest
        rw [length_append] at further
        omega

/-- The link has handed on every command, answered every request with the bytes in
front of it, and holds nothing back. -/
structure ReadsStream (commands : List (List Bytes)) (last : ReplicaConnector)
    (outputs : List ProcessedBuffer) : Prop where
  handed : outputs.flatMap ProcessedBuffer.commands =
    (commands.filter fun args => !isGetack args).map encodeArray
  acks : outputs.flatMap ProcessedBuffer.ackResponses =
    (ackValues 0 (commands.map encodeArray)).flatMap ackReply
  offset : last.offset = (commands.flatMap encodeArray).length
  buffer : last.pendingBuffer = []

theorem payload_encoded (kinds : ∀ args ∈ commands, Propagated args) :
    payload isGetackCommand (commands.map encodeArray) =
      (commands.filter fun args => !isGetack args).map encodeArray := by
  rw [payload, filter_map]
  congr 1
  apply filter_congr
  intro args member
  rw [Function.comp_apply, (kinds args member).isGetack]

theorem run_in_step (fd : Fd) {messages chunks : List Bytes} {later : Bytes}
    (texts : ∀ message ∈ messages, Legible message ∧ IsCommand message)
    (stream : chunks.flatten ++ later = messages.flatten) (well : CutWell 2 messages 0 chunks) :
    ∃ last outputs fresh held ahead,
      Run.run receive ⟨fd, [], 0⟩ chunks = .ok (last, outputs) ∧
      Synced fd messages last outputs held ahead ∧ messages = fresh ++ ahead ∧
      chunks.flatten = fresh.flatten ++ held ∧ Begins held ahead := by
  have filled : ∀ message ∈ messages, message ≠ [] := fun message member =>
    (texts message member).1.ne_nil
  have every := @Run.along_of_forall _ _ _ _ receive (fun _ => True) chunks
    (fun _ _ => trivial) ⟨fd, [], 0⟩
  have start : Synced fd messages ⟨fd, [], 0⟩ [] [] messages := ⟨[], rfl, rfl, rfl, rfl⟩
  have stepwise := @run_synced _ _ _ _ _ id receive 2 _ (Synced fd messages)
    (fun connector outputs begun rest fresh chunk held ahead synced _ parts arrived begins cut =>
      synced.receive texts parts arrived begins cut)
    _ _ _ later messages chunks filled start (begins_nil filled) (by simpa using stream) every
    (by simpa using well)
  simpa only [map_id, nil_append] using stepwise

theorem Synced.overreach {next : ReplicaConnector} {output : ProcessedBuffer}
    (texts : ∀ message ∈ messages, Legible message ∧ IsCommand message)
    (synced : Synced fd messages connector outputs begun rest)
    (taken : connector.receive chunk = .ok (next, output)) (parts : rest = fresh ++ ahead)
    (arrived : begun ++ chunk = fresh.flatten ++ held) (begins : Begins held ahead)
    (positive : 0 < missing ahead held.length) (few : missing ahead held.length ≤ 2) :
    connector.reach + chunk.length < next.reach := by
  obtain ⟨done, rfl, rfl, -, -⟩ := synced
  subst parts
  obtain ⟨args, consumed, accepted, beyond⟩ :=
    parse_early (fun message member => (texts message (by simp [member])).2) begins positive few
  rw [ReplicaConnector.receive, processBufferImpl] at taken
  simp only [arrived] at taken
  have further := bufferLoop_overreach (fun other inside => (texts other (by simp [inside])).1)
    (parseOne_iff.mpr accepted) beyond (Nat.le_refl _) taken
  rw [← arrived, length_append] at further
  simp only [reach] at further ⊢
  omega

/-- The replica follows its stream exactly when every command is read back from
its own text and no chunk ends one or two bytes before the end of a command. -/
theorem link_insensitive_iff (fd : Fd) {commands : List (List Bytes)} {chunks : List Bytes}
    (kinds : ∀ args ∈ commands, Propagated args)
    (stream : chunks.flatten = commands.flatMap encodeArray) :
    (∃ last outputs, Run.run ReplicaConnector.receive ⟨fd, [], 0⟩ chunks = .ok (last, outputs) ∧
        ReadsStream commands last outputs) ↔
      (∀ args ∈ commands, Legible (encodeArray args)) ∧
        CutWell 2 (commands.map encodeArray) 0 chunks := by
  rw [List.flatMap_def] at stream
  have texts : (∀ args ∈ commands, Legible (encodeArray args)) →
      ∀ message ∈ commands.map encodeArray, Legible message ∧ IsCommand message :=
    fun legible => List.forall_mem_map.mpr fun args inside =>
      ⟨legible args inside, legible_isCommand (kinds args inside) (legible args inside)⟩
  constructor
  · rintro ⟨last, outputs, ran, reads⟩
    have kept : last.reach = ReplicaConnector.reach ⟨fd, [], 0⟩ + chunks.flatten.length := by
      rw [ReplicaConnector.reach, ReplicaConnector.reach, reads.offset, reads.buffer,
        List.flatMap_def, stream]
      simp
    have whole := run_oneshot parseOne_nil ran kept
    rw [reads.handed, reads.acks, ← payload_encoded kinds, stream] at whole
    have legible := legible_of_reading kinds whole reads.buffer
    refine ⟨legible, ?_⟩
    by_contra bad
    -- up to the first bad cut the link is in step, and there it overreaches
    rw [← List.map_id chunks] at bad
    obtain ⟨earlier, chunk, later, rfl, well, short, few⟩ := exists_badly_cut bad
    rw [List.map_id] at well short few
    have cut : earlier.flatten ++ (chunk ++ later.flatten) =
        (commands.map encodeArray).flatten := by
      rw [← stream]
      simp
    obtain ⟨middle, early, done, begun, rest, before, synced, parts, sofar, -⟩ :=
      run_in_step fd (texts legible) cut well
    obtain ⟨reached, first, second, ran, behind, -⟩ := Run.run_append ran
    cases before.symm.trans ran
    obtain ⟨next, output, final, taken, remaining, -⟩ := Run.run_cons behind
    obtain ⟨fresh, held, ahead, rfl, arrived, begins, -, left⟩ :=
      split_chunk (fun message member => (texts legible message member).1.ne_nil) parts sofar cut
    rw [Nat.zero_add, List.flatten_concat, left] at short few
    have beyond := synced.overreach (texts legible) taken rfl arrived begins short few
    have onward := run_reach remaining
    have reach := run_reach before
    simp only [List.flatten_append, List.flatten_cons, List.length_append] at kept
    omega
  · rintro ⟨legible, well⟩
    obtain ⟨last, outputs, done, held, rest, ran, synced, parts, arrived, begins⟩ :=
      @run_in_step fd _ chunks [] (texts legible) (by rw [List.append_nil, stream]) well
    rw [stream, parts, List.flatten_append, List.append_cancel_left_eq] at arrived
    obtain ⟨rfl, rfl⟩ := begins.complete arrived.symm
    obtain ⟨throughout, complete, rfl, acks, handed⟩ := synced
    rw [List.append_nil] at complete
    subst complete
    refine ⟨_, outputs, ran, ?_, acks, ?_, rfl⟩
    · rw [handed, payload_encoded kinds]
    · rw [List.flatMap_def]

theorem link_follows_write_and_getack :
    ∃ last outputs, Run.run ReplicaConnector.receive ⟨9, [], 0⟩
        [(encodeArray [ascii "SET", ascii "k", ascii "v"]).take 6,
          (encodeArray [ascii "SET", ascii "k", ascii "v"]).drop 6 ++ getackCommand.take 15,
          getackCommand.drop 15] = .ok (last, outputs) ∧
      ReadsStream [[ascii "SET", ascii "k", ascii "v"],
        [ascii "REPLCONF", ascii "GETACK", ascii "*"]] last outputs := by
  refine (link_insensitive_iff 9 ?_ (by decide +kernel)).mpr ⟨?_, by decide +kernel⟩
  · decide +kernel
  · intro args member
    have both : Propagated args ∧ Encodable args := by
      revert args
      decide +kernel
    exact both.1.legible both.2

/-- The chunk ends inside the last line end: the command is handed on with a zero
byte in it, and the line feed that comes later stays in front of everything. -/
theorem cut_inside_line_end_desynchronises :
    Run.run ReplicaConnector.receive ⟨9, [], 0⟩
        [(encodeArray [ascii "SET", ascii "k", ascii "v"]).dropLast,
          10 :: encodeArray [ascii "SET", ascii "k", ascii "w"]] =
      .ok (⟨9, 10 :: encodeArray [ascii "SET", ascii "k", ascii "w"], 27⟩,
        [⟨[], [(encodeArray [ascii "SET", ascii "k", ascii "v"]).dropLast ++ [0]]⟩,
          ⟨[], []⟩]) := by
  decide +kernel

end Credis
