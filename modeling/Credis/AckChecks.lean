import Mathlib.Data.List.Perm.Basic
import Credis.ReplicationCore
import Credis.RespChecks
import Credis.Run

/-! Acknowledgements. A replica counts the bytes of everything it reads, the
master those of the writes only, so the second acknowledgement of a replica
overstates what it has processed. -/

namespace Credis

open ByteString MarkedStream ServerState ReplicaConnector ReplicaManager

variable {fd : Fd} {delivered : List Bytes} {manager : ReplicaManager}

variable {raw : Bytes} {offset value : Int} {net : Replication}

variable {message : Bytes} {args sent messages commands : List Bytes} {link : Link}
  {event : ReplicationEvent} {fuel : Nat} {recorded : Int} {replica : ReplicaState}
  {replicas : List ReplicaState} {result : ProcessState}

theorem parseOne_append {length : Nat} (rest : Bytes)
    (parsed : parseOneInto raw = .ok (args, length)) :
    parseOne (raw ++ rest) = .ok ⟨args, length⟩ := by
  rw [parseOne, parseCommand_append raw rest args length parsed]
  rfl

theorem parseOne_nil (parsed : ParsedCommand) : parseOne [] ≠ .ok parsed := by
  simp [parseOne, parseCommand, Except.map]

namespace Replication

theorem isWriteText_parsed (write : isWriteText raw = true) :
    ∃ args, parseOneInto raw = .ok (args, raw.length) ∧
      isWriteCommand (toUpper (args.headD [])) = true := by
  unfold isWriteText at write
  split at write
  · rename_i args length parsed
    simp only [Bool.and_eq_true, beq_iff_eq] at write
    exact ⟨args, by rw [parsed, write.1], write.2⟩
  · cases write

theorem isWriteText_marker (write : isWriteText raw = true) : isGetackCommand raw = false := by
  rw [isGetackCommand, beq_eq_false_iff_ne]
  rintro rfl
  exact absurd write (by decide +kernel)

theorem isGetack_write (write : isWriteCommand (toUpper (args.headD [])) = true) :
    isGetack args = false := by
  unfold isGetack
  split
  · rename_i name option rest
    rw [List.headD_cons] at write
    have different : toUpper name ≠ ascii "REPLCONF" := by
      intro same
      rw [same] at write
      exact absurd write (by decide)
    simp [different]
  · rfl

def ackValues : Int → List Bytes → List Int
  | _, [] => []
  | offset, message :: rest =>
    (if isGetackCommand message then [offset] else []) ++
      ackValues (offset + message.length) rest

/-- The replica reads the message as it stands, and as a request for an
acknowledgement only if it is the one that the master sends. -/
def Legible (message : Bytes) : Prop :=
  ∃ args, parseOneInto message = .ok (args, message.length) ∧
    isGetack args = isGetackCommand message

theorem legible_of_kind (kind : message = getackCommand ∨ isWriteText message = true) :
    Legible message := by
  rcases kind with rfl | write
  · refine ⟨[ascii "REPLCONF", ascii "GETACK", ascii "*"], ?_, ?_⟩
    · have read := parseCommand_encodeArray [ascii "REPLCONF", ascii "GETACK", ascii "*"] []
        (by decide) (by decide)
      rwa [List.append_nil] at read
    · rw [isGetackCommand, beq_self_eq_true]
      decide
  · obtain ⟨args, read, name⟩ := isWriteText_parsed write
    exact ⟨args, read, by rw [isGetack_write name, isWriteText_marker write]⟩

theorem Legible.ne_nil (legible : Legible message) : message ≠ [] := by
  obtain ⟨args, read, -⟩ := legible
  exact (parseCommand_consumes read).1

theorem bufferLoop_legible (legible : Legible message) (fd : Fd) (rest : Bytes) (offset : Int)
    (fuel : Nat) :
    bufferLoop (fuel + 1) ⟨fd, message ++ rest, offset⟩ =
      (bufferLoop fuel ⟨fd, rest, offset + message.length⟩).map fun result =>
        (result.1,
          ⟨(ackValues offset [message]).flatMap ackReply ++
              result.2.ackResponses,
            payload isGetackCommand [message] ++ result.2.commands⟩) := by
  obtain ⟨args, read, kind⟩ := legible
  have copied : copyFront (message ++ rest) message.length = .ok message := by
    rw [copyFront, if_pos (by simp; omega), List.append_assoc, List.take_left]
  rw [bufferLoop, parseOne_append rest read]
  simp only [kind, List.drop_left, copied]
  generalize bufferLoop fuel ⟨fd, rest, offset + message.length⟩ = later
  cases marked : isGetackCommand message with
  | true => cases later <;> simp [ackValues, payload, Except.map, marked]
  | false => cases later <;> simp [ackValues, payload, Except.map, marked]

theorem bufferLoop_front (fd : Fd) (messages : List Bytes)
    (legible : ∀ message ∈ messages, Legible message) (held : Bytes) (offset : Int) (fuel : Nat) :
    bufferLoop (messages.length + fuel) ⟨fd, messages.flatten ++ held, offset⟩ =
      (bufferLoop fuel ⟨fd, held, offset + messages.flatten.length⟩).map
        fun result =>
          (result.1,
            ⟨(ackValues offset messages).flatMap ackReply ++
                result.2.ackResponses,
              payload isGetackCommand messages ++ result.2.commands⟩) := by
  induction messages generalizing offset with
  | nil =>
    simp only [List.length_nil, Nat.zero_add, List.flatten_nil, List.nil_append, ackValues,
      List.flatMap_nil, Int.natCast_zero, Int.add_zero, payload, List.filter_nil]
    cases bufferLoop fuel ⟨fd, held, offset⟩ <;> rfl
  | cons message messages ih =>
    have later := ih (fun other member => legible other (by simp [member]))
      (offset + message.length)
    have total : offset + (message.length : Int) + (messages.flatten.length : Int) =
        offset + ((message ++ messages.flatten).length : Int) := by
      rw [List.length_append]
      omega
    have count : (message :: messages).length + fuel = messages.length + fuel + 1 := by
      rw [List.length_cons]
      omega
    rw [count, List.flatten_cons, List.append_assoc,
      bufferLoop_legible (legible message (by simp)), later, total]
    have whole := @payload_append _ isGetackCommand [message] messages
    rw [List.singleton_append] at whole
    cases bufferLoop fuel
        ⟨fd, held, offset + ((message ++ messages.flatten).length : Int)⟩ with
    | error fault => rfl
    | ok result =>
      simp only [Except.map, ackValues, List.append_nil, List.flatMap_append,
        List.append_assoc, whole]

theorem bufferLoop_idle {connector : ReplicaConnector}
    (waits : ∀ parsed, parseOne connector.pendingBuffer ≠ .ok parsed) (fuel : Nat) :
    bufferLoop fuel connector = .ok (connector, ⟨[], []⟩) := by
  cases fuel with
  | zero => rfl
  | succ fuel =>
    cases read : parseOne connector.pendingBuffer with
    | ok parsed => exact absurd read (waits parsed)
    | error failure => simp only [bufferLoop, read]

theorem bufferLoop_messages (fd : Fd) (messages : List Bytes)
    (legible : ∀ message ∈ messages, Legible message) {held : Bytes}
    (waits : ∀ parsed, parseOne held ≠ .ok parsed) (offset : Int)
    (enough : messages.length ≤ fuel) :
    bufferLoop fuel ⟨fd, messages.flatten ++ held, offset⟩ =
      .ok (⟨fd, held, offset + messages.flatten.length⟩,
        ⟨(ackValues offset messages).flatMap ackReply,
          payload isGetackCommand messages⟩) := by
  obtain ⟨more, rfl⟩ := Nat.exists_eq_add_of_le enough
  rw [bufferLoop_front fd messages legible,
    @bufferLoop_idle ⟨fd, held, offset + messages.flatten.length⟩ waits]
  simp only [Except.map, List.append_nil]

def AckOf (delivered : List Bytes) (offset : Int) : Prop :=
  ∃ before after, delivered = before ++ getackCommand :: after ∧
    offset = (before.flatten.length : Int)

theorem AckOf.append (ack : AckOf delivered offset) (more : List Bytes) :
    AckOf (delivered ++ more) offset := by
  obtain ⟨before, after, rfl, value⟩ := ack
  exact ⟨before, after ++ more, by simp, value⟩

theorem AckOf.bounds (ack : AckOf delivered offset) :
    0 ≤ offset ∧ offset ≤ (delivered.flatten.length : Int) := by
  obtain ⟨before, after, rfl, rfl⟩ := ack
  simp only [List.flatten_append, List.length_append]
  omega

theorem ackValues_ackOf (member : value ∈ ackValues delivered.flatten.length messages) :
    AckOf (delivered ++ messages) value := by
  induction messages generalizing delivered with
  | nil => simp [ackValues] at member
  | cons message messages ih =>
    rw [ackValues, List.mem_append] at member
    rcases member with here | later
    · split at here
      · rename_i marker
        rw [isGetackCommand, beq_iff_eq] at marker
        rw [List.mem_singleton] at here
        exact ⟨delivered, messages, by rw [marker], here⟩
      · simp at here
    · have longer : (delivered.flatten.length : Int) + (message.length : Int) =
          ((delivered ++ [message]).flatten.length : Int) := by simp
      rw [longer] at later
      simpa using ih later

theorem ackReply_parsed (positive : 0 ≤ value) (bound : value < 2 ^ 63) (rest : Bytes) :
    ∃ args, parseOne (ackReply value ++ rest) =
        .ok ⟨args, (ackReply value).length⟩ ∧
      ackOffset args = some value := by
  obtain ⟨number, rfl⟩ := Int.eq_ofNat_of_zero_le positive
  have short : (natText number).length ≤ 19 := natText_length (by decide) (by omega)
  refine ⟨[ascii "REPLCONF", ascii "ACK", intText number], ?_, ?_⟩
  · have sizes : ∀ arg ∈ [ascii "REPLCONF", ascii "ACK", intText number],
        arg.length < 2 ^ 31 := by
      intro arg member
      simp only [List.mem_cons, List.not_mem_nil, or_false] at member
      rcases member with rfl | rfl | rfl
      · decide
      · decide
      · exact Nat.lt_of_le_of_lt short (by decide)
    rw [ackReply, parseOne, parseCommand_encodeArray _ rest (by simp) sizes]
    rfl
  · have upper : toUpper (ascii "REPLCONF") = ascii "REPLCONF" ∧
        toUpper (ascii "ACK") = ascii "ACK" := by decide
    rw [ackOffset, if_pos upper]
    exact parseInt64_intText (by omega) (by omega)

theorem ackLoop_values (values : List Int) (bounds : ∀ value ∈ values, 0 ≤ value ∧ value < 2 ^ 63)
    (enough : values.length ≤ fuel) :
    ackLoop fuel (values.flatMap ackReply) =
      (values.getLast?, (values.flatMap ackReply).length) := by
  induction values generalizing fuel with
  | nil =>
    cases fuel with
    | zero => rfl
    | succ fuel => simp [ackLoop, parseOne, parseCommand, Except.map]
  | cons value values ih =>
    cases fuel with
    | zero => simp at enough
    | succ fuel =>
      obtain ⟨positive, bound⟩ := bounds value (by simp)
      obtain ⟨args, parsed, read⟩ := ackReply_parsed positive bound
        (values.flatMap ackReply)
      have later := ih (fun other member => bounds other (by simp [member]))
        (Nat.le_of_succ_le_succ enough)
      simp only [List.flatMap_cons, ackLoop, parsed, List.drop_left, later,
        read, List.length_append, Prod.mk.injEq, and_true]
      cases values with
      | nil => rfl
      | cons next rest =>
        rw [List.getLast?_cons_cons, List.getLast?_eq_some_getLast (by simp)]
        rfl

theorem messages_length_le (filled : ∀ message ∈ messages, message ≠ []) :
    messages.length ≤ messages.flatten.length := by
  induction messages with
  | nil => exact Nat.zero_le _
  | cons message messages ih =>
    have here := List.length_pos_iff.mpr (filled message (by simp))
    have more := ih fun other member => filled other (by simp [member])
    simp only [List.length_cons, List.flatten_cons, List.length_append]
    omega

theorem processAck_values {values : List Int} (known : manager.contains fd = true)
    (bounds : ∀ value ∈ values, 0 ≤ value ∧ value < 2 ^ 63) :
    ∃ recorded : ReplicaManager,
      recorded = (match values.getLast? with
        | none => manager
        | some offset =>
          { manager with
            replicas := setOffset fd offset manager.replicas }) ∧
      (manager.processAck fd (values.flatMap ackReply)).1 =
        recorded.settleWait.1 ∧
      (manager.processAck fd (values.flatMap ackReply)).2.wait =
        recorded.settleWait.2 := by
  have enough : (values.map ackReply).length ≤ (values.map ackReply).flatten.length :=
    messages_length_le (by simp [ackReply, encodeArray, arrayHeader])
  rw [List.length_map, ← List.flatMap_def] at enough
  have loop := ackLoop_values values bounds enough
  refine ⟨_, rfl, ?_, ?_⟩
  all_goals
    cases last : values.getLast? <;>
      simp only [processAck, known, if_true, loop, last]

theorem setOffset_fds (fd : Fd) (offset : Int) (replicas : List ReplicaState) :
    (setOffset fd offset replicas).map ReplicaState.fd =
      replicas.map ReplicaState.fd := by
  induction replicas with
  | nil => rfl
  | cons replica replicas ih =>
    unfold setOffset
    split
    · rfl
    · rw [List.map_cons, ih, List.map_cons]

theorem mem_setOffset (distinct : (replicas.map ReplicaState.fd).Nodup)
    (member : replica ∈ setOffset fd offset replicas) :
    (replica.fd = fd ∧ replica.offset = offset ∧ ∃ old ∈ replicas, old.fd = fd) ∨
      (replica.fd ≠ fd ∧ replica ∈ replicas) := by
  induction replicas with
  | nil => cases member
  | cons first replicas ih =>
    rw [List.map_cons, List.nodup_cons] at distinct
    unfold setOffset at member
    split at member
    · rename_i here
      rcases List.mem_cons.mp member with rfl | later
      · exact .inl ⟨here, rfl, first, by simp, here⟩
      · refine .inr ⟨fun same => distinct.1 ?_, by simp [later]⟩
        rw [here, ← same]
        exact List.mem_map_of_mem later
    · rename_i elsewhere
      rcases List.mem_cons.mp member with rfl | later
      · exact .inr ⟨elsewhere, by simp⟩
      · rcases ih distinct.2 later with ⟨same, value, old, present, found⟩ | ⟨other, present⟩
        · exact .inl ⟨same, value, old, by simp [present], found⟩
        · exact .inr ⟨other, by simp [present]⟩

theorem removeFirst_perm (fd : Fd) (replicas : List ReplicaState) :
    (removeFirst fd replicas).Perm
      (replicas.eraseP fun replica => replica.fd == fd) := by
  rw [List.eraseP_eq_eraseIdx]
  unfold removeFirst
  cases found : replicas.findIdx? fun replica => replica.fd == fd with
  | none => exact .refl _
  | some index =>
    dsimp only
    rcases List.eq_nil_or_concat' replicas with rfl | ⟨init, last, rfl⟩
    · simp at found
    have inside : index < (init ++ [last]).length :=
      (List.findIdx?_eq_some_iff_getElem.mp found).1
    rw [List.getLast?_concat]
    dsimp only
    by_cases early : index < init.length
    · rw [List.set_append_left _ _ early, List.dropLast_concat,
        List.eraseIdx_append_of_lt_length early]
      exact (List.set_perm_cons_eraseIdx early last).trans
        (List.perm_append_singleton last _).symm
    · have latest : index = init.length := by
        simp only [List.length_append, List.length_singleton] at inside
        omega
      subst latest
      simp [List.eraseIdx_append_of_length_le]

theorem filterMap_fd (message : Bytes) (distinct : (replicas.map ReplicaState.fd).Nodup)
    (member : fd ∈ replicas.map ReplicaState.fd) :
    replicas.filterMap (fun replica => if replica.fd = fd then some message else none) =
      [message] := by
  have copies : replicas.filterMap
      (fun replica => if replica.fd = fd then some message else none) =
        List.replicate ((replicas.map ReplicaState.fd).count fd) message := by
    clear distinct member
    induction replicas with
    | nil => rfl
    | cons first replicas ih =>
      rw [List.filterMap_cons, List.map_cons, List.count_cons]
      by_cases here : first.fd = fd <;> simp [here, ih, List.replicate_succ]
  rw [copies, List.count_eq_one_of_mem distinct member]
  rfl

theorem messagesTo_append (fd : Fd) (first second : List Action) :
    messagesTo fd (first ++ second) = messagesTo fd first ++ messagesTo fd second := by
  simp [messagesTo]

theorem messagesTo_getack (distinct : (manager.replicas.map ReplicaState.fd).Nodup)
    (member : fd ∈ manager.replicas.map ReplicaState.fd) :
    messagesTo fd (manager.replicas.map fun replica => .getack replica.fd) = [getackCommand] := by
  rw [messagesTo, List.filterMap_map]
  exact filterMap_fd getackCommand distinct member

theorem dispatchPropagate_manager (commands : List Bytes) (manager : ReplicaManager) :
    (dispatchPropagate commands manager).1 =
      { manager with masterOffset := manager.masterOffset + commands.flatten.length } := by
  induction commands generalizing manager with
  | nil => simp [dispatchPropagate]
  | cons raw commands ih =>
    simp only [dispatchPropagate, ih, ReplicaManager.propagate, List.flatten_cons,
      List.length_append, ReplicaManager.mk.injEq, true_and, and_true]
    omega

theorem messagesTo_dispatchPropagate (commands : List Bytes)
    (distinct : (manager.replicas.map ReplicaState.fd).Nodup)
    (member : fd ∈ manager.replicas.map ReplicaState.fd) :
    messagesTo fd (dispatchPropagate commands manager).2 = commands := by
  induction commands generalizing manager with
  | nil => rfl
  | cons raw commands ih =>
    have later := @ih (manager.propagate raw) distinct member
    rw [dispatchPropagate, messagesTo_append, later, messagesTo, List.filterMap_map]
    exact congrArg (· ++ commands) (filterMap_fd raw distinct member)

theorem settleWait_frame (manager : ReplicaManager) :
    manager.settleWait.1.replicas = manager.replicas ∧
      manager.settleWait.1.masterOffset = manager.masterOffset ∧
      (manager.settleWait.1.waitState = manager.waitState ∨
        manager.settleWait.1.waitState = none) ∧
      ∀ result, manager.settleWait.2 = some result → ∃ wait, manager.waitState = some wait ∧
        result = ⟨wait.clientFd, manager.countAckedFor wait.targetOffset⟩ := by
  unfold settleWait
  split
  · rename_i lacking
    exact ⟨rfl, rfl, .inl rfl, fun result absent => by cases absent⟩
  rename_i wait present
  dsimp only
  split
  · exact ⟨rfl, rfl, .inr rfl, fun result found =>
      ⟨wait, present, (Option.some.inj found).symm⟩⟩
  · exact ⟨rfl, rfl, .inl rfl, fun result absent => by cases absent⟩

/-- The link of a replica agrees with what has been sent: `delivered` is what the
replica has read. -/
structure Coupled (sent : List Bytes) (link : Link) (recorded : Int) (delivered : List Bytes) :
    Prop where
  stream : sent = delivered ++ link.toReplica
  buffer : link.connector.pendingBuffer = []
  offset : link.connector.offset = delivered.flatten.length
  processed : link.processed = payload isGetackCommand delivered
  acks : ∀ chunk ∈ link.toMaster, ∃ values : List Int,
    chunk = values.flatMap ackReply ∧ ∀ value ∈ values, AckOf delivered value
  recorded : recorded = 0 ∨ AckOf delivered recorded

structure Balanced (net : Replication) : Prop where
  distinct : (net.manager.replicas.map ReplicaState.fd).Nodup
  kinds : ∀ message ∈ net.sent, message = getackCommand ∨ isWriteText message = true
  offset : net.manager.masterOffset = net.writes.flatten.length
  small : net.sent.flatten.length < 2 ^ 63
  target : ∀ wait, net.manager.waitState = some wait →
    wait.targetOffset ≤ net.manager.masterOffset
  settled : Settled isGetackCommand net.sent
  coupled : ∀ replica ∈ net.manager.replicas, ∃ delivered,
    Coupled net.sent (net.links replica.fd) replica.offset delivered

theorem bytes_length (stream : List Bytes) : bytes List.length stream = stream.flatten.length := by
  rw [bytes, List.length_flatten]

theorem Balanced.sound (holds : net.Balanced) (member : replica ∈ net.manager.replicas)
    {count : Nat} (recorded : (count : Int) ≤ replica.offset)
    (present : (count : Int) ≤ net.manager.masterOffset) :
    net.hasReceived count replica.fd = true := by
  obtain ⟨delivered, coupled⟩ := holds.coupled replica member
  unfold hasReceived
  rw [List.isPrefixOf_iff_prefix]
  rcases coupled.recorded with zero | ⟨before, after, parts, value⟩
  · have nothing : count = 0 := by omega
    rw [nothing, List.take_zero]
    exact List.nil_prefix
  · have stream : net.sent =
        before ++ getackCommand :: (after ++ (net.links replica.fd).toReplica) := by
      rw [coupled.stream, parts]
      simp
    rw [holds.offset, writes] at present
    have counted : count ≤ bytes List.length before := by
      rw [bytes_length]
      omega
    have propagated : count ≤ bytes List.length (payload isGetackCommand net.sent) := by
      rw [bytes_length]
      omega
    have read := holds.settled.counted List.length stream (by simp [isGetackCommand]) counted
      propagated
    rw [bytes_length] at read
    have first : net.writes.flatten.take count =
        (payload isGetackCommand before).flatten.take count := by
      rw [writes, stream, payload_append, List.flatten_append, List.take_append_of_le_length read]
    rw [first, coupled.processed, parts, payload_append, List.flatten_append]
    exact (List.take_prefix _ _).trans (List.prefix_append _ _)

theorem Balanced.countAcked (holds : net.Balanced) {target : Int}
    (present : target ≤ net.manager.masterOffset) :
    net.manager.countAckedFor target ≤ net.received target := by
  unfold countAckedFor received
  have fewer : net.manager.replicas.countP (fun replica => decide (target ≤ replica.offset)) ≤
      net.manager.replicas.countP fun replica => net.hasReceived target.toNat replica.fd := by
    apply List.countP_mono_left
    intro replica member acked
    have recorded : target ≤ replica.offset := by simpa using acked
    have positive : 0 ≤ replica.offset := by
      obtain ⟨delivered, coupled⟩ := holds.coupled replica member
      rcases coupled.recorded with zero | ack
      · omega
      · exact ack.bounds.1
    have offset : 0 ≤ net.manager.masterOffset := by
      rw [holds.offset]
      omega
    exact holds.sound member (by omega) (by omega)
  omega

theorem fd_not_mem_of_contains (new : manager.contains fd = false) :
    fd ∉ manager.replicas.map ReplicaState.fd := by
  intro member
  obtain ⟨replica, present, same⟩ := List.mem_map.mp member
  simp only [contains, find, Option.isSome_eq_false_iff,
    Option.isNone_iff_eq_none, List.find?_eq_none] at new
  exact new replica present (by simp [same])

theorem addReplica_nodup (distinct : (manager.replicas.map ReplicaState.fd).Nodup)
    (new : manager.contains fd = false) :
    ((manager.addReplica fd).replicas.map ReplicaState.fd).Nodup := by
  have absent := fd_not_mem_of_contains new
  simp only [addReplica, List.map_append, List.map_cons, List.map_nil]
  refine List.nodup_append.mpr ⟨distinct, by simp, ?_⟩
  intro first member second same
  rw [List.mem_singleton.mp same]
  rintro rfl
  exact absent member

theorem removeReplica_nodup (distinct : (manager.replicas.map ReplicaState.fd).Nodup) (fd : Fd) :
    ((manager.removeReplica fd).replicas.map ReplicaState.fd).Nodup := by
  have shorter := (removeFirst_perm fd manager.replicas).map ReplicaState.fd
  exact shorter.nodup_iff.mpr (distinct.sublist (List.eraseP_sublist.map _))

section Steps

variable {net : Replication}

def SoundAnswers (answers : List Answer) : Prop :=
  ∀ answer ∈ answers, answer.count ≤ answer.received

theorem Balanced.handshake (holds : net.Balanced) (proper : net.Proper (.handshake fd)) :
    ∃ next, net.step (.handshake fd) = .ok (next, []) ∧ next.Balanced := by
  obtain ⟨start, new⟩ := proper
  have absent := fd_not_mem_of_contains new
  refine ⟨_, rfl, ?_, holds.kinds, holds.offset, holds.small, holds.target, holds.settled, ?_⟩
  · exact addReplica_nodup holds.distinct new
  · intro replica member
    simp only [setLink, dispatchState, addReplica, List.mem_append,
      List.mem_singleton] at member ⊢
    rcases member with old | rfl
    · have other : replica.fd ≠ fd := by
        rintro rfl
        exact absent (List.mem_map_of_mem old)
      rw [Function.update_of_ne other]
      exact holds.coupled replica old
    · rw [Function.update_self]
      refine ⟨[], ?_, rfl, rfl, rfl, ?_, .inl rfl⟩
      · rw [start]
        rfl
      · intro chunk inside
        cases inside

theorem Balanced.leave (holds : net.Balanced) (fd : Fd) :
    ({ net with manager := net.manager.removeReplica fd } : Replication).Balanced := by
  have fewer : ∀ replica ∈ removeFirst fd net.manager.replicas,
      replica ∈ net.manager.replicas := by
    intro replica member
    exact List.mem_of_mem_eraseP ((removeFirst_perm fd _).mem_iff.mp member)
  refine ⟨?_, holds.kinds, holds.offset, holds.small, holds.target, holds.settled, ?_⟩
  · exact removeReplica_nodup holds.distinct fd
  · intro replica member
    exact holds.coupled replica (fewer replica member)

theorem setLink_self (fd : Fd) (link : Link) : (net.setLink fd link).links fd = link :=
  Function.update_self ..

theorem setLink_of_ne {other : Fd} (link : Link) (ne : other ≠ fd) :
    (net.setLink fd link).links other = net.links other :=
  Function.update_of_ne ne ..

theorem mem_of_contains (known : manager.contains fd = true) :
    ∃ replica ∈ manager.replicas, replica.fd = fd := by
  unfold contains find at known
  obtain ⟨replica, found⟩ := Option.isSome_iff_exists.mp known
  exact ⟨replica, List.mem_of_find?_eq_some found, by simpa using List.find?_some found⟩

theorem Balanced.timeouts (holds : net.Balanced) (now : Time) :
    ∃ next answers, net.step (.timeouts now) = .ok (next, answers) ∧ next.Balanced ∧
      SoundAnswers answers := by
  refine ⟨_, _, rfl, ?_⟩
  cases waiting : net.manager.waitState with
  | none =>
    refine ⟨⟨holds.distinct, holds.kinds, holds.offset, holds.small, ?_, holds.settled,
      holds.coupled⟩, ?_⟩
    · intro wait present
      cases waiting.symm.trans present
    · intro answer member
      cases member
  | some wait =>
    dsimp only
    split
    · exact ⟨⟨holds.distinct, holds.kinds, holds.offset, holds.small, holds.target,
        holds.settled, holds.coupled⟩, by intro answer member; cases member⟩
    refine ⟨⟨holds.distinct, holds.kinds, holds.offset, holds.small, ?_, holds.settled,
      holds.coupled⟩, ?_⟩
    · intro other present
      cases present
    · intro answer member
      simp only [answers, results, Option.toList_some, List.map_cons, List.map_nil,
        List.mem_singleton] at member
      subst member
      simp only [Replication.target, waiting, Option.map_some, Option.getD_some]
      exact holds.countAcked (holds.target wait waiting)

theorem Coupled.deliver (coupled : Coupled sent link recorded delivered)
    (kinds : ∀ message ∈ sent, message = getackCommand ∨ isWriteText message = true) (count : Nat) :
    ∃ connector processed, ({ link.connector with
        pendingBuffer := link.connector.pendingBuffer ++
          (link.toReplica.take count).flatten } : ReplicaConnector).processBufferImpl =
        .ok (connector, processed) ∧
      Coupled sent ⟨link.toReplica.drop count, connector, link.processed ++ processed.commands,
        link.toMaster ++ [processed.ackResponses]⟩ recorded
        (delivered ++ link.toReplica.take count) := by
  have taken : ∀ message ∈ link.toReplica.take count, Legible message := by
    intro message member
    apply legible_of_kind
    apply kinds
    rw [coupled.stream]
    exact List.mem_append_right _ (List.mem_of_mem_take member)
  have loop := bufferLoop_messages link.connector.fd (link.toReplica.take count) taken
    parseOne_nil link.connector.offset
    (messages_length_le fun message member => (taken message member).ne_nil)
  refine ⟨_, _, Eq.trans ?_ loop, ?_, rfl, ?_, ?_, ?_, ?_⟩
  · unfold processBufferImpl
    rw [coupled.buffer, List.nil_append, List.append_nil]
  · rw [List.append_assoc, List.take_append_drop]
    exact coupled.stream
  · dsimp only
    rw [coupled.offset, List.flatten_append, List.length_append]
    omega
  · rw [coupled.processed, payload_append]
  · intro chunk member
    rcases List.mem_append.mp member with old | new
    · obtain ⟨values, text, acks⟩ := coupled.acks chunk old
      exact ⟨values, text, fun value inside => (acks value inside).append _⟩
    · refine ⟨_, List.mem_singleton.mp new, fun value inside => ?_⟩
      rw [coupled.offset] at inside
      exact ackValues_ackOf inside
  · exact coupled.recorded.imp_right fun ack => ack.append _

theorem Balanced.deliver (holds : net.Balanced) (count : Nat)
    (proper : net.Proper (.deliver fd count)) :
    ∃ next, net.step (.deliver fd count) = .ok (next, []) ∧ next.Balanced := by
  obtain ⟨reader, present, rfl⟩ := mem_of_contains proper
  obtain ⟨_, coupled⟩ := holds.coupled reader present
  obtain ⟨connector, processed, read, -⟩ := coupled.deliver holds.kinds count
  have taken : net.step (.deliver reader.fd count) = .ok (net.setLink reader.fd
      ⟨(net.links reader.fd).toReplica.drop count, connector,
        (net.links reader.fd).processed ++ processed.commands,
        (net.links reader.fd).toMaster ++ [processed.ackResponses]⟩, []) := by
    simp only [step, read]
  refine ⟨_, taken, holds.distinct, holds.kinds, holds.offset, holds.small, holds.target,
    holds.settled, ?_⟩
  intro replica member
  obtain ⟨delivered, other⟩ := holds.coupled replica member
  by_cases same : replica.fd = reader.fd
  · rw [same] at other
    obtain ⟨_, _, again, next⟩ := other.deliver holds.kinds count
    rw [read] at again
    cases again
    refine ⟨delivered ++ (net.links reader.fd).toReplica.take count, ?_⟩
    rw [same, setLink_self]
    exact next
  · refine ⟨delivered, ?_⟩
    rw [setLink_of_ne _ same]
    exact other

theorem acks_flatten {chunks : List Bytes} (acks : ∀ chunk ∈ chunks, ∃ values : List Int,
      chunk = values.flatMap ackReply ∧
        ∀ value ∈ values, AckOf delivered value) :
    ∃ values : List Int, chunks.flatten = values.flatMap ackReply ∧
      ∀ value ∈ values, AckOf delivered value := by
  induction chunks with
  | nil => exact ⟨[], rfl, fun value member => by cases member⟩
  | cons chunk chunks ih =>
    obtain ⟨first, text, here⟩ := acks chunk (by simp)
    obtain ⟨later, rest, there⟩ := ih fun other member => acks other (by simp [member])
    refine ⟨first ++ later, ?_, ?_⟩
    · rw [List.flatten_cons, text, rest, List.flatMap_append]
    · intro value member
      exact (List.mem_append.mp member).elim (here value) (there value)

theorem Coupled.small (coupled : Coupled sent link recorded delivered)
    (small : sent.flatten.length < 2 ^ 63) (ack : AckOf delivered value) :
    0 ≤ value ∧ value < 2 ^ 63 := by
  have bounds := ack.bounds
  rw [coupled.stream, List.flatten_append, List.length_append] at small
  omega

theorem Coupled.drop {sent : List Bytes} {link : Link} {recorded : Int} (count : Nat)
    (coupled : Coupled sent link recorded delivered) :
    Coupled sent { link with toMaster := link.toMaster.drop count } recorded delivered :=
  ⟨coupled.stream, coupled.buffer, coupled.offset, coupled.processed,
    fun chunk member => coupled.acks chunk (List.mem_of_mem_drop member), coupled.recorded⟩

theorem Balanced.drop (holds : net.Balanced) (fd : Fd) (count : Nat) :
    (net.setLink fd { net.links fd with
      toMaster := (net.links fd).toMaster.drop count }).Balanced := by
  refine ⟨holds.distinct, holds.kinds, holds.offset, holds.small, holds.target, holds.settled, ?_⟩
  intro replica member
  obtain ⟨delivered, coupled⟩ := holds.coupled replica member
  refine ⟨delivered, ?_⟩
  by_cases same : replica.fd = fd
  · rw [same] at coupled
    rw [same, setLink_self]
    exact coupled.drop count
  · rw [setLink_of_ne _ same]
    exact coupled

theorem Balanced.record (holds : net.Balanced) {reader : ReplicaState}
    (coupled : Coupled net.sent (net.links reader.fd) reader.offset delivered)
    (ack : AckOf delivered value) :
    ({ net with manager := { net.manager with
      replicas := setOffset reader.fd value net.manager.replicas } } :
        Replication).Balanced := by
  refine ⟨?_, holds.kinds, holds.offset, holds.small, holds.target, holds.settled, ?_⟩
  · rw [setOffset_fds]
    exact holds.distinct
  · intro replica member
    rcases mem_setOffset holds.distinct member with ⟨same, offset, -⟩ | ⟨-, old⟩
    · refine ⟨delivered, ?_⟩
      dsimp only
      rw [same, offset]
      exact ⟨coupled.stream, coupled.buffer, coupled.offset, coupled.processed, coupled.acks,
        .inr ack⟩
    · exact holds.coupled replica old

theorem Balanced.settle (holds : net.Balanced) :
    ({ net with manager := net.manager.settleWait.1 } : Replication).Balanced ∧
      SoundAnswers (({ net with manager := net.manager.settleWait.1 } : Replication).answers
        (Replication.target net.manager) (results net.manager.settleWait.2)) := by
  obtain ⟨replicas, masterOffset, waiting, answered⟩ := settleWait_frame net.manager
  refine ⟨⟨?_, holds.kinds, ?_, holds.small, ?_, holds.settled, ?_⟩, ?_⟩
  · rw [replicas]
    exact holds.distinct
  · rw [masterOffset]
    exact holds.offset
  · intro wait present
    rw [masterOffset]
    rcases waiting with same | gone
    · exact holds.target wait (same ▸ present)
    · cases gone.symm.trans present
  · intro replica member
    rw [replicas] at member
    exact holds.coupled replica member
  · intro answer member
    simp only [answers, results, List.mem_map, Option.mem_toList] at member
    obtain ⟨_, ⟨result, settled, rfl⟩, rfl⟩ := member
    obtain ⟨wait, present, rfl⟩ := answered result settled
    have counted := holds.countAcked (holds.target wait present)
    simp only [received, Replication.target, present, Option.map_some, Option.getD_some, replicas]
    exact counted

theorem Balanced.acknowledge (holds : net.Balanced) (count : Nat)
    (proper : net.Proper (.acknowledge fd count)) :
    ∃ next answers, net.step (.acknowledge fd count) = .ok (next, answers) ∧
      next.Balanced ∧ SoundAnswers answers := by
  have known : net.manager.contains fd = true := proper
  obtain ⟨reader, present, rfl⟩ := mem_of_contains known
  obtain ⟨delivered, coupled⟩ := holds.coupled reader present
  obtain ⟨values, text, acks⟩ := acks_flatten
    fun chunk (member : chunk ∈ (net.links reader.fd).toMaster.take count) =>
      coupled.acks chunk (List.mem_of_mem_take member)
  obtain ⟨recorded, recording, settled, answered⟩ := processAck_values known
    fun value member => coupled.small holds.small (acks value member)
  have kept : ({ net with manager := recorded } : Replication).Balanced ∧
      recorded.waitState = net.manager.waitState := by
    rw [recording]
    cases last : values.getLast? with
    | none => exact ⟨holds, rfl⟩
    | some value => exact ⟨holds.record coupled (acks value (List.mem_of_getLast? last)), rfl⟩
  have same : Replication.target net.manager = Replication.target recorded := by
    rw [Replication.target, Replication.target, kept.2]
  cases read : net.manager.processAck reader.fd (values.flatMap ackReply) with
  | mk manager result =>
    rw [read] at settled answered
    dsimp only at settled answered
    have final := (kept.1.drop reader.fd count).settle
    refine ⟨_, _, ?_, final.1, final.2⟩
    simp only [step, text, read, settled, answered, same, setLink]

theorem dispatchState_frame (manager : ReplicaManager) (now : Time) (fd : Fd)
    (client : result ≠ .replicaHandshake)
    (distinct : (manager.replicas.map ReplicaState.fd).Nodup) :
    (dispatchState manager now fd result).1.replicas = manager.replicas ∧
      (dispatchState manager now fd result).1.masterOffset = manager.masterOffset ∧
      (∀ wait, (dispatchState manager now fd result).1.waitState = some wait →
        manager.waitState = some wait ∨ wait.targetOffset = manager.masterOffset) ∧
      (∀ replica ∈ manager.replicas.map ReplicaState.fd,
        messagesTo replica (dispatchState manager now fd result).2 =
          if asks manager result then [getackCommand] else []) ∧
      ∀ reply ∈ repliesOf (dispatchState manager now fd result).2,
        (∃ numreplicas timeoutMs, result = .wait numreplicas timeoutMs) ∧
          asks manager result = false ∧ reply = (fd, (manager.count : Int)) := by
  have silent : ∀ reply ∈ repliesOf (manager.replicas.map fun replica =>
      Action.getack replica.fd), False := by
    intro reply member
    simp [repliesOf] at member
  cases result with
  | normal => exact ⟨rfl, rfl, fun _ => .inl, fun _ _ => rfl, by simp [dispatchState, repliesOf]⟩
  | block => exact ⟨rfl, rfl, fun _ => .inl, fun _ _ => rfl, by simp [dispatchState, repliesOf]⟩
  | replicaHandshake => exact absurd rfl client
  | wait numreplicas timeoutMs =>
    unfold dispatchState
    dsimp only
    split
    · rename_i enough
      have quiet : asks manager (.wait numreplicas timeoutMs) = false := by
        simp only [asks, enough, not_true, decide_false]
      refine ⟨rfl, rfl, fun _ => .inl, fun _ _ => ?_, ?_⟩
      · rw [quiet]
        rfl
      · intro reply member
        exact ⟨⟨numreplicas, timeoutMs, rfl⟩, quiet, by simpa [repliesOf] using member⟩
    · rename_i missing
      have asking : asks manager (.wait numreplicas timeoutMs) = true := by
        simpa [asks] using missing
      refine ⟨rfl, rfl, ?_, ?_, ?_⟩
      · intro wait present
        cases present
        exact .inr rfl
      · intro replica member
        rw [asking, if_pos rfl]
        exact messagesTo_getack distinct member
      · intro reply member
        exact (silent reply member).elim

theorem Balanced.sends (holds : net.Balanced) {asked : Bool}
    (writes : ∀ raw ∈ commands, isWriteText raw = true)
    (once : commands = [] ∨ markers isGetackCommand net.sent + asked.toNat ≤ 1) :
    payload isGetackCommand
        (net.sent ++ (if asked then [getackCommand] else []) ++ commands) =
      net.writes ++ commands ∧
    Settled isGetackCommand
      (net.sent ++ (if asked then [getackCommand] else []) ++ commands) := by
  have plain : markers isGetackCommand commands = 0 := by
    rw [markers, List.countP_eq_zero]
    intro raw member
    rw [isWriteText_marker (writes raw member)]
    decide
  have marker : payload isGetackCommand (if asked then [getackCommand] else []) = [] ∧
      markers isGetackCommand (if asked then [getackCommand] else []) = asked.toNat := by
    cases asked <;> decide
  have text : payload isGetackCommand ((if asked then [getackCommand] else []) ++ commands) =
      commands := by
    rw [payload_append, marker.1, payload_eq_self plain, List.nil_append]
  rw [List.append_assoc]
  refine ⟨by rw [payload_append, text, Replication.writes], holds.settled.append ?_⟩
  rcases once with rfl | few
  · exact .inl text
  refine .inr ?_
  have total : markers isGetackCommand
      (net.sent ++ ((if asked then [getackCommand] else []) ++ commands)) =
      markers isGetackCommand net.sent + (asked.toNat + 0) := by
    rw [← marker.2, ← plain]
    simp only [markers, List.countP_append]
  omega

theorem step_call (net : Replication) (now : Time) (fd : Fd) (result : ProcessState)
    (commands : List Bytes) :
    net.step (.call now fd result commands) = .ok
      (⟨(dispatchPropagate commands (dispatchState net.manager now fd result).1).1,
        net.sent ++ (if asks net.manager result then [getackCommand] else []) ++ commands,
        fun replica => { net.links replica with
          toReplica := (net.links replica).toReplica ++
            messagesTo replica ((dispatchState net.manager now fd result).2 ++
              (dispatchPropagate commands (dispatchState net.manager now fd result).1).2) }⟩,
        net.answers net.manager.masterOffset
          (repliesOf (dispatchState net.manager now fd result).2)) := rfl

theorem Balanced.call (holds : net.Balanced) {now : Time}
    (proper : net.Proper (.call now fd result commands))
    (once : net.AsksOnce (.call now fd result commands)) :
    ∃ next answers, net.step (.call now fd result commands) = .ok (next, answers) ∧
      next.Balanced ∧ (net.AnswersAll (.call now fd result commands) → SoundAnswers answers) := by
  obtain ⟨client, texts, small⟩ := proper
  obtain ⟨replicas, masterOffset, waiting, first, replies⟩ :=
    dispatchState_frame net.manager now fd client holds.distinct
  obtain ⟨written, settled⟩ := holds.sends texts once
  have distinct : ((dispatchState net.manager now fd result).1.replicas.map
      ReplicaState.fd).Nodup := by
    rw [replicas]
    exact holds.distinct
  refine ⟨_, _, step_call .., ⟨?_, ?_, ?_, ?_, ?_, settled, ?_⟩, ?_⟩
  · rw [dispatchPropagate_manager]
    exact distinct
  · intro message member
    rcases List.mem_append.mp member with early | write
    · rcases List.mem_append.mp early with old | marker
      · exact holds.kinds message old
      · left
        split at marker
        · exact List.mem_singleton.mp marker
        · cases marker
    · exact .inr (texts message write)
  · rw [dispatchPropagate_manager, Replication.writes, written, List.flatten_append,
      List.length_append]
    dsimp only
    rw [masterOffset, holds.offset]
    omega
  · refine Nat.lt_of_le_of_lt ?_ small
    simp only [List.flatten_append, List.flatten_cons, List.length_append]
    split
    · simp
      omega
    · simp
  · intro wait present
    rw [dispatchPropagate_manager] at present ⊢
    dsimp only at present ⊢
    rw [masterOffset]
    rcases waiting wait present with old | new
    · have before := holds.target wait old
      omega
    · omega
  · intro replica member
    rw [dispatchPropagate_manager] at member
    dsimp only at member
    rw [replicas] at member
    obtain ⟨delivered, coupled⟩ := holds.coupled replica member
    have known := List.mem_map_of_mem (f := ReplicaState.fd) member
    refine ⟨delivered, ?_, coupled.buffer, coupled.offset, coupled.processed, coupled.acks,
      coupled.recorded⟩
    dsimp only
    rw [messagesTo_append, first replica.fd known,
      messagesTo_dispatchPropagate commands distinct (replicas ▸ known), coupled.stream]
    simp only [List.append_assoc]
  · intro every answer member
    obtain ⟨reply, replied, rfl⟩ := List.mem_map.mp member
    obtain ⟨⟨numreplicas, timeoutMs, rfl⟩, quiet, rfl⟩ := replies reply replied
    dsimp only
    by_cases start : net.manager.masterOffset = 0
    · have everyone : net.received 0 = net.manager.count := by
        rw [received, count, List.countP_eq_length]
        intro replica _
        simp [hasReceived]
      exact Int.le_of_eq (by rw [start, everyone])
    · rw [← every quiet start]
      exact holds.countAcked (Int.le_refl _)

theorem Balanced.next (holds : net.Balanced) (proper : net.Proper event)
    (once : net.AsksOnce event) :
    ∃ next answers, net.step event = .ok (next, answers) ∧ next.Balanced ∧
      (net.AnswersAll event → SoundAnswers answers) := by
  have nothing : SoundAnswers [] := by
    intro answer member
    cases member
  cases event with
  | handshake fd =>
    obtain ⟨next, taken, kept⟩ := holds.handshake proper
    exact ⟨next, [], taken, kept, fun _ => nothing⟩
  | call now fd result commands => exact holds.call proper once
  | timeouts now =>
    obtain ⟨next, answers, taken, kept, sound⟩ := holds.timeouts now
    exact ⟨next, answers, taken, kept, fun _ => sound⟩
  | deliver fd count =>
    obtain ⟨next, taken, kept⟩ := holds.deliver count proper
    exact ⟨next, [], taken, kept, fun _ => nothing⟩
  | acknowledge fd count =>
    obtain ⟨next, answers, taken, kept, sound⟩ := holds.acknowledge count proper
    exact ⟨next, answers, taken, kept, fun _ => sound⟩
  | leave fd => exact ⟨_, [], rfl, holds.leave fd, fun _ => nothing⟩

end Steps

theorem balanced_initial : initial.Balanced := by
  refine ⟨List.nodup_nil, ?_, rfl, by decide, ?_, settled_nil, ?_⟩
  · intro message member
    cases member
  · intro wait present
    cases present
  · intro replica member
    cases member

/-- The state and the answers so far. The answers are sound under a premise on
the whole run. -/
def SoundRun (premise : Prop) (net : Replication) (outputs : List (List Answer)) : Prop :=
  net.Balanced ∧ (premise → SoundAnswers outputs.flatten)

theorem SoundRun.next {premise : Prop} {outputs : List (List Answer)}
    (holds : SoundRun premise net outputs) (proper : net.Proper event) (once : net.AsksOnce event)
    (every : premise → net.AnswersAll event) :
    ∃ next answers, net.step event = .ok (next, answers) ∧
      SoundRun premise next (outputs ++ [answers]) := by
  obtain ⟨next, answers, taken, kept, sound⟩ := holds.1.next proper once
  refine ⟨next, answers, taken, kept, fun given answer member => ?_⟩
  rw [List.flatten_append, List.mem_append] at member
  rcases member with early | new
  · exact holds.2 given answer early
  · exact sound (every given) answer (by simpa using new)

/-- In a run that propagates no write behind the second round of requests for
acknowledgements, an offset that is recorded for a replica stands for writes the
replica has processed. Answers count such replicas only, once those that come at
once find every replica up to date. -/
theorem acknowledged_writes_are_processed {events : List ReplicationEvent}
    (proper : Run.Along step Proper initial events)
    (once : Run.Along step AsksOnce initial events) :
    ∃ last outputs, Run.run step initial events = .ok (last, outputs) ∧
      (∀ replica ∈ last.manager.replicas, ∀ target : Nat, (target : Int) ≤ replica.offset →
        (target : Int) ≤ last.manager.masterOffset → last.hasReceived target replica.fd = true) ∧
      (Run.Along step AnswersAll initial events →
        ∀ answer ∈ outputs.flatten, answer.count ≤ answer.received) := by
  have first : SoundRun (Run.Along step AnswersAll initial events) initial [] :=
    ⟨balanced_initial, fun _ answer member => by cases member⟩
  obtain ⟨last, outputs, done, holds, sound⟩ := Run.run_progress (SoundRun _)
    (fun net event outputs holds meets => holds.next meets.1.1 meets.1.2 meets.2) first
    ((proper.and once).and (Run.Along.under id))
  refine ⟨last, outputs, done, ?_, sound⟩
  intro replica member target recorded present
  exact holds.sound member recorded present

def setText (value : String) : Bytes := encodeArray [ascii "SET", ascii "k", ascii value]

def acknowledgedWrite (value : String) : List ReplicationEvent :=
  [.call 0 5 .normal [setText value], .call 1 5 (.wait 1 0) [], .deliver 7 2, .acknowledge 7 1]

theorem acknowledged_write_is_processed :
    ∃ last outputs, Run.run step initial (.handshake 7 :: acknowledgedWrite "1") =
        .ok (last, outputs) ∧
      (∀ replica ∈ last.manager.replicas, ∀ target : Nat, (target : Int) ≤ replica.offset →
        (target : Int) ≤ last.manager.masterOffset → last.hasReceived target replica.fd = true) ∧
      ∀ answer ∈ outputs.flatten, answer.count ≤ answer.received := by
  obtain ⟨last, outputs, done, processed, sound⟩ :=
    @acknowledged_writes_are_processed (.handshake 7 :: acknowledgedWrite "1")
      (by decide +kernel) (by decide +kernel)
  exact ⟨last, outputs, done, processed, sound (by decide +kernel)⟩

/-- Behind two acknowledged writes the third counts as acknowledged before it is
delivered, and a wait for it is answered so. -/
theorem unprocessed_write_counts_as_acknowledged :
    Run.Along step Proper initial (.handshake 7 :: acknowledgedWrite "1" ++
      acknowledgedWrite "2" ++ [.call 0 5 .normal [setText "3"], .call 1 5 (.wait 1 0) []]) ∧
    ∃ last, Run.run step initial (.handshake 7 :: acknowledgedWrite "1" ++
        acknowledgedWrite "2" ++ [.call 0 5 .normal [setText "3"], .call 1 5 (.wait 1 0) []]) =
        .ok last ∧
      last.1.manager.masterOffset = 81 ∧ last.1.manager.replicas = [⟨7, 91⟩] ∧
      last.1.hasReceived 81 7 = false ∧ last.2.getLast? = some [⟨5, 81, 1, 0⟩] :=
  ⟨by decide +kernel, Run.Succeeds.ok (by decide +kernel)⟩

end Replication

end Credis
