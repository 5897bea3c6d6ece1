import Credis.AgreementChecks
import Credis.AofChecks

/-! The rewrite of the log while commands are served: at every point the file that
the manifest names rebuilds the keyspace. -/

namespace Credis

open ByteString

open AofManager (entryCommands encodeRespCommand rewriteChildMain)

open Store (Agrees)
open CommandContext AofManager

variable {replayed : Store} {args : List Bytes}

variable {live store : Store} {commands : List (List Bytes)} {request : Request} {value : Value}

namespace Value

def WellFormed : Value → Prop
  | .stream entries =>
    StreamOrdered entries ∧ ∀ item ∈ entries, item.fields ≠ [] ∧ item.parsedId ≠ ⟨0, 0⟩
  | .zset set => set.Valid
  | _ => True

/-- The child writes no command for an empty value, and the scores as text. -/
def Rewritable : Value → Prop
  | .string _ => True
  | .list items => items ≠ []
  | .stream entries => entries ≠ []
  | .zset set => set.entries ≠ [] ∧ ∀ item ∈ set.entries, item.Printable

instance : (value : Value) → Decidable value.Rewritable
  | .string _ => isTrue trivial
  | .list _ => inferInstanceAs (Decidable (_ ≠ _))
  | .stream _ => inferInstanceAs (Decidable (_ ≠ _))
  | .zset _ => inferInstanceAs (Decidable (_ ≠ _ ∧ ∀ _ ∈ _, Double.parse _ = some _))

theorem WellFormed.regular (formed : value.WellFormed) (rewritable : value.Rewritable) :
    value.Regular := by
  cases value with
  | string text => trivial
  | list items => exact rewritable
  | stream entries => exact ⟨rewritable, formed.1, fun item inside => (formed.2 item inside).1⟩
  | zset set => exact ⟨rewritable.1, formed, rewritable.2⟩

def Rebuilt (live replayed : Value) : Prop := live.Same replayed ∧ live.WellFormed

theorem rebuilt_logical : Logical Rebuilt fun score => score.isNaN = false where
  paired := fun rebuilt => rebuilt.1.paired
  string := fun _ => ⟨.refl _, trivial⟩
  list := fun _ => ⟨.refl _, trivial⟩
  stream := ⟨.refl _, .nil, fun _ inside => absurd inside (by simp)⟩
  append := by
    intro entries id parsed text fields rebuilt chosen nonzero greater given
    obtain ⟨ordered, items⟩ : StreamOrdered entries ∧
        ∀ item ∈ entries, item.fields ≠ [] ∧ item.parsedId ≠ ⟨0, 0⟩ := rebuilt.2
    refine ⟨.refl _, ?_, Run.forall_mem_snoc items ⟨given, fun zero => nonzero ?_⟩⟩
    · exact ordered.append greater (Store.chooseId_parses chosen (by decide))
    · rw [show parsed = ⟨0, 0⟩ from zero]
      exact ⟨rfl, rfl⟩
  zset := ⟨.refl _, SortedSet.empty_valid⟩
  add := by
    intro left right score member number rebuilt
    obtain ⟨count, same⟩ := same_logical.add member trivial rebuilt.1
    exact ⟨count, same, (SortedSet.add_spec rebuilt.2 number).1⟩
  remove := by
    intro left right member rebuilt
    obtain ⟨count, same⟩ := same_logical.remove member rebuilt.1
    exact ⟨count, same, (SortedSet.remove_spec rebuilt.2).1⟩

end Value

namespace Store

/-- `TYPE`, `GET`, `LRANGE`, `XRANGE` and `ZRANGE` of every key, at any time. -/
structure Observed (live replayed : Store) : Prop where
  type : ∀ now later key, (live.getType now key).2 = (replayed.getType later key).2
  get : ∀ now later key, (live.get now key).2 = (replayed.get later key).2
  lrange : ∀ now later key start stop,
    (live.lrange now key start stop).2 = (replayed.lrange later key start stop).2
  xrange : ∀ now later key start stop,
    (live.xrange now key start stop).2 = (replayed.xrange later key start stop).2
  zrange : ∀ now later key start stop,
    (live.zrange now key start stop).2 = (replayed.zrange later key start stop).2

abbrev Same (live replayed : Store) : Prop := Agrees Value.Rebuilt (fun _ => True) live replayed

theorem Same.observed (same : Same live replayed) : Observed live replayed := by
  have shown : ∀ (operation : Operation) (key : Key), operation.key? = some key →
      operation.onEntry = true → operation.timeless = true →
      (∀ entry, operation.touchless entry = true) →
      (∀ one other, Value.Rebuilt one other → (operation.acts ⟨0, 0⟩ (some ⟨one, none⟩)).2 =
        (operation.acts ⟨0, 0⟩ (some ⟨other, none⟩)).2) →
      ∀ now later, (operation.call live ⟨now, 0⟩).2 = (operation.call replayed ⟨later, 0⟩).2 := by
    intro operation key keyed works timeless passes acts now later
    refine (Operation.keeps_agrees keyed works timeless trivial (fun one other paired => ?_)
      _ _ _ _ same).1
    rw [passes, passes, ActsAlike, Operation.acts_touchless (passes one),
      Operation.acts_touchless (passes other)]
    refine ⟨rfl, ?_, .none⟩
    cases paired with
    | none => rfl
    | some alike => exact acts _ _ alike
  refine ⟨fun now later key => ?_, fun now later key => ?_, fun now later key start stop => ?_,
    fun now later key start stop => ?_, fun now later key start stop => ?_⟩
  · exact Returned.text.inj (shown (.getType key) key rfl rfl rfl (fun _ => rfl)
      (fun one other alike => by cases alike.1.paired <;> rfl) now later)
  · exact Returned.text?.inj (shown (.get key) key rfl rfl rfl (fun _ => rfl)
      (fun one other alike => by cases alike.1.paired <;> rfl) now later)
  · exact Returned.texts.inj (shown (.lrange key start stop) key rfl rfl rfl (fun _ => rfl)
      (fun one other alike => by cases alike.1.paired <;> rfl) now later)
  · exact Returned.stream.inj (shown (.xrange key start stop) key rfl rfl rfl (fun _ => rfl)
      (fun one other alike => by cases alike.1.paired <;> rfl) now later)
  · refine Returned.texts.inj (shown (.zrange key start stop) key rfl rfl rfl (fun _ => rfl)
      (fun one other alike => ?_) now later)
    cases alike.1.paired with
    | zset one other =>
      simp only [Operation.acts, content, Option.map_some, Option.bind_some, Value.zset?,
        Option.elim_some, alike.1.sets.1]
    | string | list | stream => rfl

theorem Same.noExpiry (same : Same live replayed) : live.NoExpiry ∧ replayed.NoExpiry := by
  constructor
  · intro key entry found
    rcases same key trivial with ⟨absent, -⟩ | ⟨one, other, present, -⟩
    · cases absent.symm.trans found
    · cases present.symm.trans found
      rfl
  · intro key entry found
    rcases same key trivial with ⟨-, absent⟩ | ⟨one, other, -, present, -⟩
    · cases absent.symm.trans found
    · cases present.symm.trans found
      rfl

end Store

theorem Performs.applied {args : List Bytes} {store after : Store}
    (performs : Performs ⟨0, 0⟩ args store after) : applied store args = after := by
  obtain ⟨-, runs⟩ := performs
  obtain ⟨ticks, reply, done⟩ := runs (bareState store) rfl
    (fun key manager absent => by cases absent)
    fun _ => rfl
  rw [Credis.applied, done]

theorem PerformsAll.applied {commands : List (List Bytes)} {store after : Store}
    (performs : PerformsAll ⟨0, 0⟩ commands store after) :
    commands.foldl applied store = after := by
  induction performs with
  | nil => rfl
  | cons first _ ih => rw [List.foldl_cons, first.applied, ih]

theorem entryCommands_timeless (now : Time) (key : Key) (value : Value) :
    entryCommands now key ⟨value, none⟩ = entryCommands 0 key ⟨value, none⟩ := by
  cases value <;> rfl

theorem isReplayable_of_named (command : Command) (named : toUpper (args.headD []) = command.name)
    (steady : command.isSteady args = true) : isReplayable args = true :=
  isReplayable_iff.mpr ⟨command, by rw [named, command.lookup_name_self], .inr steady⟩

theorem entryCommands_replayable {key : Key} (formed : value.WellFormed)
    (member : args ∈ entryCommands 0 key ⟨value, none⟩) : isReplayable args = true := by
  cases value with
  | string text =>
    cases List.mem_singleton.mp member
    exact isReplayable_of_named .set (by rw [List.headD_cons]; decide) rfl
  | list items =>
    simp only [entryCommands] at member
    split at member
    · exact absurd member (by simp)
    · cases List.mem_singleton.mp member
      exact isReplayable_of_named .rpush (by rw [List.headD_cons]; decide) rfl
  | stream entries =>
    obtain ⟨item, inside, rfl⟩ := List.mem_map.mp member
    refine isReplayable_of_named .xadd (by rw [List.headD_cons]; decide) ?_
    have parsed := formed.1.parses item inside
    refine decide_eq_true fun star => ?_
    rw [List.getD_cons_succ, List.getD_cons_succ, List.getD_cons_zero] at star
    have invalid : StreamId.parse (ascii "*") = none := by decide
    rw [star, invalid] at parsed
    cases parsed
  | zset set =>
    simp only [entryCommands] at member
    split at member
    · exact absurd member (by simp)
    cases List.mem_singleton.mp member
    refine isReplayable_of_named .zadd (by rw [List.headD_cons]; decide) ?_
    refine decide_eq_true ?_
    have pairs : ∀ items : List ScoredMember, (items.flatMap fun item =>
        [Double.formatGeneral 17 item.1, item.2]).length = 2 * items.length := by
      intro items
      induction items with
      | nil => rfl
      | cons item items ih =>
        rw [List.flatMap_cons, List.length_append, ih, List.length_cons, List.length_cons,
          List.length_cons, List.length_nil]
        omega
    rw [List.length_cons, List.length_cons, pairs]
    omega

namespace Store

/-- A keyspace that the child can write down, each command in one write. -/
def Rewritable (store : Store) : Prop :=
  ∀ item ∈ store.data.entries, item.2.value.Rewritable ∧
    ∀ args ∈ entryCommands 0 item.1 item.2, (encodeRespCommand args).length < 2 ^ 31

instance (store : Store) : Decidable store.Rewritable :=
  inferInstanceAs (Decidable (∀ _ ∈ _, _))

theorem validEntries_lasting (steady : store.NoExpiry) (now : Time) :
    store.validEntries now = store.data.entries.map fun item => (item.1, item.2) := by
  rw [validEntries, List.filter_eq_self]
  intro item member
  obtain ⟨entry, inside, rfl⟩ := List.mem_map.mp member
  have found : store.data.lookup entry.1 = some entry.2 := AList.mem_lookup_iff.mpr inside
  rw [show (entry.1, entry.2).2.expiry = none from steady _ _ found]
  rfl

theorem mem_validEntries_lasting (steady : store.NoExpiry) {now : Time} {item : Key × Entry} :
    item ∈ store.validEntries now ↔ store.data.lookup item.1 = some item.2 := by
  rw [validEntries_lasting steady, List.mem_map]
  constructor
  · rintro ⟨entry, inside, rfl⟩
    exact AList.mem_lookup_iff.mpr inside
  · exact fun found => ⟨⟨item.1, item.2⟩, AList.mem_lookup_iff.mp found, rfl⟩

end Store

theorem rewriteChildMain_replays (same : store.Same store) (rewritable : store.Rewritable)
    (now : Time) :
    ∃ commands : List (List Bytes),
      rewriteChildMain store now = commands.flatMap encodeArray ∧
      (∀ args ∈ commands, Encodable args ∧ isReplayable args = true) ∧
      store.Same (commands.foldl applied Store.empty) := by
  have steady := same.noExpiry.1
  have held : ∀ item ∈ store.validEntries 0, ∃ value, item.2 = ⟨value, none⟩ ∧ value.WellFormed ∧
      value.Rewritable ∧ ∀ args ∈ entryCommands 0 item.1 item.2,
        (encodeRespCommand args).length < 2 ^ 31 := by
    rintro ⟨key, entry⟩ member
    have found := (Store.mem_validEntries_lasting steady).mp member
    have fits := rewritable ⟨key, entry⟩ (AList.mem_lookup_iff.mp found)
    rcases same key trivial with ⟨absent, -⟩ | ⟨value, _, present, -, alike⟩
    · cases absent.symm.trans found
    · cases present.symm.trans found
      exact ⟨value, rfl, alike.2, fits.1, fits.2⟩
  have text : rewriteChildMain store now = ((store.validEntries 0).flatMap fun item =>
      entryCommands 0 item.1 item.2).flatMap encodeArray := by
    rw [rewriteChildMain, List.flatMap_assoc, Store.validEntries_lasting steady now,
      ← Store.validEntries_lasting steady 0, ← funext encodeRespCommand_eq]
    refine List.flatMap_congr fun item member => ?_
    obtain ⟨value, equal, -⟩ := held item member
    rw [equal, entryCommands_timeless]
  refine ⟨_, text, ?_, ?_⟩
  · intro args member
    obtain ⟨item, inside, member⟩ := List.mem_flatMap.mp member
    obtain ⟨value, equal, formed, -, small⟩ := held item inside
    refine ⟨sized_of_written (small args member), ?_⟩
    rw [equal] at member
    exact entryCommands_replayable formed member
  · obtain ⟨after, performs, found, others⟩ := @snapshot_performs ⟨0, 0⟩ le_rfl
      (store.validEntries 0) Store.empty (store.validEntries_keys_nodup 0) (fun _ _ => rfl)
      (fun item inside => by
        obtain ⟨value, equal, -⟩ := held item inside
        rw [equal]
        rfl)
      (fun item inside => by
        obtain ⟨value, equal, formed, fits, -⟩ := held item inside
        rw [equal]
        exact ⟨formed.regular fits, fun _ expires => by cases expires⟩)
    rw [performs.applied]
    intro key _
    rcases same key trivial with ⟨absent, -⟩ | ⟨value, _, present, -, alike⟩
    · refine .inl ⟨absent, others key fun listed => ?_⟩
      obtain ⟨item, inside, rfl⟩ := List.mem_map.mp listed
      cases absent.symm.trans ((Store.mem_validEntries_lasting steady).mp inside)
    · have listed : (key, (⟨value, none⟩ : Entry)) ∈ store.validEntries 0 :=
        (Store.mem_validEntries_lasting steady).mpr present
      obtain ⟨⟨restored, expiry⟩, there, rebuilds⟩ := found _ listed
      cases (rebuilds.expiry : expiry = none)
      refine .inr ⟨value, restored, present, there, ?_, alike.2⟩
      refine (Value.same_iff rebuilds.value).mpr ?_
      rintro entries rfl item inside
      exact (alike.2.2 item inside).2

def numbersOnly (args : List Bytes) : Bool :=
  toUpper (args.headD []) != ascii "ZADD" ||
    (pairUp (args.drop 2)).all fun item => (Double.parse item.1).all fun score => !score.isNaN

theorem addsOnly_of_numbersOnly (numbers : numbersOnly args = true) :
    AddsOnly (fun score => score.isNaN = false) args := by
  intro command found
  cases command with
  | zadd =>
    have name : toUpper (args.headD []) = ascii "ZADD" := lookup_name found
    rw [numbersOnly, name, bne_self_eq_false, Bool.false_or, List.all_eq_true] at numbers
    intro item member score parsed
    have number := numbers item member
    rw [parsed] at number
    simpa using number
  | geoadd => exact fun lat lon => Double.toFloat_isNaN _
  | set | mset | incr | rpush | lpush | lpop | rpop | zrem | xadd | ping | echo | get | llen
  | lrange | blpop | type | keys | zrank | zrange | zcard | zscore | geopos | geodist | geosearch
  | xrange | xread | info | bgrewriteaof | config | acl | auth | replconf | wait | psync
  | subscribe | unsubscribe | publish => trivial

theorem applied_same (same : live.Same replayed) (fits : isReplayable args = true)
    (numbers : numbersOnly args = true) : (applied live args).Same (applied replayed args) := by
  obtain ⟨lasting, steady⟩ := same.noExpiry
  cases writes : isWriteCommand (toUpper (args.headD [])) with
  | true =>
    obtain ⟨after, ticks, reply, ran, agree⟩ := @executeCommand_agrees args _ _ _
      (bareState live) replayed Value.rebuilt_logical same steady fits writes
      (bareState_free live args)
      (fun _ _ => trivial) (addsOnly_of_numbersOnly numbers) (-1) false
    rwa [applied, ran]
  | false =>
    have unchanged : ∀ {store : Store}, store.NoExpiry → applied store args = store :=
      fun {store} lasting => (executeCommand_applied (bareState store) fits lasting
        (bareState_free store args)).2.1 writes
    rwa [unchanged lasting, unchanged steady]

theorem foldl_applied_same (same : live.Same replayed)
    (fits : ∀ args ∈ commands, isReplayable args = true ∧ numbersOnly args = true) :
    (commands.foldl applied live).Same (commands.foldl applied replayed) := by
  induction commands generalizing live replayed with
  | nil => exact same
  | cons args commands ih =>
    obtain ⟨replayable, numbers⟩ := fits args (by simp)
    exact ih (applied_same same replayable numbers) fun other member =>
      fits other (by simp [member])

theorem Store.Same.self (same : live.Same replayed) : live.Same live := by
  intro key _
  rcases same key trivial with ⟨absent, -⟩ | ⟨one, other, present, -, alike⟩
  · exact .inl ⟨absent, absent⟩
  · exact .inr ⟨one, one, present, present, .refl one, alike.2⟩

structure Replays (commands : List (List Bytes)) (store : Store) : Prop where
  sized : ∀ args ∈ commands, Encodable args
  fits : ∀ args ∈ commands, isReplayable args = true
  rebuilt : store.Same (commands.foldl applied Store.empty)

theorem Replays.snoc (replays : Replays commands store) (sized : Encodable args)
    (fits : isReplayable args = true) (numbers : numbersOnly args = true) :
    Replays (commands ++ [args]) (applied store args) := by
  refine ⟨Run.forall_mem_snoc replays.sized sized, Run.forall_mem_snoc replays.fits fits, ?_⟩
  rw [List.foldl_append]
  exact applied_same replays.rebuilt fits numbers

theorem Replays.process (replays : Replays commands store) (config : ServerConfig)
    (clock : Nat → Instant) (forks : Nat → Bool) :
    ∃ replayed response,
      (fresh Store.empty config clock forks).process
        (commands.flatMap encodeArray) = .ok (replayed, response) ∧
      store.Same replayed.store := by
  obtain ⟨replayed, response, done, stored⟩ := @fresh_process_applied
    (commands.map (Request.ofArgs (-1)))
    (List.forall_mem_map.mpr fun args inside => ofArgs_whole (-1) (replays.sized args inside))
    (List.forall_mem_map.mpr replays.fits) config clock forks
  refine ⟨replayed, response, ?_, ?_⟩
  · rw [List.flatMap_map] at done
    exact done
  · rw [stored, List.map_map]
    have plain : Request.args ∘ Request.ofArgs (-1) = id := rfl
    rw [plain, List.map_id]
    exact replays.rebuilt

namespace AofManager

variable {manager : AofManager} {dir : Bytes}

theorem Tracks.content (tracks : manager.Tracks dir) {path : Bytes}
    (fd : manager.aofFd = some path) :
    manager.readAofContent dir = (manager.files.lookup path).getD [] := by
  obtain ⟨text, found, rfl, -⟩ := tracks.named path fd
  have on : manager.appendonly = ascii "yes" := tracks.opened.mp (by rw [fd]; rfl)
  unfold manifest at found
  rw [readAofContent, if_pos ((enabled_iff manager).mpr on), found]
  rfl

theorem Tracks.append_content (tracks : manager.Tracks dir)
    (on : manager.appendonly = ascii "yes") (data : Bytes) :
    (manager.append data).readAofContent dir = manager.readAofContent dir ++ data := by
  obtain ⟨path, fd⟩ := Option.isSome_iff_exists.mp (tracks.opened.mpr on)
  have after : (manager.append data).aofFd = some path := by
    rw [AofManager.append, fd]
    exact fd
  rw [(tracks.append data).content after, tracks.content fd, AofManager.append, fd]
  exact congrArg (fun content => content.getD []) (AList.lookup_insert manager.files)

theorem append_rest (manager : AofManager) (data : Bytes) :
    ∃ files, manager.append data = { manager with files := files } := by
  unfold append
  split
  · exact ⟨manager.files, rfl⟩
  · exact ⟨_, rfl⟩

theorem appendToRewriteBuffer_content (manager : AofManager) (dir data : Bytes) :
    (manager.appendToRewriteBuffer data).readAofContent dir = manager.readAofContent dir := by
  unfold appendToRewriteBuffer
  split <;> rfl

theorem opening_clean (dir : Bytes) (on : manager.appendonly = ascii "yes")
    (fine : FineName manager.appendfilename) (clean : manager.files = ∅) :
    ∃ files, ((manager.ensureFile dir).ensureManifest dir).openFile dir =
        { manager with
          files := files
          baseDir := dir
          currentSeq := 1
          aofFd := some (manager.directory dir ++ manager.incrName 1) } ∧
      files.lookup (manager.directory dir ++ manager.incrName 1) = some [] := by
  have solid : ∀ byte ∈ manager.appendfilename, isSpace byte = false :=
    fun byte member => (fine byte member).1
  have apart := incrPath_ne_manifestPath manager dir 1
  obtain ⟨files, ensured, first, unnamed⟩ : ∃ files,
      manager.ensureFile dir = { manager with files := files } ∧
      files.lookup (manager.directory dir ++ manager.incrName 1) = some [] ∧
      files.lookup (manager.manifestPath dir) = none := by
    rw [ensureFile, if_pos ((enabled_iff manager).mpr on), ensurePath, clean,
      if_neg (AList.notMem_empty _)]
    refine ⟨_, rfl, AList.lookup_insert _, ?_⟩
    rw [AList.lookup_insert_ne apart.symm, AList.lookup_empty]
  obtain ⟨files, described, first, named⟩ : ∃ written,
      ({ manager with files := files } : AofManager).ensureManifest dir =
        { manager with files := written } ∧
      written.lookup (manager.directory dir ++ manager.incrName 1) = some [] ∧
      written.lookup (manager.manifestPath dir) = some (manager.manifestLine 1) := by
    have absent : manager.manifestPath dir ∉ files := by
      rw [← AList.lookup_isSome, unnamed]
      decide
    refine ⟨_, ?_, (AList.lookup_insert_ne apart).trans first, AList.lookup_insert files⟩
    exact (if_pos ((enabled_iff manager).mpr on)).trans (if_neg absent)
  have path := namedFile_manifestLine 1 solid dir
  have sequence := @namedSequence_manifestLine manager 1 solid
  have held : manager.directory dir ++ manager.incrName 1 ∈ files := by
    rw [← AList.lookup_isSome, first]
    rfl
  refine ⟨files, ?_, first⟩
  have opened := @openFile_eq { manager with files := files } dir _ on named
  have same : ({ manager with files := files } : AofManager).namedFile dir
      (manager.manifestLine 1) = manager.directory dir ++ manager.incrName 1 := path
  rw [same, sequence, ensurePath, if_pos held] at opened
  rw [ensured, described, opened]

end AofManager

open AofManager (FineName)

/-- The log of a server that has been told everything, and a rewrite under way that
has been told what happened since the fork. -/
structure Journal (dir : Bytes) (ctx : CommandContext) (manager : AofManager) : Prop where
  present : ctx.aofManager = some manager
  config : ctx.config.dir = dir
  tracks : manager.Tracks dir
  on : manager.appendonly = ascii "yes"
  fine : FineName manager.appendfilename
  content : ∃ commands : List (List Bytes),
    manager.readAofContent dir = commands.flatMap encodeArray ∧ Replays commands ctx.store
  rewriting : manager.rewriteInProgress = true → ∃ child, manager.rewriteChild = some child ∧
    child.snapshot.Same child.snapshot ∧ child.snapshot.Rewritable ∧
    ∃ since : List (List Bytes), manager.rewriteBuffer = since.flatMap encodeArray ∧
      (∀ args ∈ since, Encodable args ∧ isReplayable args = true ∧
        numbersOnly args = true) ∧
      ctx.store = since.foldl applied child.snapshot

namespace Journal

variable {dir : Bytes} {ctx next : CommandContext} {manager : AofManager}

section

variable (journal : Journal dir ctx manager)

include journal

theorem logged (sized : Encodable args) (fits : isReplayable args = true)
    (numbers : numbersOnly args = true) (config : next.config = ctx.config)
    (present : next.aofManager =
      some ((manager.append (encodeArray args)).appendToRewriteBuffer (encodeArray args)))
    (stored : next.store = applied ctx.store args) :
    Journal dir next
      ((manager.append (encodeArray args)).appendToRewriteBuffer (encodeArray args)) := by
  obtain ⟨commands, text, replays⟩ := journal.content
  have settings := settings_log manager (encodeArray args)
  refine ⟨present, by rw [config, journal.config], ?_, ?_, ?_, ?_, fun under => ?_⟩
  · exact (journal.tracks.append _).appendToRewriteBuffer _
  · exact (congrArg (fun settings => settings.1.1) settings).trans journal.on
  · have name : ((manager.append (encodeArray args)).appendToRewriteBuffer
        (encodeArray args)).appendfilename = manager.appendfilename :=
      congrArg (fun settings => settings.2.1.1) settings
    rw [name]
    exact journal.fine
  · refine ⟨commands ++ [args], ?_, ?_⟩
    · rw [appendToRewriteBuffer_content, journal.tracks.append_content journal.on, text,
        List.flatMap_append, List.flatMap_singleton]
    · rw [stored]
      exact replays.snoc sized fits numbers
  · have still : manager.rewriteInProgress = true :=
      (congrArg (fun settings => settings.2.2) settings).symm.trans under
    obtain ⟨child, started, same, rewritable, since, buffer, each, forked⟩ :=
      journal.rewriting still
    obtain ⟨files, appended⟩ := manager.append_rest (encodeArray args)
    have buffered :
        (manager.append (encodeArray args)).appendToRewriteBuffer (encodeArray args) =
          { manager with
            files := files
            rewriteBuffer := manager.rewriteBuffer ++ encodeArray args } := by
      rw [appended, appendToRewriteBuffer, if_pos still]
    rw [buffered]
    refine ⟨child, started, same, rewritable, since ++ [args], ?_,
      Run.forall_mem_snoc each ⟨sized, fits, numbers⟩, ?_⟩
    · rw [List.flatMap_append, List.flatMap_singleton, ← buffer]
    · rw [stored, forked, List.foldl_append]
      rfl

theorem kept (config : next.config = ctx.config) (present : next.aofManager = ctx.aofManager)
    (stored : next.store = ctx.store) : Journal dir next manager :=
  ⟨present.trans journal.present, by rw [config, journal.config], journal.tracks, journal.on,
    journal.fine, by rw [stored]; exact journal.content, by rw [stored]; exact journal.rewriting⟩

theorem started (rewritable : ctx.store.Rewritable) (forked : Bool)
    (config : next.config = ctx.config)
    (present : next.aofManager = some (manager.startRewrite ctx.store dir forked).1)
    (stored : next.store = ctx.store) :
    Journal dir next (manager.startRewrite ctx.store dir forked).1 := by
  have tracks := journal.tracks.startRewrite ctx.store forked
  obtain ⟨commands, text, replays⟩ := journal.content
  unfold startRewrite at present tracks ⊢
  split at present
  · rename_i refused
    rw [if_pos refused]
    exact journal.kept config (present.trans journal.present.symm) stored
  · rename_i begins
    rw [if_neg begins] at tracks ⊢
    dsimp only at present tracks ⊢
    cases forked with
    | true =>
      refine ⟨present, by rw [config, journal.config], tracks, journal.on, journal.fine,
        ⟨commands, text, by rw [stored]; exact replays⟩, fun _ => ?_⟩
      refine ⟨_, rfl, replays.rebuilt.self, rewritable, [], rfl, ?_, stored⟩
      exact fun args inside => absurd inside (by simp)
    | false =>
      refine ⟨present, by rw [config, journal.config], tracks, journal.on, journal.fine,
        ⟨commands, text, by rw [stored]; exact replays⟩, fun under => ?_⟩
      exact absurd under (not_or.mp begins).1

theorem checked (status : ChildStatus) (now : Time) (config : next.config = ctx.config)
    (present : next.aofManager = some (manager.checkRewriteComplete status now).1)
    (stored : next.store = ctx.store) :
    Journal dir next (manager.checkRewriteComplete status now).1 := by
  obtain ⟨commands, text, replays⟩ := journal.content
  by_cases swapped : manager.rewriteInProgress = true ∧ status = .succeeded
  · obtain ⟨under, rfl⟩ := swapped
    obtain ⟨child, started, same, rewritable, since, buffer, each, forked⟩ :=
      journal.rewriting under
    have tracks := journal.tracks.check_swapped now under journal.on journal.fine
    obtain ⟨files, done, -, content⟩ := journal.tracks.toPrepared.check_succeeded under now
    obtain ⟨snapshot, written, fits, rebuilt⟩ := rewriteChildMain_replays same rewritable now
    rw [done] at present tracks ⊢
    refine ⟨present, by rw [config, journal.config], tracks, journal.on, journal.fine,
      ⟨snapshot ++ since, ?_, ?_⟩, fun under => absurd under (by simp)⟩
    · rw [tracks.content rfl, List.flatMap_append, ← written, ← buffer]
      exact congrArg (fun content => content.getD []) (content child started)
    · have both : ∀ args ∈ snapshot ++ since, Encodable args ∧ isReplayable args = true :=
        List.forall_mem_append.mpr ⟨fits, fun args new => ⟨(each args new).1, (each args new).2.1⟩⟩
      refine ⟨fun args inside => (both args inside).1, fun args inside => (both args inside).2, ?_⟩
      rw [stored, forked, List.foldl_append]
      exact foldl_applied_same rebuilt fun args member => (each args member).2
  · have tracks := journal.tracks.check_kept now fun under done => swapped ⟨under, done⟩
    unfold checkRewriteComplete at present tracks ⊢
    split at present
    · rename_i under
      rw [if_pos under] at tracks ⊢
      cases status with
      | running => exact journal.kept config (present.trans journal.present.symm) stored
      | succeeded => exact absurd ⟨under, rfl⟩ swapped
      | failed =>
        exact ⟨present, by rw [config, journal.config], tracks, journal.on, journal.fine,
          ⟨commands, text, by rw [stored]; exact replays⟩, fun under => absurd under (by simp)⟩
    · rename_i dormant
      rw [if_neg dormant]
      exact journal.kept config (present.trans journal.present.symm) stored

end

end Journal

instance (state : HandlerState) (key : Key) : Decidable (state.FreeAt key) :=
  decidable_of_iff (∀ manager ∈ state.blockingManager, manager.queue key = [])
    ⟨fun every manager found => every manager found, fun free manager found => free manager found⟩

namespace CommandContext

def ReplayTraffic (ctx : CommandContext) : Event → Prop
  | .request request =>
    ctx.Admits request.fd ∧ request.raw = encodeArray request.args ∧ Encodable request.args ∧
      (request.name = ascii "BGREWRITEAOF" ∨
        isReplayable request.args = true ∧ ctx.FreeAt (request.args.getD 1 []))
  | _ => True

/-- No score is NaN, and a rewrite finds no empty value and only scores that are read
back from their text. -/
def Unharmed (ctx : CommandContext) : Event → Prop
  | .request request =>
    numbersOnly request.args = true ∧
      (request.name = ascii "BGREWRITEAOF" → ctx.store.Rewritable)
  | _ => True

instance (ctx : CommandContext) : (event : Event) → Decidable (ctx.ReplayTraffic event)
  | .request _ => inferInstanceAs (Decidable (_ ∧ _ ∧ _ ∧ (_ ∨ _ ∧ _)))
  | .connect _ | .disconnect _ | .timeouts _ _ => isTrue trivial

instance (ctx : CommandContext) : (event : Event) → Decidable (ctx.Unharmed event)
  | .request _ => inferInstanceAs (Decidable (_ ∧ (_ → _)))
  | .connect _ | .disconnect _ | .timeouts _ _ => isTrue trivial

variable {dir : Bytes} {ctx : CommandContext} {manager : AofManager}

theorem serve_replayable (journal : Journal dir ctx manager) (admits : ctx.Admits request.fd)
    (raw : request.raw = encodeArray request.args) (sized : Encodable request.args)
    (fits : isReplayable request.args = true) (free : ctx.FreeAt (request.args.getD 1 []))
    (numbers : numbersOnly request.args = true) :
    ∃ next observation, ctx.serve request = .ok (next, observation) ∧
      ∃ manager, Journal dir next manager := by
  obtain ⟨commands, -, replays⟩ := journal.content
  have steady := replays.rebuilt.noExpiry.1
  obtain ⟨command, found, -⟩ := isReplayable_iff.mp fits
  obtain ⟨-, reads, runs⟩ := executeCommand_applied ctx.toHandlerState fits steady
    fun _ _ _ _ => free
  obtain ⟨ticks, reply, handled⟩ := runs request.fd true
  obtain ⟨next, effect, stepped, stored, -, -, -, -, logged, config⟩ :=
    step_stored request.raw admits (by rw [found]; rfl) handled
  refine ⟨next, ⟨.normal, effect⟩, by rw [serve, stepped], ?_⟩
  unfold logCommand at logged
  cases writes : isWriteCommand (toUpper (request.args.headD [])) with
  | true =>
    rw [if_pos writes, raw] at logged
    have present : next.aofManager = some ((manager.append
        (encodeArray request.args)).appendToRewriteBuffer (encodeArray request.args)) := by
      rw [logged]
      exact congrArg (Option.map _) journal.present
    exact ⟨_, journal.logged sized fits numbers config present stored⟩
  | false =>
    rw [if_neg (by rw [writes]; decide)] at logged
    exact ⟨manager, journal.kept config logged (stored.trans (reads writes))⟩

theorem serve_bgrewriteaof (journal : Journal dir ctx manager) (admits : ctx.Admits request.fd)
    (name : request.name = ascii "BGREWRITEAOF") (rewritable : ctx.store.Rewritable) :
    ∃ next observation, ctx.serve request = .ok (next, observation) ∧
      ∃ manager, Journal dir next manager := by
  obtain rfl := journal.config
  obtain ⟨fd, args, raw⟩ := request
  cases args with
  | nil =>
    have unnamed : toUpper [] ≠ ascii "BGREWRITEAOF" := by decide
    exact absurd name unnamed
  | cons first rest =>
    replace name : toUpper first = Command.bgrewriteaof.name := name
    have found : Command.lookup (toUpper first) = some .bgrewriteaof := by
      rw [name, Command.lookup_name_self]
    have handled : executeCommand ctx.toHandlerState fd true (first :: rest) (toUpper first) =
        Command.bgrewriteaof.handler ctx.tick (ctx.clock ctx.ticks) (ctx.forks ctx.ticks) fd true
          (first :: rest) := by
      rw [executeCommand, found]
      exact if_neg (by simp [Command.minArgs])
    obtain ⟨admitted, state, -, stepped⟩ := step_executed raw admits found handled rfl
    have silent : isWriteCommand (toUpper first) = false := by
      rw [name]
      decide
    refine ⟨_, ⟨_, _⟩, by rw [serve, stepped], ?_⟩
    rw [logCommand, if_neg (by rw [silent]; decide)]
    rcases handleBgrewriteaof_administers ctx.aofManager ctx.store ctx.config.dir
      (ctx.forks ctx.ticks) with same | ⟨before, present, started⟩
    · exact ⟨manager, journal.kept rfl same rfl⟩
    · cases journal.present.symm.trans present
      exact ⟨_, journal.started rewritable (ctx.forks ctx.ticks) rfl started rfl⟩

theorem handle_journal (journal : Journal dir ctx manager) {event : Event}
    (served : ctx.ReplayTraffic event) (unharmed : ctx.Unharmed event) :
    ∃ next output, ctx.handle event = .ok (next, output) ∧ ∃ manager, Journal dir next manager := by
  cases event with
  | connect fd =>
    have kept : Journal dir (ctx.addConnection fd) manager := journal.kept rfl rfl rfl
    exact ⟨_, _, rfl, manager, kept⟩
  | disconnect fd =>
    have kept : Journal dir (ctx.dropConnection fd) manager := journal.kept rfl rfl rfl
    exact ⟨_, _, rfl, manager, kept⟩
  | timeouts now status =>
    refine ⟨_, _, rfl, _, journal.checked status now rfl ?_ rfl⟩
    rw [settle, journal.present]
    rfl
  | request request =>
    obtain ⟨admits, raw, sized, kind⟩ := served
    obtain ⟨numbers, rewritable⟩ := unharmed
    have through : ∃ next observation, ctx.serve request = .ok (next, observation) ∧
        ∃ manager, Journal dir next manager := by
      rcases kind with name | ⟨fits, free⟩
      · exact serve_bgrewriteaof journal admits name (rewritable name)
      · exact serve_replayable journal admits raw sized fits free numbers
    obtain ⟨next, observation, done, kept⟩ := through
    exact ⟨next, some observation, by rw [handle, done], kept⟩

theorem opened_journal {aof : AofManager} (dormant : aof.Dormant)
    (on : aof.appendonly = ascii "yes")
    (fine : FineName aof.appendfilename) (clean : aof.files = ∅)
    (started : ctx.aofManager = some
      (((aof.ensureFile ctx.config.dir).ensureManifest ctx.config.dir).openFile ctx.config.dir))
    (empty : ctx.store = Store.empty) :
    Journal ctx.config.dir ctx
      (((aof.ensureFile ctx.config.dir).ensureManifest ctx.config.dir).openFile
        ctx.config.dir) := by
  obtain ⟨files, opened, content⟩ := opening_clean ctx.config.dir on fine clean
  have tracks := @Dormant.opening aof ctx.config.dir dormant fun text found => by
    rw [manifest, clean, AList.lookup_empty] at found
    cases found
  rw [opened] at started tracks ⊢
  refine ⟨started, rfl, tracks, on, fine, ⟨[], ?_, ?_⟩, fun under => ?_⟩
  · rw [tracks.content rfl]
    exact congrArg (fun content => content.getD []) content
  · rw [empty]
    exact ⟨fun _ inside => absurd inside (by simp), fun _ inside => absurd inside (by simp),
      fun _ _ => .inl ⟨rfl, rfl⟩⟩
  · exact absurd (dormant.settled.symm.trans under) (by simp)

/-- While commands are served and the log is rewritten, the file that the manifest
names rebuilds at every point what the keyspace shows, as long as no score is NaN and
no rewrite finds an empty value. -/
theorem rewrite_transparent {aof : AofManager} (dormant : aof.Dormant)
    (on : aof.appendonly = ascii "yes") (fine : FineName aof.appendfilename)
    (clean : aof.files = ∅)
    (started : ctx.aofManager = some
      (((aof.ensureFile ctx.config.dir).ensureManifest ctx.config.dir).openFile ctx.config.dir))
    (empty : ctx.store = Store.empty) {events : List Event}
    (served : Run.Along handle ReplayTraffic ctx events)
    (unharmed : Run.Along handle Unharmed ctx events) (config : ServerConfig)
    (clock : Nat → Instant) (forks : Nat → Bool) :
    ∀ front, front <+: events → ∃ live seen manager replayed response,
      Run.run handle ctx front = .ok (live, seen) ∧ live.aofManager = some manager ∧
      (fresh Store.empty config clock forks).process (manager.readAofContent ctx.config.dir) =
        .ok (replayed, response) ∧
      live.store.Observed replayed.store := by
  rintro front ⟨rest, rfl⟩
  have journal := opened_journal dormant on fine clean started empty
  obtain ⟨live, seen, ran, manager, last⟩ := @Run.run_progress _ _ _ _ handle
    (fun ctx event => ctx.ReplayTraffic event ∧ ctx.Unharmed event)
    (fun state _ => ∃ manager, Journal ctx.config.dir state manager)
    (fun state event _ ⟨_, journal⟩ both => handle_journal journal both.1 both.2)
    ctx front [] ⟨_, journal⟩ (served.front.and unharmed.front)
  obtain ⟨commands, text, replays⟩ := last.content
  obtain ⟨replayed, response, processed, same⟩ := replays.process config clock forks
  exact ⟨live, seen, manager, replayed, response, ran, last.present, by rw [text]; exact processed,
    same.observed⟩

def rewrittenTypes : List Event :=
  [.words 5 ["SET", "k", "v"], .words 5 ["RPUSH", "l", "a", "b"], .words 5 ["ZADD", "z", "1", "m"],
    .words 5 ["XADD", "s", "1-1", "f", "v"], .words 5 ["BGREWRITEAOF"],
    .words 5 ["RPUSH", "l", "c"], .words 5 ["SET", "l", "x"], .timeouts 0 .succeeded,
    .words 5 ["LPOP", "l"]]

theorem rewrittenTypes_transparent :
    ∃ live seen manager replayed response,
      Run.run handle rewriting rewrittenTypes = .ok (live, seen) ∧
      live.aofManager = some manager ∧
      (replayer ⟨0, 0⟩).process (manager.readAofContent []) = .ok (replayed, response) ∧
      live.store.Observed replayed.store :=
  @rewrite_transparent rewriting { AofManager.initial with appendonly := ascii "yes" }
    ⟨rfl, rfl, rfl⟩ rfl (by decide) rfl rfl rfl rewrittenTypes (by decide +kernel)
    (by decide +kernel) _ _ _ rewrittenTypes (List.prefix_refl _)

def drainedList : List Event :=
  [.words 5 ["RPUSH", "k", "x"], .words 5 ["LPOP", "k"], .words 5 ["BGREWRITEAOF"],
    .words 5 ["SET", "k", "v"], .timeouts 0 .succeeded]

/-- The empty list keeps the live server from setting the key. The child does not
write it down, and the same command sets the key in the replay. -/
theorem drainedList_differs :
    Run.Along handle ReplayTraffic rewriting drainedList ∧
      ∃ done, Run.run handle rewriting drainedList = .ok done ∧
        ∃ manager, done.1.aofManager = some manager ∧
        ∃ replay, (replayer ⟨0, 0⟩).process (manager.readAofContent []) = .ok replay ∧
          (done.1.store.getType 0 (ascii "k")).2 = ascii "list" ∧
          (done.1.store.get 0 (ascii "k")).2 = none ∧
          (replay.1.store.getType 0 (ascii "k")).2 = ascii "string" ∧
          (replay.1.store.get 0 (ascii "k")).2 = some (ascii "v") := by
  refine ⟨by decide +kernel, Run.of_checked (fun done => ∃ manager,
    done.1.aofManager = some manager ∧ Run.Succeeds _ _) ?_
    fun done _ ⟨manager, present, replays⟩ => ⟨manager, present, replays.ok⟩⟩
  decide +kernel

end CommandContext

end Credis
