import Credis.ExecChecks

/-! What the descriptor of the log refers to while the log is switched on and
off, rewritten and written to. -/

namespace Credis

open ByteString

variable {manager before : AofManager}

variable {baseDir text dir word path : Bytes} {state : HandlerState} {send : Bool}
  {args : List Bytes} {outcome : Outcome} {ctx : CommandContext}

variable {after : AofManager} {fd : Fd} {status : ChildStatus} {sequence : Int} {forked : Bool}
  {now : Instant} {name : Bytes} {event : Event}

namespace AofManager

def manifest (manager : AofManager) (baseDir : Bytes) : Option Bytes :=
  manager.files.lookup (manager.manifestPath baseDir)

def namedFile (manager : AofManager) (baseDir text : Bytes) : Bytes :=
  manager.directory baseDir ++ ((words text)[1]?).getD []

def namedSequence (text : Bytes) : Int := sequenceNumber (words text)[3]?

structure FileState (manager : AofManager) (baseDir : Bytes) : Prop where
  opened : manager.aofFd.isSome = true ↔ manager.appendonly = ascii "yes"
  named : ∀ path, manager.aofFd = some path → ∃ text, manager.manifest baseDir = some text ∧
    path = manager.namedFile baseDir text ∧ manager.currentSeq = namedSequence text

/-- A name that the manifest gives back as it is and that is no path. -/
def FineName (name : Bytes) : Prop := ∀ byte ∈ name, isSpace byte = false ∧ byte ≠ 47

-- The bytes are gone through one by one; the whole type is finite as well.
instance (name : Bytes) : Decidable (FineName name) :=
  List.decidableBAll (fun byte => isSpace byte = false ∧ byte ≠ 47) name

/-! The words of a manifest. -/

theorem splitOnP_not_space (member : word ∈ text.splitOnP isSpace) :
    ∀ byte ∈ word, isSpace byte = false := by
  induction text generalizing word with
  | nil =>
    rw [List.splitOnP_nil, List.mem_singleton] at member
    subst member
    exact fun byte inside => absurd inside (by simp)
  | cons first text ih =>
    rw [List.splitOnP_cons_eq_if_modifyHead] at member
    split at member
    · rcases List.mem_cons.mp member with rfl | later
      · exact fun byte inside => absurd inside (by simp)
      · exact ih later
    · rename_i solid
      cases parts : text.splitOnP isSpace with
      | nil =>
        rw [parts] at member
        exact absurd member (by simp)
      | cons head tail =>
        rw [parts] at member ih
        rcases List.mem_cons.mp member with rfl | later
        · intro byte inside
          rcases List.mem_cons.mp inside with rfl | behind
          · exact eq_false_of_ne_true solid
          · exact ih List.mem_cons_self byte behind
        · exact ih (List.mem_cons_of_mem _ later)

theorem secondWord_not_space (text : Bytes) :
    ∀ byte ∈ ((words text)[1]?).getD [], isSpace byte = false := by
  cases second : (words text)[1]? with
  | none => simp
  | some word => exact splitOnP_not_space (List.mem_filter.mp (List.mem_of_getElem? second)).1

theorem words_append_cons {space : UInt8} (rest : Bytes) (nonempty : word ≠ [])
    (solid : ∀ byte ∈ word, isSpace byte = false) (parts : isSpace space = true) :
    words (word ++ space :: rest) = word :: words rest := by
  unfold words
  rw [List.splitOnP_append_cons_of_forall_mem solid space parts,
    List.filter_cons_of_pos (by simpa using nonempty)]

theorem solid_of_all (checked : word.all (fun byte => !isSpace byte) = true) :
    ∀ byte ∈ word, isSpace byte = false := by
  simpa using checked

theorem natText_not_space (value : Nat) : ∀ byte ∈ natText value, isSpace byte = false := by
  intro byte member
  have digit := List.all_eq_true.mp (natText_digits value) byte member
  unfold isDigit at digit
  unfold isSpace
  simp only [Bool.and_eq_true, decide_eq_true_eq, Bool.or_eq_false_iff, beq_eq_false_iff_ne,
    Bool.and_eq_false_iff, decide_eq_false_iff_not] at digit ⊢
  refine ⟨fun same => ?_, .inr fun low => ?_⟩
  · subst same
    exact absurd digit.1 (by decide)
  · exact absurd (UInt8.le_trans digit.1 low) (by decide)

theorem intText_not_space (value : Int) : ∀ byte ∈ intText value, isSpace byte = false := by
  intro byte member
  cases value with
  | ofNat value => exact natText_not_space value byte member
  | negSucc value =>
    rcases List.mem_cons.mp member with rfl | digits
    · rfl
    · exact natText_not_space _ byte digits

theorem intText_ne_nil (value : Int) : intText value ≠ [] := by
  cases value with
  | ofNat value => exact natText_ne_nil value
  | negSucc value => exact List.cons_ne_nil _ _

theorem intText_ne_slash (value : Int) : ∀ byte ∈ intText value, byte ≠ 47 := by
  have digits : ∀ (value : Nat), ∀ byte ∈ natText value, byte ≠ 47 := by
    rintro value byte member rfl
    exact absurd (List.all_eq_true.mp (natText_digits value) 47 member) (by decide)
  intro byte member
  cases value with
  | ofNat value => exact digits value byte member
  | negSucc value =>
    rcases List.mem_cons.mp member with rfl | behind
    · decide
    · exact digits _ byte behind

theorem sequenceNumber_intText (value : Int) : sequenceNumber (some (intText value)) = value := by
  cases value with
  | negSucc value =>
    show -((digitsValue ((natText (value + 1)).takeWhile isDigit) : Nat) : Int) = _
    rw [takeWhile_natText, natText_value]
    rfl
  | ofNat value =>
    show sequenceNumber (some (natText value)) = _
    have plain : ∀ digits : Bytes, natText value ≠ 45 :: digits := by
      intro digits same
      have every := natText_digits value
      rw [same, List.all_cons] at every
      exact absurd every (by simp [isDigit])
    unfold sequenceNumber
    split
    · rename_i digits same
      cases same
    · rename_i digits same
      exact absurd (Option.some.inj same) (plain digits)
    · rename_i digits same other
      cases other
      rw [takeWhile_natText, natText_value]
      rfl

theorem incrName_ne_nil (manager : AofManager) (sequence : Int) :
    manager.incrName sequence ≠ [] := by
  unfold incrName
  exact List.append_ne_nil_of_right_ne_nil _ (by decide)

theorem mem_incrName {byte : UInt8} :
    byte ∈ manager.incrName sequence ↔ byte ∈ manager.appendfilename ∨ byte ∈ ascii "." ∨
      byte ∈ intText sequence ∨ byte ∈ ascii ".incr.aof" := by
  simp only [incrName, List.mem_append, or_assoc]

section Solid

variable (sequence : Int) (solid : ∀ byte ∈ manager.appendfilename, isSpace byte = false)
include solid

theorem incrName_not_space : ∀ byte ∈ manager.incrName sequence, isSpace byte = false := by
  intro byte member
  rcases mem_incrName.mp member with name | dot | number | ending
  · exact solid byte name
  · exact solid_of_all (by decide) byte dot
  · exact intText_not_space sequence byte number
  · exact solid_of_all (by decide) byte ending

theorem words_manifestLine :
    words (manager.manifestLine sequence) =
      [ascii "file", manager.incrName sequence, ascii "seq", intText sequence, ascii "type",
        ascii "i"] := by
  have parts : manager.manifestLine sequence =
      ascii "file" ++ 32 :: (manager.incrName sequence ++ 32 :: (ascii "seq" ++ 32 ::
        (intText sequence ++ 32 :: (ascii "type" ++ 32 :: (ascii "i" ++ 10 :: []))))) := by
    have first : ascii "file " = ascii "file" ++ [32] := by decide
    have second : ascii " seq " = 32 :: (ascii "seq" ++ [32]) := by decide
    have third : ascii " type i" = 32 :: (ascii "type" ++ 32 :: ascii "i") := by decide
    simp only [manifestLine, first, second, third, List.append_assoc, List.cons_append,
      List.nil_append]
  rw [parts, words_append_cons _ (by decide) (solid_of_all (by decide)) (by decide),
    words_append_cons _ (incrName_ne_nil _ _) (incrName_not_space sequence solid) (by decide),
    words_append_cons _ (by decide) (solid_of_all (by decide)) (by decide),
    words_append_cons _ (intText_ne_nil _) (intText_not_space _) (by decide),
    words_append_cons _ (by decide) (solid_of_all (by decide)) (by decide),
    words_append_cons _ (by decide) (solid_of_all (by decide)) (by decide)]
  rfl

theorem namedFile_manifestLine (baseDir : Bytes) :
    manager.namedFile baseDir (manager.manifestLine sequence) =
      manager.directory baseDir ++ manager.incrName sequence := by
  rw [namedFile, words_manifestLine sequence solid]
  rfl

theorem namedSequence_manifestLine :
    namedSequence (manager.manifestLine sequence) = sequence := by
  rw [namedSequence, words_manifestLine sequence solid]
  exact sequenceNumber_intText sequence

end Solid

/-! A log file is never the manifest. -/

theorem incr_ne_manifest (left right : Bytes) :
    left ++ ascii ".incr.aof" ≠ right ++ ascii ".manifest" := by
  intro same
  have last := congrArg List.getLast? same
  have first : (ascii ".incr.aof").getLast? = some 102 := by decide
  have second : (ascii ".manifest").getLast? = some 116 := by decide
  simp only [List.getLast?_append, first, second, Option.some_or] at last
  exact absurd last (by decide)

theorem incrPath_ne_manifestPath (manager : AofManager) (baseDir : Bytes) (sequence : Int) :
    manager.directory baseDir ++ manager.incrName sequence ≠ manager.manifestPath baseDir := by
  rw [incrName, manifestPath, ← List.append_assoc]
  exact incr_ne_manifest _ _

theorem namedFile_manifestLine_ne (manager : AofManager) (baseDir : Bytes) (sequence : Int) :
    manager.namedFile baseDir (manager.manifestLine sequence) ≠ manager.manifestPath baseDir := by
  by_cases solid : ∀ byte ∈ manager.appendfilename, isSpace byte = false
  · rw [namedFile_manifestLine sequence solid baseDir]
    exact incrPath_ne_manifestPath manager baseDir sequence
  intro same
  apply solid
  intro byte member
  rw [namedFile, manifestPath, List.append_assoc, List.append_right_inj] at same
  refine secondWord_not_space (manager.manifestLine sequence) byte ?_
  rw [same]
  exact List.mem_append_left _ member

/-! Writes to one file leave the manager and the other files alone. -/

structure WritesAt (path : Bytes) (before after : AofManager) : Prop where
  rest : after = { before with files := after.files }
  others : ∀ other, other ≠ path → after.files.lookup other = before.files.lookup other

theorem WritesAt.refl (path : Bytes) (manager : AofManager) : WritesAt path manager manager :=
  ⟨rfl, fun _ _ => rfl⟩

theorem insert_writesAt (manager : AofManager) (path content : Bytes) :
    WritesAt path manager { manager with files := manager.files.insert path content } :=
  ⟨rfl, fun _ apart => AList.lookup_insert_ne apart⟩

theorem ensurePath_writesAt (manager : AofManager) (path content : Bytes) :
    WritesAt path manager (manager.ensurePath path content) := by
  unfold ensurePath
  split
  · exact .refl _ _
  · exact insert_writesAt _ _ _

theorem appendRewriteBuffer_writesAt (manager : AofManager) (path : Bytes) :
    WritesAt path manager (manager.appendRewriteBuffer path) := by
  unfold appendRewriteBuffer
  split
  · exact .refl _ _
  · exact insert_writesAt _ _ _

theorem WritesAt.manifest_eq (writes : WritesAt path before after)
    (apart : path ≠ before.manifestPath baseDir) :
    after.manifest baseDir = before.manifest baseDir := by
  have same : after.manifestPath baseDir = before.manifestPath baseDir := by rw [writes.rest]; rfl
  rw [manifest, same]
  exact writes.others _ apart.symm

/-! The invariant. -/

/-- The manifest names another file than itself, and a rewrite under way goes on
behind the sequence number of the manifest. -/
structure Prepared (manager : AofManager) (baseDir : Bytes) : Prop where
  apart : ∀ text, manager.manifest baseDir = some text →
    manager.namedFile baseDir text ≠ manager.manifestPath baseDir
  rewriting : manager.rewriteInProgress = true → manager.baseDir = baseDir ∧
    manager.rewriteTempFile =
      manager.appenddirname ++ ascii "/" ++ manager.incrName (manager.currentSeq + 1) ∧
    ∃ text, manager.manifest baseDir = some text ∧ manager.currentSeq = namedSequence text
  child : ∀ child, manager.rewriteChild = some child → manager.rewriteInProgress = true ∧
    child.path = baseDir ++ ascii "/" ++ manager.rewriteTempFile

structure Tracks (manager : AofManager) (baseDir : Bytes) : Prop extends
  FileState manager baseDir, Prepared manager baseDir

theorem Prepared.writesAt (prepared : before.Prepared baseDir) (writes : WritesAt path before after)
    (apart : path ≠ before.manifestPath baseDir) : after.Prepared baseDir := by
  have same := writes.manifest_eq apart
  have rest := writes.rest
  obtain ⟨distinct, rewriting, child⟩ := prepared
  generalize after.files = files at rest
  subst rest
  refine ⟨fun text found => ?_, fun under => ?_, child⟩
  · rw [same] at found
    exact distinct text found
  · rw [same]
    exact rewriting under

theorem Tracks.writesAt (tracks : before.Tracks baseDir) (writes : WritesAt path before after)
    (apart : path ≠ before.manifestPath baseDir) : after.Tracks baseDir := by
  have same := writes.manifest_eq apart
  have rest := writes.rest
  refine ⟨?_, tracks.toPrepared.writesAt writes apart⟩
  obtain ⟨opened, named⟩ := tracks.toFileState
  generalize after.files = files at rest
  subst rest
  refine ⟨opened, fun path fd => ?_⟩
  rw [same]
  exact named path fd

theorem Tracks.append (tracks : manager.Tracks baseDir) (data : Bytes) :
    (manager.append data).Tracks baseDir := by
  unfold AofManager.append
  cases fd : manager.aofFd with
  | none => exact tracks
  | some path =>
    obtain ⟨text, found, rfl, -⟩ := tracks.named path fd
    exact tracks.writesAt (insert_writesAt _ _ _) (tracks.apart text found)

theorem Tracks.appendToRewriteBuffer (tracks : manager.Tracks baseDir) (data : Bytes) :
    (manager.appendToRewriteBuffer data).Tracks baseDir := by
  unfold AofManager.appendToRewriteBuffer
  split
  · obtain ⟨⟨opened, named⟩, ⟨distinct, rewriting, child⟩⟩ := tracks
    exact ⟨⟨opened, named⟩, ⟨distinct, rewriting, child⟩⟩
  · exact tracks

theorem Tracks.setAppendfsync (tracks : manager.Tracks baseDir) (value : Bytes) :
    (manager.setAppendfsync value).Tracks baseDir := by
  obtain ⟨⟨opened, named⟩, ⟨distinct, rewriting, child⟩⟩ := tracks
  exact ⟨⟨opened, named⟩, ⟨distinct, rewriting, child⟩⟩

/-! Opening the log. -/

theorem enabled_iff (manager : AofManager) :
    manager.enabled = true ↔ manager.appendonly = ascii "yes" := by
  rw [enabled, beq_iff_eq]

theorem Prepared.ensureFile (prepared : manager.Prepared baseDir) :
    (manager.ensureFile baseDir).Prepared baseDir := by
  unfold AofManager.ensureFile
  split
  · exact prepared.writesAt (ensurePath_writesAt _ _ _) (incrPath_ne_manifestPath _ _ _)
  · exact prepared

theorem Prepared.ensureManifest (prepared : manager.Prepared baseDir)
    (on : manager.enabled = true) :
    (manager.ensureManifest baseDir).Prepared baseDir ∧
      ∃ text, (manager.ensureManifest baseDir).manifest baseDir = some text := by
  rw [AofManager.ensureManifest, if_pos on]
  unfold ensurePath
  split
  · rename_i present
    refine ⟨prepared, ?_⟩
    exact Option.isSome_iff_exists.mp (AList.lookup_isSome.mpr present)
  · rename_i absent
    have written : ({ manager with
        files := manager.files.insert (manager.manifestPath baseDir) (manager.manifestLine 1) } :
          AofManager).manifest baseDir = some (manager.manifestLine 1) := AList.lookup_insert _
    refine ⟨⟨fun text found => ?_, fun under => ?_, prepared.child⟩, _, written⟩
    · rw [written] at found
      cases found
      exact namedFile_manifestLine_ne manager baseDir 1
    · obtain ⟨-, -, text, found, -⟩ := prepared.rewriting under
      exact absurd (AList.lookup_isSome.mp (by rw [← manifest, found]; rfl)) absent

theorem openFile_eq {baseDir text : Bytes} (on : manager.appendonly = ascii "yes")
    (present : manager.manifest baseDir = some text) :
    manager.openFile baseDir =
      { ({ manager with baseDir := baseDir } : AofManager).ensurePath
          (manager.namedFile baseDir text) [] with
        currentSeq := namedSequence text
        aofFd := some (manager.namedFile baseDir text) } := by
  unfold manifest at present
  rw [AofManager.openFile, if_pos ((enabled_iff manager).mpr on)]
  simp only [manifestPath, directory] at present ⊢
  rw [present]
  rfl

theorem Prepared.openFile (prepared : manager.Prepared baseDir)
    (on : manager.appendonly = ascii "yes") (present : manager.manifest baseDir = some text) :
    (manager.openFile baseDir).Tracks baseDir := by
  have writes := ensurePath_writesAt { manager with baseDir := baseDir }
    (manager.namedFile baseDir text) []
  have kept : ({ manager with baseDir := baseDir } : AofManager).manifest baseDir = some text :=
    present
  rw [← writes.manifest_eq (prepared.apart text present)] at kept
  have rest := writes.rest
  -- a rewrite under way already has the sequence number that is read again here
  rw [openFile_eq on present]
  generalize ({ manager with baseDir := baseDir } : AofManager).ensurePath
    (manager.namedFile baseDir text) [] = ensured at rest kept ⊢
  generalize ensured.files = files at rest
  subst rest
  refine ⟨⟨⟨fun _ => on, fun _ => rfl⟩, ?_⟩, ⟨?_, ?_, prepared.child⟩⟩
  · intro path fd
    cases fd
    exact ⟨text, kept, rfl, rfl⟩
  · intro other found
    cases kept.symm.trans found
    exact prepared.apart text present
  · intro under
    obtain ⟨-, target, other, found, sequence⟩ := prepared.rewriting under
    cases present.symm.trans found
    refine ⟨rfl, ?_, text, kept, rfl⟩
    rw [target, sequence]
    rfl

theorem Prepared.opening {baseDir : Bytes} (prepared : manager.Prepared baseDir)
    (on : manager.appendonly = ascii "yes") :
    (((manager.ensureFile baseDir).ensureManifest baseDir).openFile baseDir).Tracks baseDir := by
  have first : (manager.ensureFile baseDir).appendonly = manager.appendonly :=
    congrArg (fun settings => settings.1.1) (settings_ensureFile manager baseDir)
  have second := congrArg (fun settings => settings.1.1)
    (settings_ensureManifest (manager.ensureFile baseDir) baseDir)
  obtain ⟨ready, text, present⟩ :=
    prepared.ensureFile.ensureManifest ((enabled_iff _).mpr (first.trans on))
  exact ready.openFile (second.trans (first.trans on)) present

structure Dormant (manager : AofManager) : Prop where
  closed : manager.aofFd = none
  settled : manager.rewriteInProgress = false
  childless : manager.rewriteChild = none

theorem open_off (baseDir : Bytes) (off : manager.enabled = false) :
    ((manager.ensureFile baseDir).ensureManifest baseDir).openFile baseDir = manager := by
  have first : manager.ensureFile baseDir = manager := by simp [AofManager.ensureFile, off]
  have second : manager.ensureManifest baseDir = manager := by
    simp [AofManager.ensureManifest, off]
  have third : manager.openFile baseDir = manager := by simp [AofManager.openFile, off]
  rw [first, second, third]

theorem Dormant.prepared (dormant : manager.Dormant)
    (apart : ∀ text, manager.manifest baseDir = some text →
      manager.namedFile baseDir text ≠ manager.manifestPath baseDir) :
    manager.Prepared baseDir := by
  refine ⟨apart, fun under => ?_, fun child found => ?_⟩
  · exact absurd (dormant.settled.symm.trans under) (by simp)
  · exact absurd (dormant.childless.symm.trans found) (by simp)

theorem Dormant.opening {baseDir : Bytes} (dormant : manager.Dormant)
    (apart : ∀ text, manager.manifest baseDir = some text →
      manager.namedFile baseDir text ≠ manager.manifestPath baseDir) :
    (((manager.ensureFile baseDir).ensureManifest baseDir).openFile baseDir).Tracks baseDir := by
  have prepared := dormant.prepared apart
  by_cases on : manager.appendonly = ascii "yes"
  · exact prepared.opening on
  rw [open_off baseDir (eq_false_of_ne_true (mt (enabled_iff manager).mp on))]
  refine ⟨⟨⟨fun fd => ?_, fun yes => absurd yes on⟩, fun path fd => ?_⟩, prepared⟩
  · rw [dormant.closed] at fd
    exact absurd fd (by simp)
  · exact absurd (dormant.closed.symm.trans fd) (by simp)

theorem Tracks.switchAppendonly {value : Bytes} (tracks : manager.Tracks baseDir)
    (valid : value = ascii "yes" ∨ value = ascii "no") :
    (switchAppendonly manager baseDir value).Tracks baseDir := by
  have different : ascii "no" ≠ ascii "yes" := by decide
  have prepared : (manager.setAppendonly value).Prepared baseDir :=
    ⟨tracks.apart, tracks.rewriting, tracks.child⟩
  unfold Credis.switchAppendonly
  dsimp only
  split
  · rename_i turned
    exact prepared.opening turned.1
  rename_i still
  split
  · rename_i turned
    refine ⟨⟨⟨fun fd => absurd fd (by simp [close]), fun on => ?_⟩, ?_⟩,
      ⟨tracks.apart, tracks.rewriting, tracks.child⟩⟩
    · exact absurd (turned.1.symm.trans on) different
    · exact fun path fd => absurd fd (by simp [close])
  · rename_i off
    have same : value = manager.appendonly := by
      rcases valid with rfl | rfl
      · exact (Decidable.not_not.mp fun other => still ⟨rfl, other⟩).symm
      · exact (Decidable.not_not.mp fun other => off ⟨rfl, other⟩).symm
    rw [same]
    exact tracks

/-! The rewrite. -/

theorem Tracks.startRewrite (tracks : manager.Tracks baseDir) (store : Store) (forked : Bool) :
    (manager.startRewrite store baseDir forked).1.Tracks baseDir := by
  unfold AofManager.startRewrite
  split
  · exact tracks
  rename_i begins
  obtain ⟨idle, on⟩ := not_or.mp begins
  have childless : manager.rewriteChild = none := by
    cases found : manager.rewriteChild with
    | none => rfl
    | some child => exact absurd (tracks.child child found).1 idle
  dsimp only
  split
  · have on := (enabled_iff manager).mp (Decidable.not_not.mp on)
    obtain ⟨path, fd⟩ := Option.isSome_iff_exists.mp (tracks.opened.mpr on)
    obtain ⟨text, found, -, sequence⟩ := tracks.named path fd
    refine ⟨⟨tracks.opened, tracks.named⟩, ⟨tracks.apart, ?_, ?_⟩⟩
    · exact fun _ => ⟨rfl, rfl, text, found, sequence⟩
    · intro child started
      cases started
      exact ⟨rfl, rfl⟩
  · refine ⟨⟨tracks.opened, tracks.named⟩, ⟨tracks.apart, fun under => absurd under idle, ?_⟩⟩
    intro child found
    exact absurd (childless.symm.trans found) (by simp)

theorem lastDirectory_of_not_mem (front : Bytes) (plain : 47 ∉ name) :
    lastDirectory (front ++ [47] ++ name) = front ++ [47] := by
  have gone : name.reverse.dropWhile (fun byte => byte != 47) = [] := by
    rw [List.dropWhile_eq_nil_iff]
    intro byte member
    rw [bne_iff_ne]
    rintro rfl
    exact plain (List.mem_reverse.mp member)
  rw [lastDirectory, List.reverse_append, List.dropWhile_append, gone]
  simp

theorem lastDirectory_of_mem (front : Bytes) (slash : 47 ∈ name) :
    ∃ more, more ≠ [] ∧ lastDirectory (front ++ name) = front ++ more := by
  have filled : name.reverse.dropWhile (fun byte => byte != 47) ≠ [] := by
    intro gone
    have every := List.dropWhile_eq_nil_iff.mp gone 47 (List.mem_reverse.mpr slash)
    exact absurd every (by decide)
  refine ⟨_, mt List.reverse_eq_nil_iff.mp filled, ?_⟩
  rw [lastDirectory, List.reverse_append, List.dropWhile_append, if_neg (by simpa using filled),
    List.reverse_append, List.reverse_reverse]

theorem mem_incrName_slash : 47 ∈ manager.incrName sequence ↔ 47 ∈ manager.appendfilename := by
  rw [mem_incrName]
  constructor
  · rintro (name | dot | number | ending)
    · exact name
    · exact absurd dot (by decide)
    · exact absurd rfl (intText_ne_slash sequence 47 number)
    · exact absurd ending (by decide)
  · exact .inl

def swapPath (manager : AofManager) : Bytes :=
  manager.baseDir ++ ascii "/" ++ lastDirectory manager.rewriteTempFile ++
    manager.appendfilename ++ ascii ".manifest"

theorem appendRewriteBuffer_lookup {path content : Bytes}
    (present : manager.files.lookup path = some content) :
    (manager.appendRewriteBuffer path).files.lookup path =
      some (content ++ manager.rewriteBuffer) := by
  have member : path ∈ manager.files := AList.lookup_isSome.mp (by rw [present]; rfl)
  unfold appendRewriteBuffer
  split
  · rename_i nothing
    rcases nothing with empty | absent
    · rw [present, empty, List.append_nil]
    · exact absurd member absent
  · rw [appendTo, AList.lookup_insert, present, Option.getD_some]

theorem finishRewrite_spec (manager : AofManager) (sequence : Int)
    (distinct : path ≠ manager.swapPath) :
    ∃ files, manager.finishRewrite path sequence =
        { manager with
          files := files
          aofFd := some path
          currentSeq := sequence
          rewriteInProgress := false
          rewriteBuffer := []
          rewriteTempFile := [] } ∧
      files.lookup manager.swapPath = some (manager.manifestLine sequence) ∧
      (∀ other, other ≠ path → other ≠ manager.swapPath →
        files.lookup other = manager.files.lookup other) ∧
      ∀ content, manager.files.lookup path = some content →
        files.lookup path = some (content ++ manager.rewriteBuffer) := by
  have appended := appendRewriteBuffer_writesAt manager path
  have found := @appendRewriteBuffer_lookup manager path
  unfold finishRewrite
  generalize manager.appendRewriteBuffer path = buffered at appended found ⊢
  have rest := appended.rest
  have others := appended.others
  generalize buffered.files = middle at rest others found
  subst rest
  have written : ∀ other, other ≠ manager.swapPath →
      (({ manager with files := middle } : AofManager).writeManifest sequence).files.lookup other =
        middle.lookup other := fun other apart => AList.lookup_insert_ne apart
  have swapped : (({ manager with files := middle } : AofManager).writeManifest
      sequence).files.lookup manager.swapPath = some (manager.manifestLine sequence) :=
    AList.lookup_insert _
  have unchanged : (({ manager with files := middle } : AofManager).writeManifest sequence) =
      { manager with
        files := (({ manager with files := middle } : AofManager).writeManifest sequence).files } :=
    rfl
  generalize ({ manager with files := middle } : AofManager).writeManifest sequence = named
    at written swapped unchanged ⊢
  have ensured := ensurePath_writesAt named path []
  have present : ∀ content, named.files.lookup path = some content →
      (named.ensurePath path []).files.lookup path = some content := by
    intro content here
    unfold ensurePath
    rw [if_pos (AList.lookup_isSome.mp (by rw [here]; rfl))]
    exact here
  refine ⟨(named.ensurePath path []).files, ?_, ?_, ?_, ?_⟩
  · rw [ensured.rest, unchanged]
  · rw [ensured.others _ distinct.symm, swapped]
  · intro other first second
    rw [ensured.others _ first, written _ second, others _ first]
  · intro content here
    exact present _ ((written _ distinct).trans (found here))

theorem Prepared.swapPath_eq (prepared : manager.Prepared baseDir)
    (under : manager.rewriteInProgress = true) :
    manager.swapPath = manager.manifestPath baseDir ↔ 47 ∉ manager.appendfilename := by
  obtain ⟨base, target, -⟩ := prepared.rewriting under
  have slash : ascii "/" = [47] := by decide
  constructor
  · intro same inside
    obtain ⟨more, given, moved⟩ := lastDirectory_of_mem (manager.appenddirname ++ ascii "/")
      (mem_incrName_slash.mpr inside : 47 ∈ manager.incrName (manager.currentSeq + 1))
    rw [swapPath, base, target, moved] at same
    have lengths := congrArg List.length same
    simp only [manifestPath, directory, List.length_append] at lengths
    have positive := List.length_pos_iff.mpr given
    omega
  · intro plain
    have moved := lastDirectory_of_not_mem manager.appenddirname
      (mt mem_incrName_slash.mp plain : 47 ∉ manager.incrName (manager.currentSeq + 1))
    rw [swapPath, base, target, slash, moved]
    simp only [manifestPath, directory, slash, List.append_assoc]

theorem childFile_writesAt (now : Time)
    (target : ∀ child, manager.rewriteChild = some child → child.path = path) :
    WritesAt path manager (manager.childFile now) ∧
      ∀ child, manager.rewriteChild = some child →
        (manager.childFile now).files.lookup path =
          some (rewriteChildMain child.snapshot now) := by
  unfold childFile
  split
  · rename_i childless
    exact ⟨.refl _ _, fun child started => absurd (childless.symm.trans started) (by simp)⟩
  rename_i child started
  rw [target child started]
  refine ⟨insert_writesAt _ _ _, fun other same => ?_⟩
  cases started.symm.trans same
  exact AList.lookup_insert _

theorem Prepared.check_succeeded (prepared : manager.Prepared baseDir)
    (under : manager.rewriteInProgress = true) (now : Time) :
    ∃ files, (manager.checkRewriteComplete .succeeded now).1 =
        { manager with
          files := files
          aofFd := some (manager.directory baseDir ++ manager.incrName (manager.currentSeq + 1))
          currentSeq := manager.currentSeq + 1
          rewriteInProgress := false
          rewriteChild := none
          rewriteBuffer := []
          rewriteTempFile := [] } ∧
      files.lookup (manager.manifestPath baseDir) =
        (if 47 ∈ manager.appendfilename then manager.manifest baseDir
          else some (manager.manifestLine (manager.currentSeq + 1))) ∧
      ∀ child, manager.rewriteChild = some child →
        files.lookup (manager.directory baseDir ++ manager.incrName (manager.currentSeq + 1)) =
          some (rewriteChildMain child.snapshot now ++ manager.rewriteBuffer) := by
  obtain ⟨base, target, -⟩ := prepared.rewriting under
  have place : baseDir ++ ascii "/" ++ manager.rewriteTempFile =
      manager.directory baseDir ++ manager.incrName (manager.currentSeq + 1) := by
    simp only [target, directory, List.append_assoc]
  obtain ⟨writes, content⟩ := childFile_writesAt now fun child started =>
    ((prepared.child child started).2.trans place)
  have swap := prepared.swapPath_eq under
  have distinct : manager.directory baseDir ++ manager.incrName (manager.currentSeq + 1) ≠
      manager.swapPath := by
    rw [incrName, swapPath, ← List.append_assoc]
    exact incr_ne_manifest _ _
  have taken : (manager.checkRewriteComplete .succeeded now).1 =
      ({ manager.childFile now with rewriteChild := none } : AofManager).finishRewrite
        (manager.directory baseDir ++ manager.incrName (manager.currentSeq + 1))
        (manager.currentSeq + 1) := by
    rw [← place, ← base, checkRewriteComplete, if_pos under]
  rw [taken]
  have rest := writes.rest
  have others := writes.others
  generalize manager.childFile now = written at rest others content ⊢
  generalize written.files = middle at rest others content
  subst rest
  obtain ⟨files, done, named, kept, filled⟩ := finishRewrite_spec
    { manager with files := middle, rewriteChild := none } (manager.currentSeq + 1) distinct
  refine ⟨files, done, ?_, fun child started => filled _ (content child started)⟩
  split
  · rename_i slash
    have moved : manager.manifestPath baseDir ≠ manager.swapPath :=
      fun same => swap.mp same.symm slash
    have apart := (incrPath_ne_manifestPath manager baseDir (manager.currentSeq + 1)).symm
    rw [kept _ apart moved]
    exact others _ apart
  · rename_i plain
    rw [← swap.mpr plain]
    exact named

def SwapsInto (manager : AofManager) (status : ChildStatus) : Prop :=
  manager.rewriteInProgress = true → status = .succeeded →
    manager.appendonly = ascii "yes" ∧ FineName manager.appendfilename

instance (manager : AofManager) (status : ChildStatus) : Decidable (manager.SwapsInto status) :=
  inferInstanceAs (Decidable (_ → _ → _))

theorem Tracks.check_kept (tracks : manager.Tracks baseDir) (now : Time)
    (kept : manager.rewriteInProgress = true → status ≠ .succeeded) :
    (manager.checkRewriteComplete status now).1.Tracks baseDir := by
  unfold checkRewriteComplete
  split
  · rename_i under
    cases status with
    | running => exact tracks
    | succeeded => exact absurd rfl (kept under)
    | failed =>
      refine ⟨⟨tracks.opened, tracks.named⟩, ⟨tracks.apart, ?_, ?_⟩⟩
      · exact fun under => absurd under (by simp)
      · exact fun child found => absurd found (by simp)
  · exact tracks

theorem Tracks.check_swapped (tracks : manager.Tracks baseDir) (now : Time)
    (under : manager.rewriteInProgress = true) (on : manager.appendonly = ascii "yes")
    (fine : FineName manager.appendfilename) :
    (manager.checkRewriteComplete .succeeded now).1.Tracks baseDir := by
  obtain ⟨files, done, named, -⟩ := tracks.toPrepared.check_succeeded under now
  rw [if_neg fun slash => (fine 47 slash).2 rfl] at named
  have solid : ∀ byte ∈ manager.appendfilename, isSpace byte = false :=
    fun byte member => (fine byte member).1
  rw [done]
  refine ⟨⟨⟨fun _ => on, fun _ => rfl⟩, ?_⟩, ⟨?_, ?_, ?_⟩⟩
  · intro path fd
    cases fd
    refine ⟨_, named, (namedFile_manifestLine _ solid baseDir).symm, ?_⟩
    exact (namedSequence_manifestLine _ solid).symm
  · intro text found
    cases named.symm.trans found
    exact namedFile_manifestLine_ne manager baseDir _
  · exact fun under => absurd under (by simp)
  · exact fun child found => absurd found (by simp)

theorem Tracks.check_broken (tracks : manager.Tracks baseDir) (now : Time)
    (fails : ¬manager.SwapsInto status) :
    ¬(manager.checkRewriteComplete status now).1.FileState baseDir := by
  simp only [SwapsInto, Classical.not_imp] at fails
  obtain ⟨under, rfl, fails⟩ := fails
  obtain ⟨files, done, named, -⟩ := tracks.toPrepared.check_succeeded under now
  obtain ⟨-, -, before, present, sequence⟩ := tracks.rewriting under
  rw [done]
  rintro ⟨opened, refers⟩
  have on : manager.appendonly = ascii "yes" := opened.mp rfl
  obtain ⟨text, found, path, same⟩ := refers _ rfl
  by_cases slash : 47 ∈ manager.appendfilename
  · rw [if_pos slash, present] at named
    cases named.symm.trans found
    exact absurd (sequence ▸ same : manager.currentSeq + 1 = manager.currentSeq) (by omega)
  · rw [if_neg slash] at named
    cases named.symm.trans found
    apply fails
    refine ⟨on, fun byte member => ⟨?_, fun same => slash (same ▸ member)⟩⟩
    -- the word in the manifest is the whole name of the file
    have whole : manager.incrName (manager.currentSeq + 1) =
        ((words (manager.manifestLine (manager.currentSeq + 1)))[1]?).getD [] :=
      List.append_cancel_left path
    refine secondWord_not_space (manager.manifestLine (manager.currentSeq + 1)) byte ?_
    rw [← whole]
    exact mem_incrName.mpr (.inl member)

/-! What the commands do to the log. -/

inductive Administered (store : Store) (baseDir : Bytes) (manager : AofManager) :
    AofManager → Prop
  | switched {value : Bytes} (valid : value = ascii "yes" ∨ value = ascii "no") :
      Administered store baseDir manager (switchAppendonly manager baseDir value)
  | paced (value : Bytes) : Administered store baseDir manager (manager.setAppendfsync value)
  | rewritten (forked : Bool) :
      Administered store baseDir manager (manager.startRewrite store baseDir forked).1

theorem Tracks.administered {store : Store} (tracks : before.Tracks baseDir)
    (done : Administered store baseDir before after) : after.Tracks baseDir := by
  cases done with
  | switched valid => exact tracks.switchAppendonly valid
  | paced value => exact tracks.setAppendfsync value
  | rewritten forked => exact tracks.startRewrite store forked

end AofManager

open AofManager

theorem handleConfigSet_administers (store : Store) (manager : Option AofManager)
    (dir parameter value : Bytes) :
    (handleConfigSet manager dir parameter value).1 = manager ∨
      ∃ before after, manager = some before ∧
        (handleConfigSet manager dir parameter value).1 = some after ∧
        Administered store dir before after := by
  cases manager with
  | none =>
    refine .inl ?_
    unfold handleConfigSet
    dsimp only
    split
    · rfl
    · split <;> rfl
  | some manager =>
    unfold handleConfigSet
    dsimp only
    split
    · split
      · exact .inl rfl
      · rename_i valid
        refine .inr ⟨manager, _, rfl, rfl, .switched ?_⟩
        rcases not_and_or.mp valid with first | second
        · exact .inl (Decidable.not_not.mp first)
        · exact .inr (Decidable.not_not.mp second)
    · split
      · split
        · exact .inl rfl
        · exact .inr ⟨manager, _, rfl, rfl, .paced _⟩
      · exact .inl rfl

theorem handleBgrewriteaof_administers (manager : Option AofManager) (store : Store) (dir : Bytes)
    (forked : Bool) :
    (handleBgrewriteaof manager store dir forked).1 = manager ∨
      ∃ before, manager = some before ∧ (handleBgrewriteaof manager store dir forked).1 =
        some (before.startRewrite store dir forked).1 := by
  cases manager with
  | none => exact .inl rfl
  | some manager =>
    unfold handleBgrewriteaof
    dsimp only
    split
    · exact .inl rfl
    split
    · exact .inl rfl
    · refine .inr ⟨manager, rfl, ?_⟩
      split <;> rename_i started <;> rw [started]

theorem handler_aof (command : Command)
    (handled : command.handler state now forked fd send args = .ok outcome) :
    outcome.state.aofManager = state.aofManager ∨
      (command = .config ∧ toUpper (args.getD 1 []) = ascii "SET" ∧
        outcome.state.aofManager = (handleConfigSet state.aofManager state.config.dir
          (args.getD 2 []) (args.getD 3 [])).1) ∨
      (command = .bgrewriteaof ∧ outcome.state.aofManager =
        (handleBgrewriteaof state.aofManager state.store state.config.dir forked).1) := by
  cases Command.handled handled with
  | config _ setting => exact .inr (.inl ⟨rfl, setting, rfl⟩)
  | bgrewriteaof _ => exact .inr (.inr ⟨rfl, rfl⟩)
  | _ => exact .inl rfl

theorem handler_administers (command : Command)
    (handled : command.handler state now forked fd send args = .ok outcome) :
    outcome.state.aofManager = state.aofManager ∨
      ∃ before after, state.aofManager = some before ∧ outcome.state.aofManager = some after ∧
        Administered state.store state.config.dir before after := by
  rcases handler_aof command handled with same | ⟨-, -, changed⟩ | ⟨-, changed⟩
  · exact .inl same
  · rw [changed]
    exact handleConfigSet_administers state.store state.aofManager state.config.dir _ _
  · rw [changed]
    rcases handleBgrewriteaof_administers state.aofManager state.store state.config.dir forked
      with same | ⟨before, present, started⟩
    · exact .inl same
    · exact .inr ⟨before, _, present, started, .rewritten forked⟩

def HandlerState.LogsTo (state : HandlerState) (dir : Bytes) : Prop :=
  state.config.dir = dir ∧ ∀ manager, state.aofManager = some manager → manager.Tracks dir

namespace CommandContext

theorem executeCommand_logs {cmd : Bytes} (logs : state.LogsTo dir)
    (ran : executeCommand state fd send args cmd = .ok outcome) : outcome.state.LogsTo dir := by
  have same := (executeCommand_wiring ran).config
  rcases executeCommand_ok ran with ⟨reply, rfl⟩ | ⟨command, ticks, -, handled⟩
  · exact logs
  refine ⟨same ▸ logs.1, fun manager present => ?_⟩
  rcases handler_administers command handled with kept | ⟨before, after, earlier, later, done⟩
  · exact logs.2 manager (kept ▸ present)
  cases later.symm.trans present
  dsimp only at done
  rw [logs.1] at done
  exact (logs.2 before earlier).administered done

theorem logCommand_logs (logs : ctx.LogsTo dir) (cmd raw : Bytes) :
    (ctx.logCommand cmd raw).LogsTo dir := by
  rw [logCommand_eq]
  refine ⟨logs.1, fun manager present => ?_⟩
  obtain ⟨before, found, rfl⟩ := Option.map_eq_some_iff.mp present
  exact List.foldlRecOn (motive := (Tracks · dir)) _ _ (logs.2 before found)
    fun _ tracks data _ => (tracks.append data).appendToRewriteBuffer data

def Swaps (ctx : CommandContext) : Event → Prop
  | .timeouts _ status => ∀ manager, ctx.aofManager = some manager → manager.SwapsInto status
  | _ => True

instance (ctx : CommandContext) : (event : Event) → Decidable (ctx.Swaps event)
  | .timeouts _ status =>
    match present : ctx.aofManager with
    | none => isTrue fun _ found => absurd (present.symm.trans found) (by simp)
    | some manager =>
      match (inferInstance : Decidable (manager.SwapsInto status)) with
      | isTrue holds => isTrue fun _ found => by cases present.symm.trans found; exact holds
      | isFalse fails => isFalse fun every => fails (every manager present)
  | .connect _ | .disconnect _ | .request _ => isTrue trivial

theorem handle_logs {next : CommandContext} {output : Option Observation} (logs : ctx.LogsTo dir)
    (swaps : ctx.Swaps event) (handled : ctx.handle event = .ok (next, output)) :
    next.LogsTo dir := by
  cases event with
  | connect _ | disconnect _ =>
    cases handled
    exact logs
  | timeouts now status =>
    cases handled
    refine ⟨logs.1, fun manager present => ?_⟩
    obtain ⟨before, found, rfl⟩ := Option.map_eq_some_iff.mp present
    have tracks := logs.2 before found
    by_cases swapped : before.rewriteInProgress = true ∧ status = .succeeded
    · obtain ⟨under, rfl⟩ := swapped
      obtain ⟨on, fine⟩ := swaps before found under rfl
      exact tracks.check_swapped now under on fine
    · exact tracks.check_kept now fun under done => swapped ⟨under, done⟩
  | request request =>
    obtain ⟨observation, served, -⟩ := handle_request handled
    obtain ⟨outcome, -, serves, rfl, -⟩ := serve_ok served
    refine logCommand_logs ?_ _ _
    exact @Serves.relates _ _ _ _ _ _ (fun before after => before.LogsTo dir → after.LogsTo dir)
      (fun _ logs => logs) (fun first second logs => second (first logs))
      (fun ran logs => executeCommand_logs logs ran) serves logs

theorem handle_broken (logs : ctx.LogsTo dir) (fails : ¬ctx.Swaps event) :
    ∃ next output, ctx.handle event = .ok (next, output) ∧
      ¬∀ manager, next.aofManager = some manager → manager.FileState dir := by
  cases event with
  | connect _ | disconnect _ | request _ => exact absurd trivial fails
  | timeouts now status =>
    simp only [Swaps, Classical.not_forall] at fails
    obtain ⟨manager, present, fails⟩ := fails
    refine ⟨_, _, rfl, fun every => (logs.2 manager present).check_broken now fails ?_⟩
    exact every _ (by rw [settle, present]; rfl)

/-- In every state that the server gets to, the descriptor of the log is open if and
only if the log is on, and refers to the file and the sequence number of the
manifest, as long as no rewrite completes while the log is off or under a name that
the manifest does not give back. -/
theorem log_refers_iff {ctx : CommandContext} {aof : AofManager} (dormant : aof.Dormant)
    (apart : ∀ text, aof.manifest ctx.config.dir = some text →
      aof.namedFile ctx.config.dir text ≠ aof.manifestPath ctx.config.dir)
    (started : ctx.aofManager = some
      (((aof.ensureFile ctx.config.dir).ensureManifest ctx.config.dir).openFile ctx.config.dir))
    (events : List Event) :
    (∀ front, front <+: events → ∀ after seen, Run.run handle ctx front = .ok (after, seen) →
        ∀ manager, after.aofManager = some manager → manager.FileState ctx.config.dir) ↔
      Run.Along handle Swaps ctx events := by
  have logs : ctx.LogsTo ctx.config.dir := by
    refine ⟨rfl, fun manager present => ?_⟩
    cases started.symm.trans present
    exact dormant.opening apart
  exact Run.fronts_iff_along (fun state => state.LogsTo ctx.config.dir)
    (fun state => ∀ manager, state.aofManager = some manager → manager.FileState ctx.config.dir)
    (fun _ logs manager present => (logs.2 manager present).toFileState)
    (fun _ _ _ _ logs swaps handled => handle_logs logs swaps handled)
    (fun _ _ logs fails => handle_broken logs fails) logs

def rewriting : CommandContext :=
  (wired ⟨none, [], [], []⟩ { AofManager.initial with appendonly := ascii "yes" }
    (fun _ => ⟨0, 0⟩) (fun _ => true) 0).addConnection 5

def switchedBack : List Event :=
  [.words 5 ["SET", "k", "v"], .words 5 ["BGREWRITEAOF"],
    .words 5 ["CONFIG", "SET", "appendonly", "no"], .words 5 ["CONFIG", "SET", "appendonly", "yes"],
    .words 5 ["SET", "k", "w"], .timeouts 0 .succeeded]

theorem switchedBack_refers :
    Run.Along handle Swaps rewriting switchedBack ∧
      ∀ front, front <+: switchedBack → ∀ after seen,
        Run.run handle rewriting front = .ok (after, seen) →
          ∀ manager, after.aofManager = some manager → manager.FileState [] := by
  have along : Run.Along handle Swaps rewriting switchedBack := by decide +kernel
  refine ⟨along, (@log_refers_iff _ { AofManager.initial with appendonly := ascii "yes" }
    ⟨rfl, rfl, rfl⟩ (fun _ found => ?_) rfl _).mpr along⟩
  exact absurd ((AList.lookup_empty _).symm.trans found) (by simp)

def switchedOff : List Event :=
  [.words 5 ["BGREWRITEAOF"], .words 5 ["CONFIG", "SET", "appendonly", "no"],
    .timeouts 0 .succeeded]

/-- The swap opens the new file although the log is off. -/
theorem switchedOff_opens :
    ∃ done, Run.run handle rewriting switchedOff = .ok done ∧ ∃ manager,
      done.1.aofManager = some manager ∧ manager.appendonly = ascii "no" ∧
        ¬manager.FileState [] := by
  refine Run.of_checked (fun done => ∃ manager, done.1.aofManager = some manager ∧
    manager.appendonly = ascii "no" ∧ manager.aofFd.isSome = true) (by decide +kernel)
    fun done _ ⟨manager, present, off, opened⟩ => ⟨manager, present, off, fun state => ?_⟩
  exact absurd (off.symm.trans (state.opened.mp opened)) (by decide)

end CommandContext

end Credis
