import Credis.Run

/-! Frames behind each other that reach a receiver in chunks, wherever the chunks
are cut. A run over the chunks is told as the frames that are complete and the
beginning of the next one. Nothing in this file refers to the server. -/

namespace ChunkedStream

open List

variable {α : Type}

variable {rest frames done : List (List α)} {gap count : Nat} {begun : List α}

/-- What the first `count` elements leave of the frame in which they end. -/
def missing : List (List α) → Nat → Nat
  | [], _ => 0
  | frame :: frames, count =>
    if count = 0 then 0
    else if frame.length ≤ count then missing frames (count - frame.length)
    else frame.length - count

/-- No chunk leaves between one and `gap` elements of a frame to the next one. -/
def CutWell (gap : Nat) (frames : List (List α)) : Nat → List (List α) → Prop
  | _, [] => True
  | count, chunk :: chunks =>
    (missing frames (count + chunk.length) = 0 ∨ gap < missing frames (count + chunk.length)) ∧
      CutWell gap frames (count + chunk.length) chunks

instance decidableCutWell (gap : Nat) (frames : List (List α)) :
    ∀ count chunks, Decidable (CutWell gap frames count chunks)
  | _, [] => isTrue trivial
  | count, chunk :: chunks =>
    have := decidableCutWell gap frames (count + chunk.length) chunks
    inferInstanceAs (Decidable (_ ∧ _))

def Begins (begun : List α) : List (List α) → Prop
  | [] => begun = []
  | next :: _ => ∃ tail, tail ≠ [] ∧ next = begun ++ tail

theorem begins_nil (filled : ∀ frame ∈ frames, frame ≠ []) : Begins [] frames := by
  cases frames with
  | nil => rfl
  | cons frame frames => exact ⟨frame, filled frame (by simp), rfl⟩

@[simp] theorem missing_zero (frames : List (List α)) : missing frames 0 = 0 := by
  cases frames <;> simp [missing]

theorem missing_append (done rest : List (List α)) (count : Nat) :
    missing (done ++ rest) (done.flatten.length + count) = missing rest count := by
  induction done with
  | nil => simp
  | cons frame done ih =>
    simp only [cons_append, missing, flatten_cons, length_append]
    by_cases absent : frame.length + done.flatten.length + count = 0
    · have zero : count = 0 := by omega
      rw [if_pos absent, zero, missing_zero]
    · rw [if_neg absent, if_pos (by omega), ← ih]
      congr 1
      omega

theorem missing_begun {tail : List α} (filled : begun ≠ []) (more : tail ≠ []) :
    missing ((begun ++ tail) :: rest) begun.length = tail.length := by
  have first := length_pos_iff.mpr filled
  have second := length_pos_iff.mpr more
  rw [missing, if_neg (by omega), length_append, if_neg (by omega)]
  omega

theorem cutWell_append {chunks : List (List α)} :
    CutWell gap (done ++ rest) (done.flatten.length + count) chunks ↔
      CutWell gap rest count chunks := by
  induction chunks generalizing count with
  | nil => exact Iff.rfl
  | cons chunk chunks ih =>
    simp only [CutWell, Nat.add_assoc, missing_append, ih]

theorem CutWell.front {first second : List (List α)}
    (well : CutWell gap frames count (first ++ second)) : CutWell gap frames count first := by
  induction first generalizing count with
  | nil => trivial
  | cons chunk first ih => exact ⟨well.1, ih well.2⟩

theorem split_frames {frames : List (List α)} {arrived later : List α}
    (filled : ∀ frame ∈ frames, frame ≠ []) (stream : arrived ++ later = frames.flatten) :
    ∃ fresh begun rest, frames = fresh ++ rest ∧ arrived = fresh.flatten ++ begun ∧
      Begins begun rest ∧ begun ++ later = rest.flatten := by
  induction frames generalizing arrived with
  | nil =>
    have nothing := append_eq_nil_iff.mp stream
    exact ⟨[], [], [], rfl, by simp [nothing], rfl, by simp [nothing]⟩
  | cons frame frames ih =>
    by_cases whole : frame.length ≤ arrived.length
    · obtain ⟨behind, rfl⟩ : ∃ behind, arrived = frame ++ behind := by
        rw [flatten_cons] at stream
        rcases append_eq_append_iff.mp stream with ⟨more, rfl, -⟩ | ⟨behind, rfl, -⟩
        · have vacant : more = [] := by
            rw [length_append] at whole
            exact length_eq_zero_iff.mp (by omega)
          exact ⟨[], by simp [vacant]⟩
        · exact ⟨behind, rfl⟩
      rw [flatten_cons, append_assoc, append_cancel_left_eq] at stream
      obtain ⟨fresh, begun, rest, rfl, rfl, begins, ahead⟩ :=
        ih (fun other member => filled other (by simp [member])) stream
      exact ⟨frame :: fresh, begun, rest, rfl, by simp, begins, ahead⟩
    · refine ⟨[], arrived, frame :: frames, rfl, rfl, ?_, stream⟩
      rw [flatten_cons] at stream
      rcases append_eq_append_iff.mp stream with ⟨tail, rfl, -⟩ | ⟨behind, rfl, -⟩
      · refine ⟨tail, ?_, rfl⟩
        rintro rfl
        simp at whole
      · simp at whole

theorem split_chunk {before chunk later : List α} (filled : ∀ frame ∈ frames, frame ≠ [])
    (parts : frames = done ++ rest) (sofar : before = done.flatten ++ begun)
    (stream : before ++ (chunk ++ later) = frames.flatten) :
    ∃ fresh held ahead, rest = fresh ++ ahead ∧ begun ++ chunk = fresh.flatten ++ held ∧
      Begins held ahead ∧ held ++ later = ahead.flatten ∧
      missing frames (before ++ chunk).length = missing ahead held.length := by
  subst parts
  rw [sofar, flatten_append, append_assoc, append_cancel_left_eq] at stream
  obtain ⟨fresh, held, ahead, rfl, arrived, begins, remaining⟩ :=
    @split_frames _ rest (begun ++ chunk) later
      (fun frame member => filled frame (by simp [member]))
      (by simpa using stream)
  refine ⟨fresh, held, ahead, rfl, arrived, begins, remaining, ?_⟩
  have position : (before ++ chunk).length = (done ++ fresh).flatten.length + held.length := by
    have total := congrArg length arrived
    have start := congrArg length sofar
    simp only [length_append, flatten_append] at total start ⊢
    omega
  rw [position, ← append_assoc, missing_append]

theorem Begins.complete (begins : Begins begun rest) (stream : begun = rest.flatten) :
    begun = [] ∧ rest = [] := by
  cases rest with
  | nil => exact ⟨begins, rfl⟩
  | cons next rest =>
    obtain ⟨tail, more, rfl⟩ := begins
    have lengths := congrArg length stream
    have positive := length_pos_iff.mpr more
    simp only [flatten_cons, length_append] at lengths
    omega

variable {ι σ ο ε : Type} {bytes : ι → List α}

theorem exists_badly_cut {inputs : List ι} (bad : ¬ CutWell gap frames count (inputs.map bytes)) :
    ∃ earlier input later, inputs = earlier ++ input :: later ∧
      CutWell gap frames count (earlier.map bytes) ∧
      0 < missing frames (count + ((earlier ++ [input]).map bytes).flatten.length) ∧
      missing frames (count + ((earlier ++ [input]).map bytes).flatten.length) ≤ gap := by
  induction inputs generalizing count with
  | nil => exact absurd trivial bad
  | cons input inputs ih =>
    by_cases here : missing frames (count + (bytes input).length) = 0 ∨
        gap < missing frames (count + (bytes input).length)
    · obtain ⟨earlier, last, later, rfl, well, short⟩ := ih fun well => bad ⟨here, well⟩
      refine ⟨input :: earlier, last, later, rfl, ⟨here, well⟩, ?_⟩
      simpa only [cons_append, map_cons, flatten_cons, length_append,
        Nat.add_assoc] using short
    · refine ⟨[], input, inputs, rfl, trivial, ?_⟩
      simp only [nil_append, map_cons, map_nil, flatten_cons,
        flatten_nil, append_nil]
      omega

variable {step : σ → ι → Except ε (σ × ο)}

/-- A receiver that keeps step with every chunk that is cut well keeps step with
the stream. `synced` tells the state and the outputs by the beginning of a frame
that is held back and the frames that are not complete. -/
theorem run_synced {gap : Nat} {condition : σ → ι → Prop}
    (synced : σ → List ο → List α → List (List α) → Prop)
    (advance : ∀ state outputs begun rest fresh input held ahead,
      synced state outputs begun rest → condition state input → rest = fresh ++ ahead →
      begun ++ bytes input = fresh.flatten ++ held → Begins held ahead →
      (missing ahead held.length = 0 ∨ gap < missing ahead held.length) →
      ∃ next output, step state input = .ok (next, output) ∧
        synced next (outputs ++ [output]) held ahead)
    {state : σ} {outputs : List ο} {begun later : List α} {rest : List (List α)}
    {inputs : List ι} (filled : ∀ frame ∈ rest, frame ≠ [])
    (holds : synced state outputs begun rest)
    (begins : Begins begun rest)
    (stream : begun ++ ((inputs.map bytes).flatten ++ later) = rest.flatten)
    (meets : Run.Along step condition state inputs)
    (well : CutWell gap rest begun.length (inputs.map bytes)) :
    ∃ last more fresh held ahead, Run.run step state inputs = .ok (last, more) ∧
      synced last (outputs ++ more) held ahead ∧ rest = fresh ++ ahead ∧
      begun ++ (inputs.map bytes).flatten = fresh.flatten ++ held ∧ Begins held ahead := by
  induction inputs generalizing state outputs begun rest with
  | nil =>
    exact ⟨state, [], [], begun, rest, rfl, by rwa [append_nil], rfl, by simp, begins⟩
  | cons input inputs ih =>
    obtain ⟨fresh, held, ahead, rfl, arrived, starts, remaining⟩ :=
      @split_frames _ rest (begun ++ bytes input) ((inputs.map bytes).flatten ++ later) filled
        (by simpa using stream)
    have position : begun.length + (bytes input).length =
        fresh.flatten.length + held.length := by
      simpa using congrArg length arrived
    have here := well.1
    have there := well.2
    rw [position, missing_append] at here
    rw [position, cutWell_append] at there
    obtain ⟨next, output, taken, kept⟩ :=
      advance state outputs begun _ fresh input held ahead holds meets.1 rfl arrived starts here
    obtain ⟨last, more, whole, final, unread, ran, reached, rfl, covered, ends⟩ :=
      ih (fun frame member => filled frame (by simp [member])) kept starts remaining
        (meets.next taken) there
    refine ⟨last, output :: more, fresh ++ whole, final, unread, ?_, ?_, by simp, ?_, ends⟩
    · simp only [Run.run, taken, ran]
    · simpa using reached
    · rw [map_cons, flatten_cons, ← append_assoc, arrived, append_assoc,
        covered]
      simp

end ChunkedStream
