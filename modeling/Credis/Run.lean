import Mathlib.Data.List.Basic

/-! Runs of a system whose steps take an input, give an output and may fail, with
the rules for invariants along a run. Nothing in this file refers to the
server. -/

namespace Run

variable {σ ι ο ε : Type} (step : σ → ι → Except ε (σ × ο))

variable {state last middle : σ} {inputs first second : List ι} {condition : σ → ι → Prop}
  {outputs : List ο} {input : ι} {output : ο} {failure : ε}

def run : σ → List ι → Except ε (σ × List ο)
  | state, [] => .ok (state, [])
  | state, input :: inputs =>
    match step state input with
    | .error failure => .error failure
    | .ok (next, output) =>
      match run next inputs with
      | .error failure => .error failure
      | .ok (last, outputs) => .ok (last, output :: outputs)

def Along (condition : σ → ι → Prop) : σ → List ι → Prop
  | _, [] => True
  | state, input :: inputs =>
    condition state input ∧
      match step state input with
      | .error _ => True
      | .ok (next, _) => Along condition next inputs

instance decidableAlong (condition : σ → ι → Prop)
    [decidable : ∀ state input, Decidable (condition state input)] :
    ∀ state inputs, Decidable (Along step condition state inputs)
  | _, [] => isTrue trivial
  | state, input :: inputs =>
    match decidable state input with
    | isFalse fails => isFalse fun along => fails along.1
    | isTrue holds =>
      match taken : step state input with
      | .error _ => isTrue ⟨holds, by rw [taken]; trivial⟩
      | .ok (next, _) =>
        match decidableAlong condition next inputs with
        | isTrue later => isTrue ⟨holds, by rw [taken]; exact later⟩
        | isFalse fails => isFalse fun along => fails (by
            have later := along.2
            rw [taken] at later
            exact later)

variable {step}

theorem Along.next {next : σ} (along : Along step condition state (input :: inputs))
    (taken : step state input = .ok (next, output)) : Along step condition next inputs := by
  have later := along.2
  rw [taken] at later
  exact later

theorem forall_mem_snoc {α : Type} {holds : α → Prop} {items : List α} {item : α}
    (old : ∀ other ∈ items, holds other) (new : holds item) :
    ∀ other ∈ items ++ [item], holds other :=
  List.forall_mem_append.mpr ⟨old, List.forall_mem_singleton.mpr new⟩

theorem Along.front (along : Along step condition state (first ++ second)) :
    Along step condition state first := by
  induction first generalizing state with
  | nil => trivial
  | cons input first ih =>
    refine ⟨along.1, ?_⟩
    split
    · trivial
    · rename_i next output taken
      exact ih (along.next taken)

theorem Along.and {left right : σ → ι → Prop} (first : Along step left state inputs)
    (second : Along step right state inputs) :
    Along step (fun state input => left state input ∧ right state input) state inputs := by
  induction inputs generalizing state with
  | nil => trivial
  | cons input inputs ih =>
    refine ⟨⟨first.1, second.1⟩, ?_⟩
    split
    · trivial
    · rename_i next output taken
      exact ih (first.next taken) (second.next taken)

theorem along_of_forall {condition : ι → Prop} {inputs : List ι}
    (every : ∀ input ∈ inputs, condition input) (state : σ) :
    Along step (fun _ input => condition input) state inputs := by
  induction inputs generalizing state with
  | nil => trivial
  | cons input inputs ih =>
    refine ⟨every input (by simp), ?_⟩
    split
    · trivial
    · exact ih (fun other member => every other (by simp [member])) _

theorem Along.under {premise : Prop} (along : premise → Along step condition state inputs) :
    Along step (fun state input => premise → condition state input) state inputs := by
  induction inputs generalizing state with
  | nil => trivial
  | cons input inputs ih =>
    refine ⟨fun given => (along given).1, ?_⟩
    split
    · trivial
    · rename_i next output taken
      exact ih fun given => (along given).next taken

theorem run_cons (done : run step state (input :: inputs) = .ok (last, outputs)) :
    ∃ next output later, step state input = .ok (next, output) ∧
      run step next inputs = .ok (last, later) ∧ outputs = output :: later := by
  unfold run at done
  split at done
  · cases done
  rename_i next output taken
  split at done
  · cases done
  · rename_i final later rest
    cases done
    exact ⟨next, output, later, taken, rest, rfl⟩

theorem Along.each {holds : ι → Prop} (meets : Along step condition state inputs)
    (done : run step state inputs = .ok (last, outputs))
    (tells : ∀ state input, condition state input → holds input) :
    ∀ input ∈ inputs, holds input := by
  induction inputs generalizing state outputs with
  | nil => exact fun input member => absurd member (by simp)
  | cons first inputs ih =>
    obtain ⟨next, output, later, taken, rest, rfl⟩ := run_cons done
    intro input member
    rcases List.mem_cons.mp member with rfl | member
    · exact tells state input meets.1
    · exact ih (meets.next taken) rest input member

theorem run_length (done : run step state inputs = .ok (last, outputs)) :
    outputs.length = inputs.length := by
  induction inputs generalizing state outputs with
  | nil =>
    cases done
    rfl
  | cons input inputs ih =>
    obtain ⟨next, output, later, taken, rest, rfl⟩ := run_cons done
    rw [List.length_cons, List.length_cons, ih rest]

theorem run_append (done : run step state (first ++ second) = .ok (last, outputs)) :
    ∃ middle early late, run step state first = .ok (middle, early) ∧
      run step middle second = .ok (last, late) ∧ outputs = early ++ late := by
  induction first generalizing state outputs with
  | nil => exact ⟨state, [], outputs, rfl, done, rfl⟩
  | cons input first ih =>
    obtain ⟨next, output, later, taken, rest, rfl⟩ := run_cons done
    obtain ⟨middle, early, late, before, behind, rfl⟩ := ih rest
    refine ⟨middle, output :: early, late, ?_, behind, rfl⟩
    simp only [run, taken, before]

theorem Along.behind (along : Along step condition state (first ++ second))
    (before : run step state first = .ok (middle, outputs)) :
    Along step condition middle second := by
  induction first generalizing state outputs with
  | nil =>
    cases before
    exact along
  | cons input first ih =>
    obtain ⟨next, output, later, taken, rest, rfl⟩ := run_cons before
    exact ih (along.next taken) rest

theorem run_join {early late : List ο} (before : run step state first = .ok (middle, early))
    (behind : run step middle second = .ok (last, late)) :
    run step state (first ++ second) = .ok (last, early ++ late) := by
  induction first generalizing state early with
  | nil =>
    cases before
    exact behind
  | cons input first ih =>
    obtain ⟨next, output, later, taken, rest, rfl⟩ := run_cons before
    simp only [List.cons_append, run, taken, ih rest]

theorem run_concat (done : run step state (inputs ++ [input]) = .ok (last, outputs ++ [output])) :
    ∃ middle, run step state inputs = .ok (middle, outputs) ∧
      step middle input = .ok (last, output) := by
  obtain ⟨middle, early, late, before, behind, parts⟩ := run_append done
  obtain ⟨next, final, later, taken, rest, rfl⟩ := run_cons behind
  cases rest
  obtain ⟨rfl, same⟩ := List.append_inj' parts rfl
  cases same
  exact ⟨middle, before, taken⟩

/-- What holds at the start and survives every step that meets the condition
holds behind the run. -/
theorem run_invariant (invariant : σ → Prop)
    (preserved : ∀ state input next output, invariant state → condition state input →
      step state input = .ok (next, output) → invariant next) :
    ∀ {state last : σ} {inputs : List ι} {outputs : List ο}, invariant state →
      Along step condition state inputs → run step state inputs = .ok (last, outputs) →
      invariant last := by
  intro state last inputs
  induction inputs generalizing state with
  | nil =>
    intro outputs holds _ done
    cases done
    exact holds
  | cons input inputs ih =>
    intro outputs holds meets done
    obtain ⟨next, output, later, taken, rest, rfl⟩ := run_cons done
    exact ih (preserved state input next output holds meets.1 taken) (meets.next taken) rest

theorem along_congr {left right : σ → ι → Prop} (invariant : σ → Prop)
    (preserved : ∀ state input next output, invariant state →
      step state input = .ok (next, output) → invariant next)
    (agree : ∀ state input, invariant state → (left state input ↔ right state input)) :
    ∀ {state : σ} {inputs : List ι}, invariant state →
      (Along step left state inputs ↔ Along step right state inputs) := by
  intro state inputs
  induction inputs generalizing state with
  | nil => exact fun _ => Iff.rfl
  | cons input inputs ih =>
    intro holds
    unfold Along
    refine and_congr (agree state input holds) ?_
    split
    · exact Iff.rfl
    · rename_i next output taken
      exact ih (preserved state input next output holds taken)

/-- What an invariant shows is seen behind every part of a run, if and only if the
condition without which a step is seen to break it holds along the run. -/
theorem fronts_iff_along {condition : σ → ι → Prop} (invariant shown : σ → Prop)
    (shows : ∀ state, invariant state → shown state)
    (preserved : ∀ state input next output, invariant state → condition state input →
      step state input = .ok (next, output) → invariant next)
    (broken : ∀ state input, invariant state → ¬condition state input →
      ∃ next output, step state input = .ok (next, output) ∧ ¬shown next) :
    ∀ {state : σ} {inputs : List ι}, invariant state →
      ((∀ front, front <+: inputs → ∀ last outputs, run step state front = .ok (last, outputs) →
        shown last) ↔ Along step condition state inputs) := by
  intro state inputs holds
  constructor
  · intro seen
    induction inputs generalizing state with
    | nil => trivial
    | cons input inputs ih =>
      have meets : condition state input := by
        by_contra fails
        obtain ⟨next, output, taken, missed⟩ := broken state input holds fails
        refine missed (seen [input] ⟨inputs, rfl⟩ next [output] ?_)
        simp only [run, taken]
      refine ⟨meets, ?_⟩
      split
      · trivial
      rename_i next output taken
      refine ih (preserved _ _ _ _ holds meets taken) fun front early last outputs ran => ?_
      refine seen (input :: front) (List.cons_prefix_cons.mpr ⟨rfl, early⟩) last
        (output :: outputs) ?_
      simp only [run, taken, ran]
  · rintro meets front ⟨rest, rfl⟩ last outputs ran
    exact shows last (run_invariant invariant preserved holds meets.front ran)

theorem run_relates {related : σ → σ → Prop} (refl : ∀ state, related state state)
    (trans : ∀ {first second third}, related first second → related second third →
      related first third)
    (once : ∀ {state input next output}, step state input = .ok (next, output) →
      related state next) {state last : σ} {inputs : List ι} {outputs : List ο}
    (done : run step state inputs = .ok (last, outputs)) : related state last := by
  induction inputs generalizing state outputs with
  | nil =>
    cases done
    exact refl _
  | cons input inputs ih =>
    obtain ⟨next, output, later, taken, rest, rfl⟩ := run_cons done
    exact trans (once taken) (ih rest)

/-- A machine that is driven by the inputs and outputs follows the run, if it follows
every step. -/
theorem run_simulates {α : Type} {advance : α → ι × ο → α} {related : α → σ → Prop}
    (once : ∀ {abstract state input next output}, related abstract state →
      step state input = .ok (next, output) → related (advance abstract (input, output)) next)
    {abstract : α} {state last : σ} {inputs : List ι} {outputs : List ο}
    (start : related abstract state) (done : run step state inputs = .ok (last, outputs)) :
    related ((inputs.zip outputs).foldl advance abstract) last := by
  induction inputs generalizing abstract state outputs with
  | nil =>
    cases done
    exact start
  | cons input inputs ih =>
    obtain ⟨next, output, later, taken, rest, rfl⟩ := run_cons done
    exact ih (once start taken) rest

theorem run_avoids (invariant : σ → Prop)
    (preserved : ∀ state input next output, invariant state → condition state input →
      step state input = .ok (next, output) → invariant next)
    (avoided : ∀ state input, invariant state → condition state input →
      step state input ≠ .error failure) :
    ∀ {state : σ} {inputs : List ι}, invariant state → Along step condition state inputs →
      run step state inputs ≠ .error failure := by
  intro state inputs
  induction inputs generalizing state with
  | nil =>
    intro _ _ failed
    cases failed
  | cons input inputs ih =>
    intro holds meets failed
    unfold run at failed
    split at failed
    · rename_i taken
      cases failed
      exact avoided state input holds meets.1 taken
    · rename_i next output taken
      split at failed
      · rename_i rest
        cases failed
        exact ih (preserved state input next output holds meets.1 taken) (meets.next taken) rest
      · cases failed

theorem run_progress {condition : σ → ι → Prop} (invariant : σ → List ο → Prop)
    (progress : ∀ state input outputs, invariant state outputs → condition state input →
      ∃ next output, step state input = .ok (next, output) ∧
        invariant next (outputs ++ [output])) :
    ∀ {state : σ} {inputs : List ι} {before : List ο}, invariant state before →
      Along step condition state inputs →
      ∃ last outputs, run step state inputs = .ok (last, outputs) ∧
        invariant last (before ++ outputs) := by
  intro state inputs
  induction inputs generalizing state with
  | nil =>
    intro before holds _
    exact ⟨state, [], rfl, by rw [List.append_nil]; exact holds⟩
  | cons input inputs ih =>
    intro before holds meets
    obtain ⟨next, output, taken, kept⟩ := progress state input before holds meets.1
    obtain ⟨last, outputs, rest, final⟩ := ih kept (meets.next taken)
    refine ⟨last, output :: outputs, by simp only [run, taken, rest], ?_⟩
    rwa [List.append_assoc, List.singleton_append] at final

variable {α : Type} {past items : List α}

/-- The condition holds of every item together with the items before it, the first
of which are `past`. -/
def InOrder (condition : List α → α → Prop) : List α → List α → Prop
  | _, [] => True
  | past, item :: items => condition past item ∧ InOrder condition (past ++ [item]) items

instance decidableInOrder (condition : List α → α → Prop)
    [decidable : ∀ past item, Decidable (condition past item)] :
    ∀ past items, Decidable (InOrder condition past items)
  | _, [] => isTrue trivial
  | past, item :: items =>
    match decidable past item, decidableInOrder condition (past ++ [item]) items with
    | isTrue here, isTrue later => isTrue ⟨here, later⟩
    | isFalse fails, _ => isFalse fun every => fails every.1
    | _, isFalse fails => isFalse fun every => fails every.2

theorem inOrder_append {condition : List α → α → Prop} {first second : List α} :
    InOrder condition past (first ++ second) ↔
      InOrder condition past first ∧ InOrder condition (past ++ first) second := by
  induction first generalizing past with
  | nil => simp [InOrder]
  | cons item first ih => simp only [List.cons_append, InOrder, ih, List.append_assoc, and_assoc,
      List.nil_append]

theorem InOrder.imp {left right : List α → α → Prop}
    (implies : ∀ past item, left past item → right past item) (every : InOrder left past items) :
    InOrder right past items := by
  induction items generalizing past with
  | nil => trivial
  | cons item items ih => exact ⟨implies past item every.1, ih every.2⟩

theorem InOrder.and {left right : List α → α → Prop} (first : InOrder left past items)
    (second : InOrder right past items) :
    InOrder (fun past item => left past item ∧ right past item) past items := by
  induction items generalizing past with
  | nil => trivial
  | cons item items ih => exact ⟨⟨first.1, second.1⟩, ih first.2 second.2⟩

theorem InOrder.congr {facts left right : List α → α → Prop} (known : InOrder facts past items)
    (agree : ∀ past item, facts past item → (left past item ↔ right past item)) :
    InOrder left past items ↔ InOrder right past items :=
  ⟨fun every => (known.and every).imp fun past item both => (agree past item both.1).mp both.2,
    fun every => (known.and every).imp fun past item both => (agree past item both.1).mpr both.2⟩

theorem inOrder_forall {condition : α → Prop} :
    InOrder (fun _ => condition) past items ↔ ∀ item ∈ items, condition item := by
  induction items generalizing past with
  | nil => simp [InOrder]
  | cons item items ih => simp only [InOrder, ih, List.forall_mem_cons]

theorem inOrder_of_pairwise {relation : α → α → Prop}
    (ordered : (past ++ items).Pairwise relation) :
    InOrder (fun past item => ∀ earlier ∈ past, relation earlier item) past items := by
  induction items generalizing past with
  | nil => trivial
  | cons item items ih =>
    obtain ⟨-, -, apart⟩ := List.pairwise_append.mp ordered
    refine ⟨fun earlier member => apart earlier member item List.mem_cons_self, ih ?_⟩
    rwa [List.append_assoc, List.singleton_append]

def kept (step : σ → ι → Except ε (σ × ο)) (skip : σ → ι → Bool) : σ → List ι → List ι
  | _, [] => []
  | state, input :: inputs =>
    match step state input with
    | .error _ => input :: inputs
    | .ok (next, _) =>
      if skip state input then kept step skip next inputs
      else input :: kept step skip next inputs

/-- Inputs that change nothing and show nothing can be left out of a run. -/
theorem run_kept {β : Type} {skip : σ → ι → Bool} (invariant : σ → Prop) (view : ο → List β)
    (preserved : ∀ state input next output, invariant state →
      step state input = .ok (next, output) → invariant next)
    (silent : ∀ state input next output, invariant state → condition state input →
      skip state input = true → step state input = .ok (next, output) →
      next = state ∧ view output = []) :
    ∀ {state last : σ} {inputs : List ι} {outputs : List ο}, invariant state →
      Along step condition state inputs → run step state inputs = .ok (last, outputs) →
      ∃ fewer, run step state (kept step skip state inputs) = .ok (last, fewer) ∧
        fewer.flatMap view = outputs.flatMap view := by
  intro state last inputs
  induction inputs generalizing state with
  | nil =>
    intro outputs _ _ done
    exact ⟨outputs, done, rfl⟩
  | cons input inputs ih =>
    intro outputs holds meets done
    obtain ⟨next, output, later, taken, rest, rfl⟩ := run_cons done
    obtain ⟨fewer, ran, same⟩ :=
      ih (preserved state input next output holds taken) (meets.next taken) rest
    by_cases skipped : skip state input = true
    · obtain ⟨rfl, nothing⟩ := silent state input next output holds meets.1 skipped taken
      refine ⟨fewer, ?_, ?_⟩
      · simp only [kept, taken, skipped, if_true]
        exact ran
      · rw [same, List.flatMap_cons, nothing, List.nil_append]
    · refine ⟨output :: fewer, ?_, ?_⟩
      · simp only [kept, taken, skipped, Bool.false_eq_true, if_false, run, ran]
      · rw [List.flatMap_cons, List.flatMap_cons, same]

section Together

variable {τ β γ : Type} (left : σ → ι → Except ε (σ × ο)) (right : τ → ι → Except ε (τ × ο))

/-- The condition holds of every input in the two states in which two systems take it. -/
def Together (condition : σ → τ → ι → Prop) : σ → τ → List ι → Prop
  | _, _, [] => True
  | first, second, input :: inputs =>
    condition first second input ∧
      match left first input, right second input with
      | .ok (first, _), .ok (second, _) => Together condition first second inputs
      | _, _ => True

instance decidableTogether (condition : σ → τ → ι → Prop)
    [decidable : ∀ first second input, Decidable (condition first second input)] :
    ∀ first second inputs, Decidable (Together left right condition first second inputs)
  | _, _, [] => isTrue trivial
  | first, second, input :: inputs =>
    match decidable first second input with
    | isFalse fails => isFalse fun together => fails together.1
    | isTrue holds =>
      match tookLeft : left first input, tookRight : right second input with
      | .error _, _ => isTrue ⟨holds, by rw [tookLeft]; trivial⟩
      | .ok _, .error _ => isTrue ⟨holds, by rw [tookLeft, tookRight]; trivial⟩
      | .ok (first, _), .ok (second, _) =>
        match decidableTogether condition first second inputs with
        | isTrue later => isTrue ⟨holds, by rw [tookLeft, tookRight]; exact later⟩
        | isFalse fails => isFalse fun together => fails (by
            have later := together.2
            rw [tookLeft, tookRight] at later
            exact later)

inductive Agree (related : σ → τ → Prop) (view : ο → β) :
    Except ε (σ × ο) → Except ε (τ × ο) → Prop
  | failed (failure : ε) : Agree related view (.error failure) (.error failure)
  | done {first : σ} {second : τ} {output other : ο} : related first second →
      view output = view other → Agree related view (.ok (first, output)) (.ok (second, other))

variable {left right}

variable {view : ο → β} {final : σ → γ} {other : τ → γ}

def shown (view : ο → β) (final : σ → γ) (ran : Except ε (σ × List ο)) : Except ε (γ × List β) :=
  ran.map fun result => (final result.1, result.2.map view)

theorem shown_cons {next : σ} (taken : left state input = .ok (next, output)) :
    shown view final (run left state (input :: inputs)) =
      (shown view final (run left next inputs)).map fun result =>
        (result.1, view output :: result.2) := by
  simp only [run, taken]
  cases run left next inputs <;> rfl

theorem shown_failed (taken : left state input = .error failure) :
    shown view final (run left state (input :: inputs)) = .error failure := by
  simp only [run, taken, shown]
  rfl

theorem map_cons_inj {shown other : Except ε (γ × List β)} {item : β}
    (same : (shown.map fun result => (result.1, item :: result.2)) =
      other.map fun result => (result.1, item :: result.2)) : shown = other := by
  cases shown with
  | error failure =>
    cases other with
    | error other =>
      cases same
      rfl
    | ok other => cases same
  | ok shown =>
    cases other with
    | error other => cases same
    | ok other =>
      obtain ⟨state, items⟩ := shown
      obtain ⟨state', items'⟩ := other
      cases same
      rfl

theorem Agree.cases {related : σ → τ → Prop} {one : Except ε (σ × ο)} {two : Except ε (τ × ο)}
    (agree : Agree related view one two) :
    (∃ failure, one = .error failure ∧ two = .error failure) ∨
      ∃ first second output other, one = .ok (first, output) ∧ two = .ok (second, other) ∧
        related first second ∧ view output = view other := by
  cases agree with
  | failed failure => exact .inl ⟨failure, rfl, rfl⟩
  | done after seen => exact .inr ⟨_, _, _, _, rfl, rfl, after, seen⟩

theorem agree_of_shown {first : σ} {second : τ} (same : shown view final (run left first [input]) =
      shown view other (run right second [input])) :
    Agree (fun _ _ => True) view (left first input) (right second input) := by
  cases tookLeft : left first input with
  | error failure =>
    rw [shown_failed tookLeft] at same
    cases tookRight : right second input with
    | error failure' =>
      rw [shown_failed tookRight] at same
      cases same
      exact .failed failure
    | ok result =>
      rw [shown_cons tookRight] at same
      cases same
  | ok result =>
    rw [shown_cons tookLeft] at same
    cases tookRight : right second input with
    | error failure =>
      rw [shown_failed tookRight] at same
      cases same
    | ok result' =>
      rw [shown_cons tookRight] at same
      simp only [run, shown, Except.map, Except.ok.injEq, Prod.mk.injEq, List.map_nil,
        List.cons.injEq, and_true] at same
      exact .done trivial same.2

/-- Two systems whose steps agree under a condition, and differ without it, show the same
along a list of inputs exactly when the condition holds all along. -/
theorem shown_iff_together {condition : σ → τ → ι → Prop} {valid : ι → Prop}
    (related : σ → τ → Prop)
    (read : ∀ first second, related first second → final first = other second)
    (agree : ∀ first second input, related first second → valid input →
      condition first second input → Agree related view (left first input) (right second input))
    (differ : ∀ first second input, related first second → valid input →
      ¬ condition first second input →
      ¬ Agree (fun _ _ => True) view (left first input) (right second input)) :
    ∀ {first : σ} {second : τ} {inputs : List ι}, related first second →
      (∀ input ∈ inputs, valid input) →
      ((∀ front, front <+: inputs → shown view final (run left first front) =
          shown view other (run right second front)) ↔
        Together left right condition first second inputs) := by
  intro first second inputs
  induction inputs generalizing first second with
  | nil =>
    intro start _
    refine ⟨fun _ => trivial, fun _ front within => ?_⟩
    rw [List.prefix_nil.mp within]
    simp only [run, shown, Except.map, List.map_nil, read first second start]
  | cons input inputs ih =>
    intro start every
    have here := every input (by simp)
    have later := fun item member => every item (List.mem_cons_of_mem input member)
    constructor
    · intro same
      have shownOnce := agree_of_shown (same [input] (by simp))
      have holds : condition first second input := by
        by_contra fails
        exact differ first second input start here fails shownOnce
      refine ⟨holds, ?_⟩
      rcases (agree first second input start here holds).cases with ⟨failure, tookLeft, -⟩ |
        ⟨_, _, _, _, tookLeft, tookRight, after, seen⟩
      · rw [tookLeft]
        trivial
      · rw [tookLeft, tookRight]
        refine (ih after later).mp fun front within => ?_
        have longer := same (input :: front) (List.cons_prefix_cons.mpr ⟨rfl, within⟩)
        rw [shown_cons tookLeft, shown_cons tookRight, seen] at longer
        exact map_cons_inj longer
    · rintro ⟨holds, along⟩ front within
      cases front with
      | nil => simp only [run, shown, Except.map, List.map_nil, read first second start]
      | cons item front =>
        obtain ⟨rfl, inner⟩ := List.cons_prefix_cons.mp within
        rcases (agree first second item start here holds).cases with
          ⟨failure, tookLeft, tookRight⟩ | ⟨_, _, _, _, tookLeft, tookRight, after, seen⟩
        · rw [shown_failed tookLeft, shown_failed tookRight]
        · rw [tookLeft, tookRight] at along
          rw [shown_cons tookLeft, shown_cons tookRight, seen,
            (ih after later).mpr along front inner]

end Together

def Succeeds (computation : Except ε α) (condition : α → Prop) : Prop :=
  match computation with
  | .ok result => condition result
  | .error _ => False

instance {α : Type} (computation : Except ε α) (condition : α → Prop)
    [decidable : DecidablePred condition] : Decidable (Succeeds computation condition) :=
  match computation with
  | .ok result => decidable result
  | .error _ => inferInstanceAs (Decidable False)

theorem Succeeds.ok {computation : Except ε α} {condition : α → Prop}
    (checked : Succeeds computation condition) :
    ∃ result, computation = .ok result ∧ condition result := by
  unfold Succeeds at checked
  split at checked
  · exact ⟨_, rfl, checked⟩
  · exact checked.elim

/-- A computation on fixed inputs is evaluated once, for what a proof needs of its result. -/
theorem of_checked {computation : Except ε α} {goal : α → Prop} (condition : α → Prop)
    (checked : Succeeds computation condition)
    (further : ∀ result, computation = .ok result → condition result → goal result) :
    ∃ result, computation = .ok result ∧ goal result := by
  obtain ⟨result, succeeds, held⟩ := checked.ok
  exact ⟨result, succeeds, further result succeeds held⟩

end Run
