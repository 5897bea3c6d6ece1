import Credis.EndingChecks
import Credis.IndexChecks

/-! What a transaction leaves of its client's registration. A queued command that finds
nothing to take registers it, one that serves an entry of the client itself ends the
registration, so the last such command decides. -/

namespace Credis

open ByteString HandlerState
open BlockingManager (waitsBelow)

variable {last : HandlerState} {change : BlockingManager → BlockingManager}

namespace BlockingManager

structure Releases (before after : BlockingManager) : Prop where
  queue : ∀ key, (after.queue key).Sublist (before.queue key)
  gone : ∀ key, ∀ client ∈ before.queue key, client ∉ after.queue key →
    after.isBlocked client.fd = false
  kept : ∀ fd, (∀ key, ∀ client ∈ before.queue key, client.fd = fd →
    client ∈ after.queue key) → after.isBlocked fd = before.isBlocked fd

namespace Releases

theorem refl (manager : BlockingManager) : manager.Releases manager where
  queue _ := List.Sublist.refl _
  gone _ _ member gone := (gone member).elim
  kept _ _ := rfl

theorem trans {first second third : BlockingManager} (left : first.Releases second)
    (right : second.Releases third) : first.Releases third where
  queue key := (right.queue key).trans (left.queue key)
  gone key client member gone := by
    by_cases early : client ∈ second.queue key
    · exact right.gone key client early gone
    -- whoever has left the index does not come back
    have absent := left.gone key client member early
    by_cases stay : ∀ key, ∀ other ∈ second.queue key, other.fd = client.fd →
        other ∈ third.queue key
    · rw [right.kept client.fd stay, absent]
    simp only [not_forall] at stay
    obtain ⟨place, other, inside, same, left⟩ := stay
    rw [← same]
    exact right.gone place other inside left
  kept fd stay := by
    have middle := left.kept fd fun key client member own =>
      (right.queue key).subset (stay key client member own)
    have last := right.kept fd fun key client member own =>
      stay key client ((left.queue key).subset member) own
    rw [last, middle]

theorem iterate (once : ∀ manager : BlockingManager, (∀ key, (manager.queue key).Nodup) →
      manager.Releases (change manager)) (turns : Nat) (manager : BlockingManager)
    (distinct : ∀ key, (manager.queue key).Nodup) : manager.Releases (change^[turns] manager) := by
  induction turns generalizing manager with
  | zero => exact refl manager
  | succ turns ih =>
    have first := once manager distinct
    exact first.trans (ih _ fun key => (distinct key).sublist (first.queue key))

end Releases

theorem isBlocked_erase (queues : AList fun _ : Key => List BlockedClient)
    (index : AList fun _ : Fd => BlockedClient) (next : Nat) (fd other : Fd) :
    isBlocked ⟨queues, index.erase fd, next⟩ other =
      (decide (other ≠ fd) && decide (other ∈ index)) := by
  simp [isBlocked, AList.mem_erase]

theorem releases_erase {manager : BlockingManager} {key : Key} {client : BlockedClient}
    (distinct : (manager.queue key).Nodup) (member : client ∈ manager.queue key) :
    manager.Releases (manager.released key client) where
  queue other := manager.queue_erase_sublist key other client _ _
  gone other waiting inside gone := by
    rw [queue_released] at gone
    split at gone
    · rename_i same
      rw [same] at inside
      have only : waiting = client := by
        by_contra different
        exact gone ((List.mem_erase_of_ne different).mpr inside)
      rw [released, isBlocked_erase, only]
      simp
    · exact (gone inside).elim
  kept fd stay := by
    have different : fd ≠ client.fd := by
      rintro rfl
      have still := stay key client member rfl
      rw [queue_released, if_pos rfl] at still
      exact distinct.not_mem_erase still
    rw [released, isBlocked_erase, isBlocked]
    simp [different]

theorem WakesOne.releases {manager : BlockingManager} {key : Key}
    {done : BlockingManager × Option BlockedClient} (wakes : manager.WakesOne key done)
    (distinct : ∀ key, (manager.queue key).Nodup) : manager.Releases done.1 := by
  cases wakes with
  | nobody => exact .refl manager
  | one member => exact releases_erase (distinct key) member

end BlockingManager

namespace Execution

variable {execution : Execution} {past : List Execution}

/-- The clients that the command is going to take out of the queue of its key: a push the
first ones, one for each of its values, an `XADD` those that wait below the new ID. -/
def toServe (execution : Execution) : List BlockedClient :=
  match execution.pushed, execution.accepted with
  | some (key, values), _ => (execution.before.queue key).take values.length
  | none, some (key, id) => (execution.before.queue key).filter (waitsBelow id)
  | none, none => []

/-- What the command is going to make of the registration of its client, told by its
arguments and the state that it meets. -/
def registers (execution : Execution) : Option Bool :=
  if execution.before.willBlock execution.cmd execution.args then some true
  else if execution.toServe.any fun client => client.fd == execution.fd then some false
  else none

theorem Runs.toServe_eq (runs : execution.Runs) (registered : Registered past execution.before) :
    execution.toServe = (execution.args[1]?.map execution.woken).getD [] := by
  unfold toServe
  split
  · rename_i pushed
    obtain ⟨_, _, _, args, -⟩ := pushed_name pushed
    rw [args]
    exact (runs.push_woken registered pushed).symm
  · rename_i accepted
    obtain ⟨_, _, _, _, _, -, args, -⟩ := runs.xadd_accepted accepted
    rw [args]
    exact (woken_below (by rw [runs.accepted_queue accepted, if_pos rfl])).symm
  · rename_i quiet refused
    cases execution.args[1]? with
    | none => rfl
    | some key =>
      by_contra woken
      rcases runs.wakes (Ne.symm woken) with ⟨values, pushed⟩ | ⟨id, accepted⟩
      · cases quiet.symm.trans pushed
      · cases refused.symm.trans accepted

theorem registers_quiet (goes : execution.before.willBlock execution.cmd execution.args = false)
    (nobody : execution.toServe = []) : execution.registers = none := by
  rw [registers, goes, nobody]
  rfl

theorem Runs.isBlocked_of_change {target : Key} (runs : execution.Runs)
    (registered : Registered past execution.before)
    (goes : execution.before.willBlock execution.cmd execution.args = false)
    (named : execution.args[1]? = some target)
    (changed : execution.after.blockingManager = execution.before.blockingManager.map change)
    (leaves : ∀ manager : BlockingManager, (∀ key, (manager.queue key).Nodup) →
      manager.Releases (change manager))
    (others : ∀ manager key, key ≠ target → (change manager).queue key = manager.queue key) :
    execution.after.isBlocked execution.fd =
      execution.registers.getD (execution.before.isBlocked execution.fd) := by
  have served : execution.toServe = execution.woken target := by
    rw [runs.toServe_eq registered, named]
    rfl
  cases present : execution.before.blockingManager with
  | none =>
    rw [present, Option.map_none] at changed
    have nobody : execution.toServe = [] := by
      rw [served]
      refine woken_nil fun client member => ?_
      rwa [queue_congr (changed.trans present.symm)]
    rw [registers_quiet goes nobody, isBlocked, isBlocked, changed, present]
    rfl
  | some manager =>
    rw [present, Option.map_some] at changed
    have released := leaves manager fun key => by
      rw [← queue_some present]
      exact registered.nodup key
    rw [isBlocked, isBlocked, changed, present, Option.any_some, Option.any_some,
      Execution.registers, goes, served]
    by_cases own : ∃ client ∈ execution.woken target, client.fd = execution.fd
    · obtain ⟨client, member, same⟩ := own
      obtain ⟨inside, gone⟩ := List.mem_filter.mp member
      rw [queue_some present] at inside
      rw [queue_some changed] at gone
      have told : (execution.woken target).any (fun client => client.fd == execution.fd) = true :=
        List.any_eq_true.mpr ⟨client, member, beq_iff_eq.mpr same⟩
      rw [told, ← same]
      exact released.gone target client inside (by simpa using gone)
    · have told : (execution.woken target).any (fun client => client.fd == execution.fd) =
          false := by simpa using own
      rw [told]
      refine released.kept execution.fd fun key client inside same => ?_
      by_cases here : key = target
      · subst here
        by_contra gone
        refine own ⟨client, List.mem_filter.mpr ⟨?_, ?_⟩, same⟩
        · rwa [queue_some present]
        · rw [queue_some changed]
          simpa using gone
      · rwa [others manager key here]

theorem Runs.isBlocked (runs : execution.Runs) (registered : Registered past execution.before) :
    execution.after.isBlocked execution.fd =
      execution.registers.getD (execution.before.isBlocked execution.fd) := by
  have goes (free : execution.outcome.result ≠ .block) :
      execution.before.willBlock execution.cmd execution.args = false :=
    Bool.eq_false_iff.mpr (mt runs.block_iff.mpr free)
  cases runs.moves with
  | stays free same =>
    have nobody : execution.toServe = [] := by
      rw [runs.toServe_eq registered]
      cases execution.args[1]? with
      | none => rfl
      | some key => exact woken_nil fun client member => by rwa [queue_congr same]
    rw [registers_quiet (goes free) nobody, HandlerState.isBlocked, same]
    rfl
  | blocks _ _ blocked present added =>
    rw [Execution.registers, if_pos (runs.block_iff.mp blocked), HandlerState.isBlocked, added]
    simp [BlockingManager.isBlocked, BlockingManager.blockClientForStream]
  | pushes _ free args _ woken =>
    exact runs.isBlocked_of_change registered (goes free) (by rw [args]; rfl) woken
      (fun manager => .iterate (fun inner => (inner.wakeClient_wakesOne _).releases) _ manager)
      (fun manager key other => (manager.wake_iterate_queue _ key _).trans (if_neg other))
  | adds _ free args woken =>
    exact runs.isBlocked_of_change registered (goes free) (by rw [args]; rfl) woken
      (fun manager => .iterate (fun inner =>
        (inner.wakeClientForStream_wakesOne _ _).releases) _ manager)
      (fun manager key other => BlockingManager.wakeBehind_iterate_queue_ne _ other _ manager)

end Execution

theorem Trace.isBlocked {first : HandlerState} {executions past : List Execution} {fd : Fd}
    (trace : Trace first executions last) (own : ∀ execution ∈ executions, execution.fd = fd)
    (registered : Registered past first) :
    last.isBlocked fd =
      (executions.filterMap Execution.registers).getLast?.getD (first.isBlocked fd) := by
  induction trace generalizing past with
  | nil => rfl
  | @cons execution rest last runs _ ih =>
    have here := runs.isBlocked registered
    rw [own execution (by simp)] at here
    have later := ih (fun other member => own other (by simp [member]))
      (runs.moves.keeps registered).registered
    rw [later, here]
    cases changed : execution.registers with
    | none => rw [List.filterMap_cons_none changed, Option.getD_none]
    | some flag =>
      rw [List.filterMap_cons_some changed, List.getLast?_cons, Option.getD_some,
        Option.getD_some]

namespace HandlerState

end HandlerState

namespace CommandContext

end CommandContext

end Credis
