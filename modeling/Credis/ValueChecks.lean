import Credis.TransactionChecks

/-! Kinds of values that every operation of the keyspace keeps to, and so every
command and every run. -/

namespace Credis

open ByteString

variable {after : Store} {entry : Entry}

namespace Store

def Each (holds : Key → Value → Prop) (store : Store) : Prop :=
  ∀ key entry, store.data.lookup key = some entry → holds key entry.value

structure Closed (uses : Operation → Prop) (holds : Key → Value → Prop) (now : Instant) :
    Prop where
  string : ∀ key text, holds key (.string text)
  push : ∀ operation, uses operation → operation.pushes = true → ∀ key,
    operation.key? = some key → ∀ items ≠ [], holds key (.list items)
  pop : ∀ operation, uses operation → operation.pops = true → ∀ key,
    operation.key? = some key → ∀ items rest, rest.length ≤ items.length →
    holds key (.list items) → holds key (.list rest)
  add : ∀ key set score member,
    uses (.zadd key score member) ∨ uses (.zaddIfValidType key score member) →
    set = .empty ∨ holds key (.zset set) → holds key (.zset (set.add score member).1)
  remove : ∀ key set member, uses (.zrem key member) → holds key (.zset set) →
    holds key (.zset (set.remove member).1)
  stream : ∀ key, holds key (.stream [])
  append : ∀ key entries id parsed text fields,
    uses (.xadd key id fields) ∨ uses (.xaddIfValidType key id fields) →
    holds key (.stream entries) → chooseId now.system entries id = .ok (parsed, text) →
    (entries.getLast?.any fun last => !StreamId.lt last.parsedId parsed) = false →
    holds key (.stream (entries ++ [⟨text, parsed, fields⟩]))

namespace Each

variable {holds : Key → Value → Prop} {store : Store} {key : Key}

theorem touchKey (each : store.Each holds) (key : Key) : (store.touchKey key).Each holds := each

theorem put (each : store.Each holds) (new : holds key entry.value) :
    (store.put key entry).Each holds := by
  intro other found present
  by_cases same : other = key
  · subst same
    rw [put_lookup] at present
    cases present
    exact new
  · rw [put_lookup_ne store entry same] at present
    exact each other found present

theorem eraseKey (each : store.Each holds) (key : Key) : (store.eraseKey key).Each holds := by
  intro other found present
  by_cases same : other = key
  · subst same
    rw [eraseKey_lookup] at present
    cases present
  · rw [eraseKey_lookup_ne store same] at present
    exact each other found present

theorem reads {now : Time} (each : store.Each holds) (reads : Reads now store after) :
    after.Each holds := by
  induction reads with
  | refl => exact each
  | drop _ _ _ ih => exact ih.eraseKey _

section Operations

variable {uses : Operation → Prop} {now : Instant} (closed : Closed uses holds now)
include closed

theorem written {operation : Operation} (named : operation.key? = some key) (used : uses operation)
    {live : Option Entry} (found : ∀ entry, live = some entry → holds key entry.value)
    (written : Written now live operation entry) : holds key entry.value := by
  have seen : ∀ {α : Type} {view : Value → Option α} {make : α → Value} {content : α},
      (∀ value content, view value = some content → value = make content) →
      Store.content view live = some content → holds key (make content) := by
    intro α view make content viewed present
    obtain ⟨value, held, seen⟩ := Option.bind_eq_some_iff.mp present
    obtain ⟨entry, rfl, rfl⟩ := Option.map_eq_some_iff.mp held
    exact viewed _ _ seen ▸ found entry rfl
  have zset : (Store.content Value.zset? live).getD .empty = .empty ∨
      holds key (.zset ((Store.content Value.zset? live).getD .empty)) := by
    cases present : Store.content Value.zset? live with
    | none => exact .inl rfl
    | some set => exact .inr (seen (by rintro (_ | _ | _ | _) _ ⟨⟩; rfl) present)
  have stream : holds key (.stream ((Store.content Value.stream? live).getD [])) := by
    cases present : Store.content Value.stream? live with
    | none => exact closed.stream key
    | some entries => exact seen (by rintro (_ | _ | _ | _) _ ⟨⟩; rfl) present
  cases written with
  | set _ text => exact closed.string key text
  | incr _ text => exact closed.string key text
  | push items pushes given => exact closed.push operation used pushes key named items given
  | pop items rest pops present shorter =>
    exact closed.pop operation used pops key named items rest shorter
      (seen (by rintro (_ | _ | _ | _) _ ⟨⟩; rfl) present)
  | add other score member called =>
    rcases called with rfl | rfl <;> cases named
    · exact closed.add _ _ score member (.inl used) zset
    · exact closed.add _ _ score member (.inr used) zset
  | remove other set member called present =>
    subst called
    cases named
    exact closed.remove _ set member used (seen (by rintro (_ | _ | _ | _) _ ⟨⟩; rfl) present)
  | opened => exact closed.stream key
  | append other id fields parsed text called settled =>
    obtain ⟨chosen, -, greater⟩ := settleId_ok.mp settled
    rcases called with rfl | rfl <;> cases named
    · exact closed.append _ _ id parsed text fields (.inl used) stream chosen greater
    · exact closed.append _ _ id parsed text fields (.inr used) stream chosen greater

theorem call (each : store.Each holds) (operation : Operation) (used : uses operation) :
    (operation.call store now).1.Each holds := by
  cases works : operation.onEntry with
  | true =>
    obtain ⟨key, named⟩ := operation.key_of_onEntry works
    have done := Operation.call_acts now named works store
    dsimp only at done
    rw [done]
    have kept : ∀ passes, (if passes = true then store.unexpired now.steady key
        else (store.unexpired now.steady key).touchKey key).Each holds := by
      intro passes
      have valid := each.reads (unexpired_reads store now.steady key)
      split
      · exact valid
      · exact valid.touchKey key
    unfold actOn write
    dsimp only
    split
    · exact kept _
    rename_i entry writes
    refine (kept _).put (Each.written closed named used ?_ (operation.written writes))
    intro entry live
    exact each key entry (liveEntry_some.mp live).1
  | false =>
    have effect := call_effect store now operation
    cases effect with
    | reads _ reads => exact each.reads reads
    | touches touched =>
      cases operation with
      | del key =>
        unfold Operation.call Operation.returning Store.del
        dsimp only
        split
        · exact (each.touchKey key).eraseKey key
        · exact each.touchKey key
      | keys | keyIsAbsentOrHolds _ _ | getKeyVersion _ | forEachValidEntry => cases touched
      | _ => cases works

theorem works (each : store.Each holds) (works : Works uses now store after) :
    after.Each holds := by
  induction works with
  | refl => exact each
  | reads _ reads ih => exact ih.reads reads
  | calls operation used _ ih => exact ih.call closed operation used

end Operations

end Each

theorem empty_each (holds : Key → Value → Prop) : empty.Each holds := by
  intro key entry present
  rw [empty, AList.lookup_empty] at present
  cases present

end Store

theorem CommandContext.Worked.each {holds : Key → Value → Prop} {clock : Nat → Instant}
    {before : Store} (worked : Worked clock before after)
    (closed : ∀ tick, Store.Closed (fun _ => True) holds (clock tick)) (each : before.Each holds) :
    after.Each holds := by
  induction worked with
  | refl => exact each
  | works tick _ works ih => exact ih.works (closed tick) works

end Credis
