import Credis.CounterChecks
import Credis.IsolationChecks

/-! What a whole run does to one key and to one client. Commands that leave a key alone
leave its entry and its version, and a version that stands still vouches for the value; the
session of a client is its own. -/

namespace Credis

open ByteString ConnectionPool

def Event.Foreign (fd : Fd) : Event → Prop
  | .request sent => sent.fd ≠ fd
  | .connect other | .disconnect other => other ≠ fd
  | .timeouts _ _ => True

namespace CommandContext

variable {ctx next last : CommandContext} {event : Event} {events : List Event} {fd : Fd}
  {key : Key} {moment : Time} {output : Option Observation}
  {observations : List (Option Observation)}

theorem history_keeps {holds : Store → Prop} {condition : Execution → Prop}
    (kept : ∀ execution, execution.Runs → condition execution → holds execution.before.store →
      holds execution.after.store) (ran : Run.run handle ctx events = .ok (last, observations))
    (meets : ∀ execution ∈ ctx.history events, condition execution) (start : holds ctx.store) :
    holds last.store :=
  (@history_inOrder (fun _ state => holds state.store) (fun _ => condition)
    (fun _ execution runs before meets => kept execution runs meets before)
    (fun _ _ _ between held => between.store ▸ held) _ _ _ _ [] ran start
    (Run.inOrder_forall.mpr meets)).1

/-- Whatever the clients do: no version falls, and a key whose version stands still has at
every later moment the value that it would have without the run. A version counter that wraps
after `2 ^ 64` touches is excluded. -/
theorem standing_version_vouches (ran : Run.run handle ctx events = .ok (last, observations))
    (past : ∀ execution ∈ ctx.history events, execution.now.steady ≤ moment) (key : Key) :
    ctx.store.getKeyVersion key ≤ last.store.getKeyVersion key ∧
      (last.store.getKeyVersion key = ctx.store.getKeyVersion key →
        last.store.liveValue moment key = ctx.store.liveValue moment key) := by
  have evolves : Store.Evolves moment ctx.store last.store :=
    history_keeps (fun _ runs order before =>
      before.trans ((executeCommand_works runs).evolves order)) ran past (.refl _)
  refine ⟨evolves.versions key, fun same => ?_⟩
  by_contra differs
  have grown := evolves.changes key differs
  omega

def holdingText : CommandContext :=
  { twoClients 0 with store := Store.empty.set 0 (ascii "k") (ascii "v") (some 7) }

theorem read_vouches :
    ∃ run, Run.run handle holdingText [.words 6 ["GET", "k"]] = .ok run ∧
      run.1.store.liveValue 1 (ascii "k") = holdingText.store.liveValue 1 (ascii "k") := by
  refine Run.of_checked (fun run => run.1.store.getKeyVersion (ascii "k") =
    holdingText.store.getKeyVersion (ascii "k")) (by decide +kernel) fun run ran same => ?_
  exact (standing_version_vouches ran (by decide +kernel) (ascii "k")).2 same

/-- Commands that do not name the key, or that only read, leave its entry with its expiry
and do not disturb a watch of it. -/
theorem spared_key_stays (ran : Run.run handle ctx events = .ok (last, observations))
    (spared : ∀ execution ∈ ctx.history events,
      execution.Spares key ∧ execution.now.steady ≤ moment) :
    last.store.liveEntry moment key = ctx.store.liveEntry moment key ∧
      last.store.getKeyVersion key = ctx.store.getKeyVersion key := by
  refine @history_keeps _ _ _ _ (fun store =>
    store.liveEntry moment key = ctx.store.liveEntry moment key ∧
      store.getKeyVersion key = ctx.store.getKeyVersion key) _
    (fun execution runs meets before => ?_) ran spared ⟨rfl, rfl⟩
  obtain ⟨entry, version⟩ := runs.spared meets.1 meets.2
  exact ⟨entry.trans before.1, version.trans before.2⟩

theorem foreign_push_spares_text :
    ∃ run, Run.run handle holdingText [.words 5 ["RPUSH", "j", "v"]] = .ok run ∧
      run.1.store.liveEntry 1 (ascii "k") = some ⟨.string (ascii "v"), some 7000000⟩ := by
  refine Run.of_checked (fun _ => True) (by decide +kernel) fun run ran _ => ?_
  have apart : ∀ execution ∈ holdingText.history [.words 5 ["RPUSH", "j", "v"]],
      ascii "k" ∉ execution.args ∧ execution.now.steady ≤ 1 := by decide +kernel
  exact (spared_key_stays ran fun execution member =>
    ⟨.inl (apart execution member).1, (apart execution member).2⟩).1

theorem session_isAuthenticated (fd : Fd) : Session fd fun before after =>
    ∀ other, other ≠ fd → after.isAuthenticated other = before.isAuthenticated other where
  refl _ _ _ := rfl
  trans left right other different := (right other different).trans (left other different)
  setTx ctx tx other _ := isAuthenticated_setTx ctx fd other tx
  clearTx ctx other _ := isAuthenticated_clearTx ctx fd other
  marks ctx other different := by
    unfold markConnection isAuthenticated
    cases ctx.connPool <;> simp [find_modify, different]
  authenticates ctx other different := by
    unfold setAuthenticated markConnection isAuthenticated
    cases ctx.connPool <;> simp [find_modify, different, List.mem_insert_iff]
  handles _ _ _ _ := rfl

/-- What the server knows of a client: its transaction, whether it has authenticated and
whether it listens to a channel. -/
def sessionOf (ctx : CommandContext) (fd : Fd) : Option TransactionState × Bool × Bool :=
  (ctx.tx fd, ctx.isAuthenticated fd, ctx.isSubscribed fd)

theorem handle_sessionOf (foreign : event.Foreign fd)
    (handled : ctx.handle event = .ok (next, output)) :
    next.sessionOf fd = ctx.sessionOf fd := by
  unfold sessionOf
  cases event with
  | request request =>
    obtain ⟨observation, served, -⟩ := handle_request handled
    obtain ⟨outcome, -, serves, rfl, -⟩ := serve_ok served
    have different : fd ≠ request.fd := Ne.symm foreign
    rw [logCommand_eq]
    exact Prod.ext (serves.tx_other different) (Prod.ext
      ((session_isAuthenticated request.fd).serves serves fd different)
      (serves.isSubscribed different))
  | connect other =>
    cases handled
    refine Prod.ext (tx_addConnection_ne ctx (Ne.symm foreign)) (Prod.ext ?_ rfl)
    unfold addConnection isAuthenticated
    cases ctx.connPool with
    | none => rfl
    | some pool =>
      simp [add, find, AList.lookup_insert_ne (Ne.symm foreign)]
  | disconnect other =>
    cases handled
    refine Prod.ext (tx_dropConnection_ne ctx (Ne.symm foreign)) (Prod.ext ?_ ?_)
    · unfold dropConnection isAuthenticated
      cases ctx.connPool with
      | none => rfl
      | some pool =>
        simp [remove, find, AList.lookup_erase_ne (Ne.symm foreign)]
    · unfold dropConnection HandlerState.isSubscribed
      cases ctx.pubsubManager with
      | none => rfl
      | some manager =>
        simp [PubSubManager.isSubscribed, PubSubManager.channels_unsubscribeAll, Ne.symm foreign]
  | timeouts now status =>
    cases handled
    rfl

/-- Whatever other clients do, and in whatever order, a client keeps its session. -/
theorem sessions_are_private (ran : Run.run handle ctx events = .ok (last, observations))
    (foreign : ∀ event ∈ events, event.Foreign fd) : last.sessionOf fd = ctx.sessionOf fd :=
  Run.run_invariant (fun state => state.sessionOf fd = ctx.sessionOf fd)
    (fun _ _ _ _ same foreign handled => (handle_sessionOf foreign handled).trans same) rfl
    (Run.along_of_forall foreign ctx) ran

theorem foreign_discard_keeps_session :
    ∃ run, Run.run handle ((twoClients 0).setTx 5 { TransactionState.fresh with inMulti := true })
        [.words 6 ["MULTI"], .words 6 ["DISCARD"], .disconnect 6] = .ok run ∧
      (run.1.sessionOf 5).1 = some { TransactionState.fresh with inMulti := true } := by
  refine Run.of_checked (fun _ => True) (by decide +kernel) fun run ran _ => ?_
  rw [@sessions_are_private _ _ _ 5 _ ran (by simp [Event.Foreign, Event.words, Request.ofArgs])]
  rfl

end CommandContext

end Credis
