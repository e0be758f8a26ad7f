import Docket.Proofs.Store.Growth

/-!
# Requests in one transaction and one by one

A request reads what the ones before it wrote to the copy, and one that fails has written nothing. So a
transaction that is committed does what the same requests do as updates of their own, and one that is not
committed does nothing.

* `Store.update`, `Store.updates`: requests that are each committed on their own.
* `Transaction.advance_eq_update`: one request.
* **`Transaction.run_eq_updates`**: requests in order.
* **`Desk.transact_eq_updates`**: a transaction with its ending.
-/

namespace Docket

namespace Store

/-- A request that is committed on its own, if it succeeds. -/
def update (s : Store) (request : Transaction.Request) : Except StoreError Revision × Store :=
  match s.advance request.document request.parent request.body with
  | .error e => (.error e, s)
  | .ok (r, after) => (.ok r, after)

/-- Requests that are each committed on their own, with their results. -/
def updates (s : Store) : List Transaction.Request → List (Except StoreError Revision) × Store
  | [] => ([], s)
  | request :: rest =>
    let (result, s) := s.update request
    let (results, s) := s.updates rest
    (result :: results, s)

end Store

/-! ## The copy -/

namespace Transaction

theorem advance_eq_update (t : Transaction) (request : Request) :
    t.advance request = ((t.working.update request).1, { t with working := (t.working.update request).2 }) := by
  rw [advance_eq, Store.update]
  cases t.working.advance request.document request.parent request.body <;> rfl

/-- **Requests in order do to the copy what updates do to a store.** -/
theorem run_eq_updates (t : Transaction) (requests : List Request) :
    t.run requests =
      ((t.working.updates requests).1, { t with working := (t.working.updates requests).2 }) := by
  induction requests generalizing t with
  | nil => rfl
  | cons request rest ih =>
    have hrest := ih { t with working := (t.working.update request).2 }
    rw [run, advance_eq_update]
    dsimp only
    rw [hrest]
    rfl

theorem advance_of_error {t : Transaction} {request : Request} {e : StoreError}
    (h : (t.advance request).1 = .error e) : (t.advance request).2 = t := by
  rw [advance_eq] at h ⊢
  cases hadvance : t.working.advance request.document request.parent request.body with
  | error e => rfl
  | ok result =>
    rw [hadvance] at h
    cases h

/-- The update that a request asks for. -/
def Request.update (request : Request) : Operation := .update request.document request.parent request.body

end Transaction

/-! ## Calls -/

namespace Desk

theorem perform_update (opener : FileOpener) (d : Desk) (request : Transaction.Request) :
    request.update.perform opener d =
      ((d.vault.store.update request).1.toOption.toList, d.withStore (d.vault.store.update request).2) := by
  rw [Transaction.Request.update, Operation.perform, Store.update]
  cases d.vault.store.advance request.document request.parent request.body <;> rfl

theorem run_updates (opener : FileOpener) (d : Desk) (requests : List Transaction.Request) :
    d.committed (requests.map fun request => (opener, request.update)) =
        (d.vault.store.updates requests).1.filterMap Except.toOption ∧
      d.run (requests.map fun request => (opener, request.update)) =
        d.withStore (d.vault.store.updates requests).2 := by
  induction requests generalizing d with
  | nil => exact ⟨rfl, rfl⟩
  | cons request rest ih =>
    obtain ⟨hcommitted, hrun⟩ := ih (d.withStore (d.vault.store.update request).2)
    rw [List.map_cons, committed, run, perform_update]
    refine ⟨?_, hrun⟩
    rw [hcommitted]
    show _ = ((d.vault.store.update request).1 :: _).filterMap _
    rw [List.filterMap_cons]
    cases (d.vault.store.update request).1.toOption <;> rfl

/-- **A transaction of requests is the updates one by one.** The results are the same, request by request, and so
are the tables once it is committed. A request that fails leaves nothing behind in the transaction. If the
transaction is not committed nothing has happened. -/
theorem transact_eq_updates (opener : FileOpener) (d : Desk) (requests : List Transaction.Request) :
    let ended := (Transaction.start d.vault.store).run requests
    ended.1 = (d.vault.store.updates requests).1 ∧
      ended.2.commit = (d.vault.store.updates requests).2 ∧
      (Operation.transact requests .commit).perform opener d =
        (d.committed (requests.map fun request => (opener, request.update)),
          d.run (requests.map fun request => (opener, request.update))) ∧
      (∀ ending, ending ≠ .commit → (Operation.transact requests ending).perform opener d = ([], d)) ∧
      ended.2.abort = d.vault.store ∧
      ∀ request e, (ended.2.advance request).1 = .error e → (ended.2.advance request).2 = ended.2 := by
  intro ended
  have hended : ended = ((d.vault.store.updates requests).1, ⟨d.vault.store, (d.vault.store.updates requests).2⟩) :=
    Transaction.run_eq_updates (.start d.vault.store) requests
  obtain ⟨hcommitted, hrun⟩ := d.run_updates opener requests
  have habort : d.withStore ended.2.abort = d := by rw [hended]; rfl
  refine ⟨by rw [hended], by rw [hended]; rfl, ?_, fun ending hending => ?_, by rw [hended]; rfl,
    fun request e => Transaction.advance_of_error⟩
  · have hperform : (Operation.transact requests .commit).perform opener d =
        (ended.1.filterMap Except.toOption, d.withStore ended.2.commit) := rfl
    rw [hperform, hcommitted, hrun, hended]
    rfl
  · cases ending with
    | commit => exact absurd rfl hending
    | abort => exact congrArg (Prod.mk []) habort
    | drop => exact congrArg (Prod.mk []) habort

/-- The second note after the first one. -/
def noteChanged : Transaction.Request := ⟨"a", firstNote.id, .bool true⟩

/-- A change of a document that is not there. -/
def ghostChanged : Transaction.Request := ⟨"ghost", firstNote.id, .null⟩

theorem store_afterFirst : afterFirst.vault.store = Store.empty.append firstNote := rfl

theorem updates_noteChanged : (Store.empty.append firstNote).updates [noteChanged] =
    ([.ok secondNote], (Store.empty.append firstNote).append secondNote) := by
  have hadvance : (Store.empty.append firstNote).advance noteChanged.document noteChanged.parent noteChanged.body = _ :=
    advance_firstNote
  rw [Store.updates, Store.update, hadvance]
  rfl

theorem transact_eq_updates_ghost :
    let opener : FileOpener := fun _ _ => .error .notFound
    let ended := (Transaction.start afterFirst.vault.store).run [noteChanged]
    ended.1 = [.ok secondNote] ∧
      (Ending.drop ≠ .commit ∧ (Operation.transact [noteChanged] .drop).perform opener afterFirst = ([], afterFirst)) ∧
      (ended.2.advance ghostChanged).1 = .error (.documentNotFound "ghost") ∧
      (ended.2.advance ghostChanged).2 = ended.2 := by
  intro opener ended
  have hended : ended = ([.ok secondNote],
      ⟨Store.empty.append firstNote, (Store.empty.append firstNote).append secondNote⟩) := by
    show (Transaction.start afterFirst.vault.store).run [noteChanged] = _
    rw [store_afterFirst, Transaction.run_eq_updates, Transaction.start, updates_noteChanged]
  have hnone : ((Store.empty.append firstNote).append secondNote).documents.get? "ghost" = none := by
    have hne : "ghost" ≠ "a" := by decide
    exact (Table.get?_insert_of_ne _ _ hne).trans (Table.get?_insert_of_ne _ _ hne)
  have hcurrent : ((Store.empty.append firstNote).append secondNote).current "ghost" =
      .error (.documentNotFound "ghost") := by rw [Store.current, hnone]
  have hfails : (ended.2.advance ghostChanged).1 = .error (.documentNotFound "ghost") := by
    rw [hended, Transaction.advance_eq, ghostChanged, Store.advance, hcurrent]
  obtain ⟨-, -, -, hending, -, hleaves⟩ := transact_eq_updates opener afterFirst [noteChanged]
  exact ⟨by rw [hended], ⟨by decide, hending .drop (by decide)⟩, hfails, hleaves ghostChanged _ hfails⟩

end Desk

end Docket
