import Docket.Store

/-!
# Transactions

A transaction works on a copy of the store. Readers see the committed store until the copy takes its place.
Within a transaction nothing is taken back: what a call wrote to the copy before it failed stays written.

* `Transaction.Action`: what a call reads and writes in the copy, table by table.
* `Transaction.advance`: a new revision in the copy.
* `Transaction.run`: requests in order.
* `Transaction.commit`, `Transaction.abort`, `Transaction.finish`: the store after the transaction.
* **`Transaction.Action.run_advance`**: a new revision fails before it writes.
-/

namespace Docket

section Bind

variable {ε σ α β : Type} {x : ExceptT ε (StateM σ) α} {s after : σ}

theorem run_bind_of_ok {a : α} (h : x.run.run s = (.ok a, after)) (f : α → ExceptT ε (StateM σ) β) :
    (x >>= f).run.run s = (f a).run.run after := by
  rw [ExceptT.run_bind, StateT.run_bind, h]
  rfl

theorem run_bind_of_error {e : ε} (h : x.run.run s = (.error e, after)) (f : α → ExceptT ε (StateM σ) β) :
    (x >>= f).run.run s = (.error e, after) := by
  rw [ExceptT.run_bind, StateT.run_bind, h]
  rfl

end Bind

/-- A store with a copy that is being changed. -/
structure Transaction where
  committed : Store
  working : Store
deriving Inhabited

/-- How a write transaction ends. -/
inductive Ending where
  | commit
  | abort
  | drop
deriving DecidableEq

/-- A body to follow a revision of a document. -/
structure Transaction.Request where
  document : String
  parent : RevisionId
  body : Json
deriving Inhabited

namespace Transaction

/-- Reading and writing of the copy. What was written before a failure stays. -/
abbrev Action (α : Type) := ExceptT StoreError (StateM Store) α

namespace Action

/-- The place of a document's current revision. -/
def currentSequence (document : String) : Action (Option UInt64) := do
  return (← get).documents.get? document

/-- The revision at a place. -/
def loadRevision (sequence : UInt64) : Action (Option Revision) := do
  liftExcept ((← get).revision sequence)

/-- Hands out the next place. -/
def nextSequence : Action UInt64 := do
  let next := (← get).last + 1
  modify fun s => { s with counters := s.counters.insert Store.lastSequence next }
  return next

/-- Writes the row of a revision, then makes it the current one of its document. -/
def putRevision (r : Revision) : Action Unit := do
  modify fun s => { s with revisions := s.revisions.insert r.sequence r.text }
  modify fun s => { s with documents := s.documents.insert r.document r.sequence }

/-- The current revision of a document that has to have one. -/
def loadCurrent (document : String) : Action Revision := do
  let some sequence ← currentSequence document | throw (.documentNotFound document)
  let some current ← loadRevision sequence | throw (.missingRevision sequence)
  return current

/-- Writes a revision that follows the parent. -/
def follow (request : Request) : Action Revision := do
  let id := RevisionId.derive (some request.parent) request.body
  let sequence ← nextSequence
  let r : Revision := { document := request.document, id, parent := some request.parent, sequence, body := request.body }
  putRevision r
  return r

/-- A revision that follows the current one, which has to be the parent. -/
def advance (request : Request) : Action Revision := do
  let current ← loadCurrent request.document
  if current.id = request.parent then follow request
  else throw (.conflict request.document request.parent current.id)

theorem run_loadRevision (s : Store) (sequence : UInt64) :
    (loadRevision sequence).run.run s = (s.revision sequence, s) := by
  have hload : (loadRevision sequence).run.run s = (liftExcept (s.revision sequence) : Action _).run.run s := rfl
  rw [hload]
  cases s.revision sequence <;> rfl

theorem run_loadCurrent (s : Store) (document : String) :
    (loadCurrent document).run.run s = (s.current document, s) := by
  have hsequence : (currentSequence document).run.run s = (.ok (s.documents.get? document), s) := rfl
  rw [loadCurrent, run_bind_of_ok hsequence, Store.current]
  cases s.documents.get? document with
  | none => rfl
  | some sequence =>
    have hload := run_loadRevision s sequence
    dsimp only
    cases hrevision : s.revision sequence with
    | error e =>
      rw [hrevision] at hload
      exact run_bind_of_error hload _
    | ok found =>
      rw [hrevision] at hload
      refine (run_bind_of_ok hload _).trans ?_
      cases found <;> rfl

theorem run_follow (s : Store) (request : Request) :
    let r := s.next request.document (some request.parent) request.body
    (follow request).run.run s = (.ok r, s.append r) := rfl

/-- **A new revision fails before it writes**, and if it succeeds the copy is the store with that revision. -/
theorem run_advance (s : Store) (request : Request) :
    (advance request).run.run s =
      match s.advance request.document request.parent request.body with
      | .error e => (.error e, s)
      | .ok (r, after) => (.ok r, after) := by
  have hload := run_loadCurrent s request.document
  rw [Store.advance]
  cases hcurrent : s.current request.document with
  | error e =>
    rw [hcurrent] at hload
    exact run_bind_of_error hload _
  | ok current =>
    rw [hcurrent] at hload
    refine (run_bind_of_ok hload _).trans ?_
    by_cases hparent : current.id = request.parent
    · simp only [hparent, if_true]
      exact run_follow s request
    · simp only [hparent, if_false]
      rfl

end Action

/-- A transaction that has changed nothing. -/
def start (s : Store) : Transaction := ⟨s, s⟩

/-- A new revision in the copy. -/
def advance (t : Transaction) (request : Request) : Except StoreError Revision × Transaction :=
  let (result, working) := (Action.advance request).run.run t.working
  (result, { t with working })

/-- **A new revision that fails leaves the copy as it was.** -/
theorem advance_eq (t : Transaction) (request : Request) :
    t.advance request =
      match t.working.advance request.document request.parent request.body with
      | .error e => (.error e, t)
      | .ok (r, working) => (.ok r, { t with working }) := by
  rw [advance, Action.run_advance]
  cases t.working.advance request.document request.parent request.body <;> rfl

/-- Requests in order, with their results. -/
def run (t : Transaction) : List Request → List (Except StoreError Revision) × Transaction
  | [] => ([], t)
  | request :: rest =>
    let (result, t) := t.advance request
    let (results, t) := t.run rest
    (result :: results, t)

theorem committed_run (t : Transaction) (requests : List Request) :
    (t.run requests).2.committed = t.committed := by
  induction requests generalizing t with
  | nil => rfl
  | cons request rest ih => exact ih _

/-- The store with the changes. -/
def commit (t : Transaction) : Store := t.working

/-- The store without the changes. -/
def abort (t : Transaction) : Store := t.committed

/-- The store after an ending. -/
def finish (t : Transaction) : Ending → Store
  | .commit => t.commit
  | .abort => t.abort
  | .drop => t.abort

end Transaction

end Docket
