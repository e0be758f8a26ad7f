import Docket.Selector.Fault
import Docket.Session

/-!
# Failures of commands

A failure is told as a chain: what was being done, and why it failed, from the outside in.

* `Cli.Failure`: why a command failed.
* `Cli.Failure.chain`: the links of its chain.
-/

namespace Docket.Cli

/-- Why a command failed. -/
inductive Failure where
  | notJson (what : String)
  | rejected (r : Selector.Rejection)
  | config (path : String) (e : StoreError)
  | opening (root : String) (e : OpenError)
  | store (e : StoreError)
  | attachments (e : AttachmentError)
  | noDocument (document : String)
  | noFileName (path : String)

/-- A link of a chain: a wording, or a failure of the store. -/
inductive Link where
  | text (s : String)
  | store (e : StoreError)

/-- The wording of a link. -/
def Link.message : Link → String
  | .text s => s
  | .store e => e.message

namespace Failure

/-- The wording for text that is not JSON. -/
def malformed : Link := .text "json"

/-- A failure of the store and what is behind it. -/
def ofStore : StoreError → List Link
  | .io reason => [.store (.io reason), .text reason.name]
  | .serialization => [.store .serialization, malformed]
  | e => [.store e]

/-- A failure of attachments and what is behind it. -/
def ofAttachments : AttachmentError → List Link
  | .io reason => [.text (AttachmentError.io reason).message, .text reason.name]
  | .serialization => [.text AttachmentError.serialization.message, malformed]
  | .store e => ofStore e
  | e => [.text e.message]

/-- The links of the chain, the outermost first. -/
def chain : Failure → List Link
  | .notJson what => [.text (what ++ " is not valid JSON"), malformed]
  | .rejected (.invalid fault) => [.text (Selector.Rejection.invalid fault).message, .text fault.message]
  | .rejected r => [.text r.message]
  | .config path e => .text ("loading config " ++ path) :: ofStore e
  | .opening root (.documents e) => .text ("opening store at " ++ root) :: ofStore e
  | .opening _ (.attachments e) => ofStore e
  | .store e => ofStore e
  | .attachments e => ofAttachments e
  | .noDocument document => [.text ("document " ++ document ++ " not found")]
  | .noFileName path => [.text (path ++ " has no file name")]

end Failure

end Docket.Cli
