import RunReport.Session.Read
/-!
# Records without a report

A record can be put into the tree directly, below a node that is named. Suites and tests belong to
suites, messages to keywords, and keywords to anything but a message.
-/

namespace RunReport.Session

/-- How a record of a kind is put below a parent; nothing if the parent cannot have such children. -/
def decodeBelow (s : Session) (kind : NodeKind) (parent : Option NodeId) (r : Raw) (index : Nat) :
    Option (Run NodeId) :=
  match kind, parent with
  | .suite, none => some (decodeSuiteAt none r .main index)
  | .message, none => some (decodeMessage none r .main)
  | .keyword, some (.message _) => some (throw .sessionClosed)
  | _, some (.branch owner) =>
    match kind, s.branch? owner with
    | .suite, some (.suite _) => some (decodeSuite owner r .main index)
    | .test, some (.suite _) => some (decodeTest owner r .main index)
    | .keyword, some _ => some (decodeKeyword owner r .main index)
    | .message, some (.keyword _) => some (decodeMessage (some owner) r .main)
    | _, _ => none
  | _, _ => none

/-- A fresh message id, while the session is open. -/
def takeMessageId : StateM Session (Option NodeId) := do
  let s ← get
  if s.isOpen then
    set { s with messageCount := s.messageCount + 1 }
    return some (.message (s.messageCount + 1))
  else return none

/-- Number of registered nodes. -/
def registered (s : Session) : Nat :=
  if s.isOpen then s.nodes.length else 0

end RunReport.Session
