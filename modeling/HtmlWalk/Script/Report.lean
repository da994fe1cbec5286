import HtmlWalk.Script.Run
import HtmlWalk.Transform

/-!
# Reports

A report tells what a walk with a scripted visitor has done: the calls in order, and the result or
the fault. Several walks can be made one after the other, each on the result of the one before,
until one of them fails; the counter goes on from walk to walk.
-/

namespace HtmlWalk.Script

/-- What a walk has done. -/
structure Report where
  /-- The calls, in order. -/
  events : List Event
  /-- The result. -/
  result : Except Fault Node

/-- Make a walk, and report on it. -/
def report (walk : Run Memory (Failure Fault) Node) (m : Memory) : Report × Memory :=
  let (result, m) := walk { m with events := [] }
  (⟨m.events.reverse, result.mapError Fault.ofFailure⟩, m)

/-- The visitor that steps put together. -/
def visitor (depth : Nat) (steps : List Step) : Visitor Memory Fault :=
  Step.visitor depth steps 0 .empty

/-- Walk a tree so many times with one visitor. -/
def traverseTimes (depth : Nat) (v : Visitor Memory Fault) : Nat → Node → Memory → List Report
  | 0, _, _ => []
  | times + 1, n, m =>
    let (r, m) := report (v.traverse depth n) m
    match r.result with
    | .ok n => r :: traverseTimes depth v times n m
    | .error _ => [r]

/-- A walk that visits one kind of node. -/
structure Call where
  /-- The kind. -/
  kind : Kind
  /-- What is done before the children of a node. -/
  enter : Option (List Action) := none
  /-- What is done after the children of a node. -/
  leave : Option (List Action) := none
  /-- Whether the walk goes below the root. -/
  descends : Bool := false

/-- The visitor of a call. -/
def Call.visitor (c : Call) (depth : Nat) : KindVisitor Memory Fault where
  hooks :=
    ⟨Action.callback? depth 0 .enter c.kind c.enter, Action.callback? depth 0 .leave c.kind c.leave⟩
  descends := c.descends

/-- Visit a tree with one call after the other. Limited actions start from nothing in each. -/
def visitAll (depth : Nat) : List Call → Node → Memory → List Report
  | [], _, _ => []
  | c :: rest, n, m =>
    let (r, m) := report (visitKind c.kind depth n (c.visitor depth)) { m with uses := [] }
    match r.result with
    | .ok n => r :: visitAll depth rest n m
    | .error _ => [r]

end HtmlWalk.Script
