import HtmlWalk.Script.Action
import HtmlWalk.Walk

/-!
# Running scripts

The callbacks of a script share a memory: a counter, how often each limited action has been done,
and the log of all calls. A call is logged before its actions are done.

A nested walk is made with a visitor of its own, whose limited actions start from nothing; the
counter and the log are those of the whole run.
-/

namespace HtmlWalk.Script

/-! ## Memory -/

/-- A call of a callback. -/
structure Event where
  /-- The side on which the callback runs. -/
  phase : Phase
  /-- The kind for which it is registered. -/
  kind : Kind
  /-- The node that it is given. -/
  node : Node
  /-- The parent that it is given. -/
  parent : Option Node

/-- An action of a visitor: the number of the step that registered it, the callback, and its number
among the actions of the callback. -/
structure Site where
  /-- The number of the step. -/
  step : Nat
  /-- The side on which the callback runs. -/
  phase : Phase
  /-- The kind for which the callback is registered. -/
  kind : Kind
  /-- The number of the action. -/
  action : Nat
deriving DecidableEq

/-- What the callbacks remember. -/
structure Memory where
  /-- The counter. -/
  counter : Nat := 0
  /-- How often limited actions have been done. -/
  uses : List (Site × Nat) := []
  /-- The calls, the last one first. -/
  events : List Event := []

/-- How often an action has been done. -/
def Memory.usesOf (m : Memory) (site : Site) : Nat :=
  ((m.uses.find? (·.1 == site)).map (·.2)).getD 0

/-- The memory after an action has been done once more. -/
def Memory.use (m : Memory) (site : Site) : Memory :=
  { m with uses := (site, m.usesOf site + 1) :: m.uses.filter (·.1 != site) }

/-- Why a callback of a script fails. -/
inductive Fault
  /-- It was told to fail with a message. -/
  | message (text : String)
  /-- It was told to refuse a node of that name. -/
  | refused (name : String)
  /-- The visitor of a nested walk has an entry that is not accepted. -/
  | invalid (e : InvalidEntry)
  /-- A tree is deeper than a nested walk may go. -/
  | tooDeep

/-- The failure of a walk as the fault of a callback: a fault of a nested callback is passed on. -/
def Fault.ofFailure : Failure Fault → Fault
  | .invalid e => .invalid e
  | .raised f => f
  | .tooDeep => .tooDeep

/-- The text of a fault. -/
def Fault.text : Fault → String
  | message text => text
  | refused name => "refusing <" ++ name ++ ">"
  | invalid e => e.message
  | tooDeep => "tree too deep"

/-! ## Tests -/

mutual

/-- Whether a test is passed. -/
def Test.holds (n : Node) (above : Option Node) (counted : Nat) : Test → Bool
  | .tag t => n.tag? == some t
  | .kind key => n.kind.visitorKey == key
  | .name s => n.name == s
  | .text s => n.text? == some s || n.comment? == some s
  | .hasAttr s => (n.attr? s).isSome
  | .parent s => above.any (·.name == s)
  | .children count => (n.children?.map List.length) == some count
  | .line l => n.line? == some l
  | .counter c => c == counted
  | .not tests => !Test.allHold n above counted tests

/-- Whether all tests are passed. -/
def Test.allHold (n : Node) (above : Option Node) (counted : Nat) : List Test → Bool
  | [] => true
  | t :: rest => t.holds n above counted && Test.allHold n above counted rest

end

/-! ## Deeds -/

/-- The node with other characters, if it is a text or a comment. -/
def mapText (f : String → String) : Node → Node
  | .text t => .text { t with value := f t.value }
  | .comment c => .comment { c with data := f c.data }
  | n => n

/-- The node with another tag, if it is an element. -/
def rename (tag : String) : Node → Node
  | .element e cs => .element { e with tag } cs
  | n => n

/-- The node with a note in it: in an attribute, or in place of its characters or its name. -/
def note (s : String) : Node → Node
  | .doctype d => .doctype { d with name := s }
  | n => (mapText (fun _ => s) n).setAttr "parent" s

/-- The name of a node and the number of its children. -/
def describeParent : Option Node → String
  | none => "-"
  | some p => p.name ++ "/" ++ toString p.children.length

/-- The node with the value of an attribute of its parent. -/
def inheritAttr (name : String) (parent : Option Node) (n : Node) : Node :=
  match parent.bind (·.attr? name) with
  | some value => n.setAttr name value
  | none => n

/-- The first child of a node, or an empty text if it has none. -/
def unwrap (n : Node) : Node :=
  match n.children? with
  | some cs => cs.headD (.ofText "")
  | none => n

/-- A new node of a kind, which takes over the children, the name or the label of another. -/
def convert (n : Node) : Kind → Node
  | .document => .ofChildren n.children
  | .fragment => .fragment n.children
  | .doctype => .doctype ⟨n.name, "", ""⟩
  | .element => .ofTag n.name n.children
  | .comment => .ofComment n.label
  | .text => .ofText n.label

/-- What callbacks of scripts do. -/
abbrev Act := Run Memory Fault

/-- Set an attribute to the counter, and count; only an element is stamped. -/
def stamp (name : String) (n : Node) : Act Node := do
  if n.isElement then
    let m ← get
    set { m with counter := m.counter + 1 }
    return n.setAttr name (toString m.counter)
  else return n

/-- Walk a node with a visitor whose limited actions have not been done. -/
def traverseAfresh (depth : Nat) (v : Visitor Memory Fault) (n : Node) : Act Node := do
  let uses := (← get).uses
  modify ({ · with uses := [] })
  match ← (v.traverse depth n).run with
  | .ok n =>
    modify ({ · with uses })
    return n
  | .error f => throw (Fault.ofFailure f)

/-- The callback that logs its call and goes on. -/
def logCall (phase : Phase) (kind : Kind) (f : Option Node → Node → Act Node) :
    Callback Memory Fault := fun n parent => do
  modify fun m => { m with events := ⟨phase, kind, n, parent⟩ :: m.events }
  f parent n

mutual

/-- Do a deed. -/
def Deed.run (depth : Nat) : Deed → Option Node → Node → Act Node
  | .keep, _, n => pure n
  | .rename tag, _, n => pure (Script.rename tag n)
  | .setAttr name value, _, n => pure (n.setAttr name value)
  | .stamp name, _, n => Script.stamp name n
  | .count, _, n => do
    modify fun m => { m with counter := m.counter + 1 }
    return n
  | .parentInfo, parent, n => pure (note (describeParent parent) n)
  | .inherit name, parent, n => pure (inheritAttr name parent n)
  | .setText value, _, n => pure (mapText (fun _ => value) n)
  | .appendText value, _, n => pure (mapText (· ++ value) n)
  | .replace node, _, _ => pure node
  | .wrap tag, _, n => pure (.ofTag tag [n])
  | .unwrap, _, n => pure (Script.unwrap n)
  | .convert kind, _, n => pure (Script.convert n kind)
  | .pushChild node, _, n => pure (n.mapChildren (· ++ [node]))
  | .popChild, _, n => pure (n.mapChildren List.dropLast)
  | .clearChildren, _, n => pure (n.mapChildren fun _ => [])
  | .reverseChildren, _, n => pure (n.mapChildren List.reverse)
  | .cloneParent, parent, n => pure (parent.getD n)
  | .traverse steps, _, n => traverseAfresh depth (Step.visitor depth steps 0 .empty) n
  | .fail text, _, _ => throw (.message text)
  | .refuse, _, n => throw (.refused n.name)

/-- Do an action, if its condition holds and it has not been done too often. -/
def Action.run (depth : Nat) (site : Site) : Action → Option Node → Node → Act Node
  | .mk condition limit deed, parent, n => do
    let m ← get
    if Test.allHold n parent m.counter condition && limit.all (m.usesOf site < ·) then
      if limit.isSome then set (m.use site)
      deed.run depth parent n
    else return n

/-- Do actions one after the other. -/
def Action.runAll (depth : Nat) (site : Site) : List Action → Option Node → Node → Act Node
  | [], _, n => pure n
  | a :: rest, parent, n => do
    let n ← a.run depth site parent n
    Action.runAll depth { site with action := site.action + 1 } rest parent n

/-- The callback for actions that may be absent. -/
def Action.callback? (depth step : Nat) (phase : Phase) (kind : Kind) :
    Option (List Action) → Option (Callback Memory Fault)
  | none => none
  | some actions => some (logCall phase kind (Action.runAll depth ⟨step, phase, kind, 0⟩ actions))

/-- The visitor after one more step, the one of that number. -/
def Step.apply (depth step : Nat) : Step → Visitor Memory Fault → Visitor Memory Fault
  | .on phase kind actions, v =>
    v.on phase kind (logCall phase kind (Action.runAll depth ⟨step, phase, kind, 0⟩ actions))
  | .hooks kind enter leave, v =>
    v.setHooks kind
      ⟨Action.callback? depth step .enter kind enter, Action.callback? depth step .leave kind leave⟩
  | .entry key enter leave, v =>
    let kind := (Kind.ofVisitorKey? key).getD .document
    v.enter key <| .hooks
      ⟨Action.callback? depth step .enter kind enter, Action.callback? depth step .leave kind leave⟩
  | .value key type, v => v.enter key (.value type)
  | .visitChildNodes descends, v => v.visitChildNodes descends
  | .all actions, v =>
    Kind.enterOrder.foldl (fun v kind =>
      v.setHooks kind
        ⟨some (logCall .enter kind (Action.runAll depth ⟨step, .enter, kind, 0⟩ actions)),
          some (logCall .leave kind (Action.runAll depth ⟨step, .leave, kind, 0⟩ actions))⟩) v

/-- The visitor after more steps, the first of which has that number. -/
def Step.visitor (depth : Nat) :
    List Step → Nat → Visitor Memory Fault → Visitor Memory Fault
  | [], _, v => v
  | s :: rest, step, v => Step.visitor depth rest (step + 1) (s.apply depth step v)

end

end HtmlWalk.Script
