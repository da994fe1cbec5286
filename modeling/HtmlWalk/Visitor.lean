import HtmlWalk.Node

/-!
# Visitors

A visitor holds, for each kind of node, a callback that runs before the children of a node are
walked and one that runs after them; either may be missing. A callback is given the node and, if
the kind has parents, the parent of the node as it is at that moment. It returns the node that
takes the place, or it fails; and it may change a state that all callbacks share.

Visitors are put together step by step. An entry under an unknown key, or one that is no callback,
is accepted and remembered: `Visitor.validate` reports the first such entry, whatever came after
it.
-/

namespace HtmlWalk

/-! ## Callbacks -/

/-- What runs during a walk: it may change the state, and it may fail, which keeps the state. -/
abbrev Run (σ ε α : Type) := ExceptT ε (StateM σ) α

/-- What a visitor does with a node, given its parent. -/
abbrev Callback (σ ε : Type) := Node → Option Node → Run σ ε Node

/-- The two sides of the walk over the children of a node. -/
inductive Phase
  | enter
  | leave
deriving DecidableEq

/-- The order in which the kinds are tried on one side. -/
def Phase.order : Phase → List Kind
  | enter => Kind.enterOrder
  | leave => Kind.leaveOrder

/-- The name of a side. -/
def Phase.name : Phase → String
  | enter => "enter"
  | leave => "leave"

/-- The callbacks for one kind. -/
structure Hooks (σ ε : Type) where
  /-- The callback that runs before the children. -/
  enter : Option (Callback σ ε) := none
  /-- The callback that runs after the children. -/
  leave : Option (Callback σ ε) := none

namespace Hooks

variable {σ ε : Type}

/-- The callback of one side. -/
def get? (h : Hooks σ ε) : Phase → Option (Callback σ ε)
  | .enter => h.enter
  | .leave => h.leave

/-- The hooks with the callback of one side set. -/
def set (h : Hooks σ ε) (phase : Phase) (f : Callback σ ε) : Hooks σ ε :=
  match phase with
  | .enter => { h with enter := some f }
  | .leave => { h with leave := some f }

/-- Whether there is no callback. -/
def isEmpty (h : Hooks σ ε) : Bool := h.enter.isNone && h.leave.isNone

/-- The hooks in diagnostics: which callbacks are set. -/
def describe (h : Hooks σ ε) : String :=
  "Hooks \x7b enter: " ++ toString h.enter.isSome ++ ", leave: " ++ toString h.leave.isSome
    ++ " \x7d"

end Hooks

/-! ## Visitors -/

/-- Why an entry is not accepted. -/
inductive InvalidEntry
  /-- No kind has this key. -/
  | unknownKind (key : String)
  /-- What stands under the key is no callback, but a value of this type. -/
  | nonFunction (key found : String)
deriving DecidableEq

/-- The text of the report about an entry. -/
def InvalidEntry.message : InvalidEntry → String
  | unknownKind key => "unknown node kind `" ++ key ++ "` in visitor"
  | nonFunction key found =>
    "non-function visitor entry for `" ++ key ++ "`: found " ++ found

/-- What can be entered under a key. -/
inductive Entry (σ ε : Type)
  /-- Callbacks. -/
  | hooks (h : Hooks σ ε)
  /-- Anything else, of which only the type is kept. -/
  | value (type : String)

/-- The callbacks of a walk. -/
structure Visitor (σ ε : Type) where
  /-- The callbacks for each kind. -/
  hooks : Kind → Hooks σ ε := fun _ => {}
  /-- The entries that were not accepted, in order. -/
  invalid : List InvalidEntry := []
  /-- Whether the walk goes below the root. -/
  descends : Bool := true

namespace Visitor

variable {σ ε : Type}

/-- The visitor without callbacks, whose walk goes below the root. -/
def empty : Visitor σ ε := {}

/-- The callback for a kind on one side. -/
def callback? (v : Visitor σ ε) (phase : Phase) (k : Kind) : Option (Callback σ ε) :=
  (v.hooks k).get? phase

/-- Replace both callbacks for a kind. -/
def setHooks (v : Visitor σ ε) (k : Kind) (h : Hooks σ ε) : Visitor σ ε :=
  { v with hooks := fun l => if l = k then h else v.hooks l }

/-- Set the callback for a kind on one side, and keep the other. -/
def on (v : Visitor σ ε) (phase : Phase) (k : Kind) (f : Callback σ ε) : Visitor σ ε :=
  v.setHooks k ((v.hooks k).set phase f)

/-- Set the callback that runs before the children of documents. -/
def document (v : Visitor σ ε) (f : Callback σ ε) : Visitor σ ε := v.on .enter .document f

/-- Set the callback that runs before the children of document fragments. -/
def fragment (v : Visitor σ ε) (f : Callback σ ε) : Visitor σ ε := v.on .enter .fragment f

/-- Set the callback that runs first on document type declarations. -/
def doctype (v : Visitor σ ε) (f : Callback σ ε) : Visitor σ ε := v.on .enter .doctype f

/-- Set the callback that runs before the children of elements. -/
def element (v : Visitor σ ε) (f : Callback σ ε) : Visitor σ ε := v.on .enter .element f

/-- Set the callback that runs first on comments. -/
def comment (v : Visitor σ ε) (f : Callback σ ε) : Visitor σ ε := v.on .enter .comment f

/-- Set the callback that runs first on texts. -/
def text (v : Visitor σ ε) (f : Callback σ ε) : Visitor σ ε := v.on .enter .text f

/-- Enter something under a key. -/
def enter (v : Visitor σ ε) (key : String) (e : Entry σ ε) : Visitor σ ε :=
  match Kind.ofVisitorKey? key, e with
  | none, _ => { v with invalid := v.invalid ++ [.unknownKind key] }
  | some k, .hooks h => v.setHooks k h
  | some _, .value type => { v with invalid := v.invalid ++ [.nonFunction key type] }

/-- Say whether the walk goes below the root. -/
def visitChildNodes (v : Visitor σ ε) (descends : Bool) : Visitor σ ε := { v with descends }

/-- Whether there is no callback at all. -/
def isEmpty (v : Visitor σ ε) : Bool := Kind.enterOrder.all fun k => (v.hooks k).isEmpty

/-- The first entry that was not accepted. -/
def validate (v : Visitor σ ε) : Except InvalidEntry Unit :=
  match v.invalid with
  | [] => .ok ()
  | e :: _ => .error e

/-- The visitor in diagnostics: the kinds that have callbacks, in enter order. -/
def describe (v : Visitor σ ε) : String :=
  let set := Kind.enterOrder.filter fun k => !(v.hooks k).isEmpty
  let entries := set.map fun k => "\"" ++ k.visitorKey ++ "\": " ++ (v.hooks k).describe
  "\x7b" ++ ", ".intercalate entries ++ "\x7d"

/-! ## Looking up callbacks -/

theorem callback?_setHooks (v : Visitor σ ε) (phase : Phase) (k l : Kind) (h : Hooks σ ε) :
    (v.setHooks k h).callback? phase l = if l = k then h.get? phase else v.callback? phase l := by
  by_cases h : l = k <;> simp [callback?, setHooks, h]

theorem callback?_on (v : Visitor σ ε) (phase side : Phase) (k l : Kind) (f : Callback σ ε) :
    (v.on phase k f).callback? side l =
      if l = k ∧ side = phase then some f else v.callback? side l := by
  unfold on
  rw [callback?_setHooks]
  cases phase <;> cases side <;> by_cases h : l = k <;> simp [h, callback?, Hooks.set, Hooks.get?]

end Visitor

end HtmlWalk
