import HtmlWalk.Visitor

/-!
# Walks

A walk visits a node, then its children from first to last, then the node again. On each side the
kinds are tried in order against the node as it is by then: a callback may turn it into a node of
another kind, and the kinds that are still to come apply to that. What a callback returns is what
the later callbacks, the walk over the children and the parent's list of children see.

While a child is walked, its place in the parent is held by an empty text, so that the callbacks
of the child see all its siblings in their places.

A callback can make a tree deeper each time it is entered, so a walk need not end. It is therefore
given a depth below which it does not go; a walk that ends at all ends in the same way at every
greater depth.
-/

namespace HtmlWalk

variable {σ ε : Type}

/-- Why there is no result. -/
inductive Failure (ε : Type)
  /-- The visitor has an entry that is not accepted; no node was visited. -/
  | invalid (e : InvalidEntry)
  /-- A callback failed. -/
  | raised (e : ε)
  /-- The tree is deeper than the walk may go. -/
  | tooDeep
deriving DecidableEq

/-- Run a callback as part of a walk. -/
def Run.lift {α : Type} (r : Run σ ε α) : Run σ (Failure ε) α := fun s =>
  match r s with
  | (.ok a, s) => (.ok a, s)
  | (.error e, s) => (.error (.raised e), s)

/-- The text that holds the place of a child while the child is walked. -/
def placeholder : Node := .ofText ""

/-- The child in a place, and the node with another child there, if the node has the place. -/
def Node.exchange? (n : Node) (i : Nat) (other : Node) : Option (Node × Node) :=
  n.children[i]?.map fun c => (c, n.withChildren (n.children.set i other))

namespace Visitor

/-- Run the callback for a kind on one side, if the node is of that kind. -/
def dispatch (v : Visitor σ ε) (phase : Phase) (parent : Option Node) (n : Node) (k : Kind) :
    Run σ (Failure ε) Node :=
  if k.matchesNode n then
    match v.callback? phase k with
    | some f => Run.lift (f n (if k.hasParent then parent else none))
    | none => pure n
  else pure n

/-- Try all kinds in the order of one side. -/
def sweep (v : Visitor σ ε) (phase : Phase) (parent : Option Node) (n : Node) :
    Run σ (Failure ε) Node :=
  phase.order.foldlM (v.dispatch phase parent) n

/-- Visit the children in these places, one after the other. A child is taken out of its place for
the visit, and what comes of it is put there. The loop ends early at a place that the node does not
have, and drops what comes of a visit for which there is no place any more. -/
def visitPlaces (visit : Node → Node → Run σ (Failure ε) Node) :
    List Nat → Node → Run σ (Failure ε) Node
  | [], n => pure n
  | i :: places, n =>
    match n.exchange? i placeholder with
    | none => pure n
    | some (c, held) => do
      let c ← visit held c
      match held.exchange? i c with
      | none => visitPlaces visit places held
      | some (_, n) => visitPlaces visit places n

/-- Visit all children that a node has at the beginning. -/
def visitInPlace (visit : Node → Node → Run σ (Failure ε) Node) (n : Node) :
    Run σ (Failure ε) Node :=
  visitPlaces visit (List.range n.children.length) n

/-- Walk a tree that is no deeper than `depth` levels at any time. -/
def walk (v : Visitor σ ε) : Nat → Option Node → Node → Run σ (Failure ε) Node
  | 0, _, _ => throw .tooDeep
  | depth + 1, parent, n => do
    let n ← v.sweep .enter parent n
    let n ← if v.descends then visitInPlace (fun parent c => walk v depth (some parent) c) n
      else pure n
    v.sweep .leave parent n

/-- Walk a tree with a visitor, after the visitor has been validated. -/
def traverse (v : Visitor σ ε) (depth : Nat) (n : Node) : Run σ (Failure ε) Node :=
  match v.validate with
  | .ok () => v.walk depth none n
  | .error e => throw (.invalid e)

end Visitor

/-! ## One kind at a time -/

/-- The callbacks for one kind, which by default meet the root only. -/
structure KindVisitor (σ ε : Type) where
  /-- The callbacks. -/
  hooks : Hooks σ ε := {}
  /-- Whether the walk goes below the root. -/
  descends : Bool := false

/-- The visitor with these callbacks for one kind and none for the others. -/
def KindVisitor.toVisitor (v : KindVisitor σ ε) (k : Kind) : Visitor σ ε :=
  (Visitor.empty.setHooks k v.hooks).visitChildNodes v.descends

/-- Visit the nodes of one kind. -/
def visitKind (k : Kind) (depth : Nat) (n : Node) (v : KindVisitor σ ε) :
    Run σ (Failure ε) Node :=
  (v.toVisitor k).traverse depth n

/-- Visit the documents. -/
def visitDocument (depth : Nat) (n : Node) (v : KindVisitor σ ε) : Run σ (Failure ε) Node :=
  visitKind .document depth n v

/-- Visit the document fragments. -/
def visitFragment (depth : Nat) (n : Node) (v : KindVisitor σ ε) : Run σ (Failure ε) Node :=
  visitKind .fragment depth n v

/-- Visit the document type declarations. -/
def visitDoctype (depth : Nat) (n : Node) (v : KindVisitor σ ε) : Run σ (Failure ε) Node :=
  visitKind .doctype depth n v

/-- Visit the elements. -/
def visitElement (depth : Nat) (n : Node) (v : KindVisitor σ ε) : Run σ (Failure ε) Node :=
  visitKind .element depth n v

/-- Visit the comments. -/
def visitComment (depth : Nat) (n : Node) (v : KindVisitor σ ε) : Run σ (Failure ε) Node :=
  visitKind .comment depth n v

/-- Visit the texts. -/
def visitText (depth : Nat) (n : Node) (v : KindVisitor σ ε) : Run σ (Failure ε) Node :=
  visitKind .text depth n v

end HtmlWalk
