import HtmlWalk.Node

/-!
# Equality of nodes

Two nodes are equal if they are of one kind, hold the same data and have equal children in the same
order. Everything counts: the order and the repetition of attributes, namespaces, modes and
recorded lines. Characters are compared as they are.
-/

namespace HtmlWalk.Node

mutual

/-- Whether two trees are equal. -/
def same : Node → Node → Bool
  | .document m cs, .document n ds => m == n && sameAll cs ds
  | .fragment cs, .fragment ds => sameAll cs ds
  | .doctype d, .doctype e => d == e
  | .element e cs, .element f ds => e == f && sameAll cs ds
  | .comment c, .comment d => c == d
  | .text t, .text u => t == u
  | _, _ => false

/-- Whether two lists of trees are equal. -/
def sameAll : List Node → List Node → Bool
  | [], [] => true
  | n :: ns, m :: ms => n.same m && sameAll ns ms
  | _, _ => false

end

mutual

theorem same_iff : ∀ n m : Node, n.same m = true ↔ n = m
  | .document a cs, m => by cases m <;> simp [same, sameAll_iff cs]
  | .fragment cs, m => by cases m <;> simp [same, sameAll_iff cs]
  | .doctype d, m => by cases m <;> simp [same]
  | .element e cs, m => by cases m <;> simp [same, sameAll_iff cs]
  | .comment c, m => by cases m <;> simp [same]
  | .text t, m => by cases m <;> simp [same]

theorem sameAll_iff : ∀ ns ms : List Node, sameAll ns ms = true ↔ ns = ms
  | [], ms => by cases ms <;> simp [sameAll]
  | n :: ns, ms => by
    cases ms with
    | nil => simp [sameAll]
    | cons m ms => simp [sameAll, same_iff n m, sameAll_iff ns ms]

end

instance : DecidableEq Node := fun n m => decidable_of_iff (n.same m = true) (same_iff n m)

end HtmlWalk.Node
