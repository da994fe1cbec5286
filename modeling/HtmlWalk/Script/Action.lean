import HtmlWalk.Visitor

/-!
# Scripts

A script describes a visitor by data: which callbacks it has, and what each of them does to its
node. A callback does its actions one after the other, each on the node that the one before has
left; an action may be bound to a condition, and may be done only so many times.
-/

namespace HtmlWalk.Script

/-- A test of a node, its parent and the counter. -/
inductive Test
  /-- The node is an element of that tag. -/
  | tag (tag : String)
  /-- The node is of the kind with that key. -/
  | kind (key : String)
  /-- The node has that name. -/
  | name (name : String)
  /-- The node is a text or a comment of those characters. -/
  | text (value : String)
  /-- The node has that attribute. -/
  | hasAttr (name : String)
  /-- There is a parent of that name. -/
  | parent (name : String)
  /-- The node can have children and has that many. -/
  | children (count : Nat)
  /-- The node starts on that line. -/
  | line (n : Nat)
  /-- The counter stands there. -/
  | counter (n : Nat)
  /-- Not all of the tests are passed. -/
  | not (tests : List Test)

mutual

/-- What an action does to a node. -/
inductive Deed
  /-- Nothing. -/
  | keep
  /-- Give an element another tag. -/
  | rename (tag : String)
  /-- Set an attribute of an element. -/
  | setAttr (name value : String)
  /-- Set an attribute of an element to the counter, and count. -/
  | stamp (name : String)
  /-- Count. -/
  | count
  /-- Write down the name of the parent and the number of its children. -/
  | parentInfo
  /-- Set an attribute of an element to its value at the parent. -/
  | inherit (name : String)
  /-- Set the characters of a text or a comment. -/
  | setText (value : String)
  /-- Add characters to a text or a comment. -/
  | appendText (value : String)
  /-- Put another node in the place. -/
  | replace (node : Node)
  /-- Put the node into a new element. -/
  | wrap (tag : String)
  /-- Put the first child in the place. -/
  | unwrap
  /-- Put a new node of a kind in the place, which takes over what it can. -/
  | convert (kind : Kind)
  /-- Add a last child. -/
  | pushChild (node : Node)
  /-- Drop the last child. -/
  | popChild
  /-- Drop all children. -/
  | clearChildren
  /-- Turn the order of the children around. -/
  | reverseChildren
  /-- Put a copy of the parent in the place. -/
  | cloneParent
  /-- Put the result of a walk with another visitor in the place. -/
  | traverse (steps : List Step)
  /-- Fail with a message. -/
  | fail (message : String)
  /-- Fail, naming the node. -/
  | refuse

/-- A deed with its condition, and with how many times it may be done. -/
inductive Action
  | mk (condition : List Test) (limit : Option Nat) (deed : Deed)

/-- One step of putting a visitor together. -/
inductive Step
  /-- Set one callback. -/
  | on (phase : Phase) (kind : Kind) (actions : List Action)
  /-- Replace both callbacks; one that is absent becomes unset. -/
  | hooks (kind : Kind) (enter leave : Option (List Action))
  /-- Enter callbacks under a key. -/
  | entry (key : String) (enter leave : Option (List Action))
  /-- Enter under a key what is no callback. -/
  | value (key type : String)
  /-- Say whether the walk goes below the root. -/
  | visitChildNodes (descends : Bool)
  /-- Set all callbacks of all kinds. -/
  | all (actions : List Action)

end

end HtmlWalk.Script
