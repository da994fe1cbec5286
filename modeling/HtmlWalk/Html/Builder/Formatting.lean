import HtmlWalk.Html.Builder.State

/-!
# Formatting elements

A formatting element that is closed by force, because an element around it ends, is opened again
before the next content. The builder therefore keeps a list of the formatting elements, with
markers at the borders that they do not cross: templates, cells, captions and embedded objects.

An end tag of a formatting element may come inside blocks that were opened in that element. The
*adoption* rule then splits the element: the part inside the furthest block becomes a copy of it,
and the block moves out.
-/

namespace HtmlWalk.Html

/-- Whether two start tags say the same. -/
def Tag.same (a b : Tag) : Bool :=
  a.name == b.name && a.attrs.length == b.attrs.length && a.attrs.all b.attrs.contains

/-- The formatting element of an entry. -/
def Format.id? : Format → Option NodeId
  | marker => none
  | element id _ => some id

/-- The start tag of an entry. -/
def Format.tag? : Format → Option Tag
  | marker => none
  | element _ tag => some tag

/-- The list with another entry in the place of that node. -/
def replaceFormat (id : NodeId) (entry : Format) (list : List Format) : List Format :=
  list.map fun f => if f.id? == some id then entry else f

/-- The list without the last element that passes the test. -/
def eraseLast {α : Type} (test : α → Bool) (list : List α) : List α :=
  (list.reverse.eraseP test).reverse

namespace Builder

/-! ## The list of formatting elements -/

/-- Add a marker. -/
def mark (b : Builder) : Builder := { b with formatting := .marker :: b.formatting }

/-- Take the formatting elements off the list, up to the last marker, which goes too. -/
def clearToMarker (b : Builder) : Builder :=
  { b with formatting := (b.formatting.dropWhile (· != .marker)).tail }

/-- The formatting elements since the last marker. -/
def recentFormatting (b : Builder) : List Format := b.formatting.takeWhile (· != .marker)

/-- Whether a node is on the list. -/
def isFormatting (b : Builder) (id : NodeId) : Bool := b.formatting.any (·.id? == some id)

/-- Take a node off the list. -/
def unformat (b : Builder) (id : NodeId) : Builder :=
  { b with formatting := b.formatting.eraseP (·.id? == some id) }

/-- Whether an entry needs no opening again. -/
def isSettled (b : Builder) : Format → Bool
  | .marker => true
  | .element id _ => b.isOpen id

/-- Open an element of the list again, and note it at the end of the list. -/
def reopen (entry : Format) (b : Builder) : Builder :=
  match entry with
  | .marker => b
  | .element _ tag =>
    let id := b.nextId
    let b := b.insert tag
    { b with formatting := .element id tag :: b.formatting }

/-- Open again the formatting elements that were closed by force, the oldest first. -/
def reopenFormatting (b : Builder) : Builder :=
  let lost := b.formatting.takeWhile (!b.isSettled ·)
  let kept := b.formatting.dropWhile (!b.isSettled ·)
  lost.foldr reopen { b with formatting := kept }

/-- Open a formatting element. Of equal ones no more than three are kept. -/
def insertFormatting (b : Builder) (tag : Tag) : Builder :=
  let recent := b.recentFormatting
  let same (f : Format) := f.tag?.any (·.same tag)
  let kept := if 3 ≤ recent.countP same
    then eraseLast same recent ++ b.formatting.drop recent.length
    else b.formatting
  let id := b.nextId
  { b.insert tag with formatting := .element id tag :: kept }

/-! ## End tags -/

/-- Whether an end tag finds its element among the open ones, innermost first, before an element
that it does not reach across. -/
def reaches (tag : String) : List Open → Bool
  | [] => false
  | o :: rest => o.name.isHtml tag || (!o.name.isSpecial && reaches tag rest)

/-- The end tag of an element without rules of its own. -/
def endPlain (b : Builder) (tag : String) : Builder :=
  if reaches tag b.stack then b.popThroughTag tag else b

/-! ## Adoption -/

/-- The progress of an adoption while it looks at the elements between the furthest block and the
formatting element, from the inside out. -/
structure Adoption where
  /-- The builder. -/
  builder : Builder
  /-- The node that is to be put into the next element. -/
  last : NodeId
  /-- The formatting element behind which the copy is noted; without one it takes the place of the
  formatting element. -/
  bookmark : Option NodeId := none
  /-- The elements that stay open, the outermost first. -/
  kept : List Open := []

/-- Look at one element: after three of them, and if it formats nothing, it is closed; else a
copy of it is put around the block. -/
def Adoption.step (block : NodeId) (a : Adoption) (o : Open) (count : Nat) : Adoption :=
  let b := a.builder
  let entry := b.formatting.find? (·.id? == some o.id)
  match entry.bind Format.tag? with
  | none => a
  | some tag =>
    if 3 ≤ count then { a with builder := b.unformat o.id }
    else
      let name : Name := { tag := tag.name }
      let copy := b.nextOpen name tag.attrs
      let b := b.emit (.element name tag.attrs)
      let b := { b with formatting := replaceFormat o.id (.element copy.id tag) b.formatting }
      let b := (b.emit (.detach a.last)).emit (.append (.children copy.id) (.node a.last))
      { builder := b
        last := copy.id
        bookmark := if a.last == block then some copy.id else a.bookmark
        kept := copy :: a.kept }

/-- Look at the elements one after the other, counting them. -/
def Adoption.steps (block : NodeId) (a : Adoption) : Nat → List Open → Adoption
  | _, [] => a
  | count, o :: rest => Adoption.steps block (a.step block o count) (count + 1) rest

/-- Note the copy of a formatting element in the list. -/
def noteCopy (entry : Format) (old : NodeId) (bookmark : Option NodeId) (list : List Format) :
    List Format :=
  match bookmark with
  | none => replaceFormat old entry list
  | some id =>
    let noted := list.flatMap fun f : Format => if f.id? == some id then [entry, f] else [f]
    noted.eraseP (·.id? == some old)

/-- Move the furthest block out of the formatting element `old`, and put a copy of the element
around what is in the block. -/
def moveOut (b : Builder) (old : Open) (tag : Tag) (inner : List Open) (block : Open)
    (between below : List Open) : Builder :=
  let a := Adoption.steps block.id { builder := b, last := block.id } 0 between
  let outer := block :: a.kept.reverse ++ old :: below
  let b := { a.builder with stack := inner ++ outer }.emit (.detach a.last)
  let b := b.putIn (below.headD b.root) (.node a.last)
  let name : Name := { tag := tag.name }
  let copy := b.nextOpen name tag.attrs
  let b := b.emit (.element name tag.attrs)
  let b := b.emit (.moveChildren (.children block.id) (.children copy.id))
  let b := b.emit (.append (.children block.id) (.node copy.id))
  { b with
    formatting := noteCopy (.element copy.id tag) old.id a.bookmark b.formatting
    stack := inner ++ copy :: block :: a.kept.reverse ++ below }

/-- Adopt the content of the last formatting element of that tag once. The left outcome says that
nothing is left to be done. -/
def adoptOnce (b : Builder) (subject : String) : Builder ⊕ Builder :=
  match b.recentFormatting.find? (·.tag?.any (·.name == subject)) with
  | some (.element id tag) =>
    let above := b.stack.takeWhile (·.id != id)
    match b.stack.drop above.length with
    | [] => .inl (b.unformat id)
    | old :: below =>
      if !b.hasInScope Name.boundsScope (·.id == id) then .inl b
      else
        let between := above.reverse.takeWhile (!·.name.isSpecial)
        match above.reverse.drop between.length with
        | [] => .inl ({ b with stack := below }.unformat id)
        | block :: inner => .inr (b.moveOut old tag inner.reverse block between.reverse below)
  | _ => .inl (b.endPlain subject)

/-- Adopt the content of a formatting element until nothing is left to be done, but no more than
so many times. -/
def adoptTimes (subject : String) : Nat → Builder → Builder
  | 0, b => b
  | n + 1, b =>
    match b.adoptOnce subject with
    | .inl b => b
    | .inr b => adoptTimes subject n b

/-- The end tag of a formatting element. -/
def adopt (b : Builder) (subject : String) : Builder :=
  if b.currentIs subject && !b.isFormatting b.current.id then b.pop
  else adoptTimes subject 8 b

end Builder

end HtmlWalk.Html
