import HtmlWalk.Proofs.Html.Mirror.State

/-!
# Formatting elements of builders that mirror each other

Two builders that mirror each other reopen the same formatting elements, and they adopt the same
content: the steps of `HtmlWalk.Html.Builder.Formatting`, one after the other. In an adoption the
builder is not the only thing that names nodes; `Adoption.Mirrors` is about the rest of them too.
-/

namespace HtmlWalk.Html

/-! ## Entries under new names -/

section

variable {f : NodeId → NodeId}

theorem Format.tag?_rename (entry : Format) : (entry.rename f).tag? = entry.tag? := by
  cases entry <;> rfl

theorem Format.rename_bne_marker (entry : Format) :
    (entry.rename f != .marker) = (entry != .marker) := by
  cases entry <;> rfl

theorem Format.id?_rename_beq (hf : f.Injective) (id : NodeId) (entry : Format) :
    ((entry.rename f).id? == some (f id)) = (entry.id? == some id) := by
  cases entry with
  | marker => rfl
  | element i tag => simp [rename, id?, hf.eq_iff]

theorem replaceFormat_rename (hf : f.Injective) (id : NodeId) (entry : Format)
    (list : List Format) : replaceFormat (f id) (entry.rename f) (list.map (Format.rename f)) =
      (replaceFormat id entry list).map (Format.rename f) := by
  unfold replaceFormat
  rw [List.map_map, List.map_map]
  refine List.map_congr_left fun x _ => ?_
  simp only [Function.comp_apply, Format.id?_rename_beq hf, apply_ite (Format.rename f)]

/-- What is in the place of an entry is the entry itself or stood there before. -/
theorem mem_replaceFormat {id : NodeId} {entry x : Format} {list : List Format}
    (hx : x ∈ replaceFormat id entry list) : x = entry ∨ x ∈ list := by
  obtain ⟨y, hy, rfl⟩ := List.mem_map.1 hx
  split
  · exact .inl rfl
  · exact .inr hy

theorem eraseLast_rename {test : Format → Bool} (ht : ∀ entry, test (entry.rename f) = test entry)
    (list : List Format) : eraseLast test (list.map (Format.rename f)) =
      (eraseLast test list).map (Format.rename f) := by
  unfold eraseLast
  rw [← List.map_reverse, List.eraseP_map, List.map_reverse]
  congr 3
  exact funext ht

theorem eraseLast_subset (test : Format → Bool) (list : List Format) :
    eraseLast test list ⊆ list := fun x hx => by
  rw [eraseLast, List.mem_reverse] at hx
  exact List.mem_reverse.1 (List.eraseP_subset hx)

theorem noteCopy_rename (hf : f.Injective) (entry : Format) (old : NodeId)
    (bookmark : Option NodeId) (list : List Format) :
    Builder.noteCopy (entry.rename f) (f old) (bookmark.map f) (list.map (Format.rename f)) =
      (Builder.noteCopy entry old bookmark list).map (Format.rename f) := by
  unfold Builder.noteCopy
  cases bookmark with
  | none => exact replaceFormat_rename hf old entry list
  | some id =>
    have hnoted : (list.map (Format.rename f)).flatMap (fun x : Format =>
          if x.id? == some (f id) then [entry.rename f, x] else [x]) =
        (list.flatMap fun x : Format => if x.id? == some id then [entry, x] else [x]).map
          (Format.rename f) := by
      rw [List.flatMap_map, List.map_flatMap]
      congr 1
      funext x
      rw [Format.id?_rename_beq hf]
      split <;> rfl
    simp only [Option.map_some, hnoted, List.eraseP_map]
    congr 2
    exact funext fun x => Format.id?_rename_beq hf old x

theorem mem_noteCopy {entry x : Format} {old : NodeId} {bookmark : Option NodeId}
    {list : List Format} (hx : x ∈ Builder.noteCopy entry old bookmark list) :
    x = entry ∨ x ∈ list := by
  unfold Builder.noteCopy at hx
  split at hx
  · exact mem_replaceFormat hx
  · obtain ⟨y, hy, hxy⟩ := List.mem_flatMap.1 (List.eraseP_subset hx)
    split at hxy <;> grind

end

namespace Builder

/-! ## What is added -/

section

variable {b c d : Builder}

/-- The second builder is the first one after some content: more elements may be open, and more
edits have been made. -/
def Adds (b c : Builder) : Prop :=
  c = { b with
    stack := c.stack, formatting := c.formatting, framesetOk := c.framesetOk, edits := c.edits }

theorem Adds.trans (h : b.Adds c) (h' : c.Adds d) : b.Adds d := by
  cases c
  cases d
  simp only [Adds, mk.injEq] at h h' ⊢
  simp_all

theorem adds_putText (b : Builder) (run : List Char) : b.Adds (b.putText run) := by
  rw [putText_eq]
  rfl

theorem adds_noFramesetAfter (b : Builder) (run : List Char) : b.Adds (b.noFramesetAfter run) := by
  unfold noFramesetAfter
  split <;> rfl

theorem adds_insertOpen (b : Builder) (name : Name) (attrs : List Attribute) :
    b.Adds (b.insertOpen name attrs) := by
  rw [insertOpen, insertClosed, put, putIn_eq]
  rfl

theorem Adds.mode (h : b.Adds c) : c.mode = b.mode := by rw [h]

theorem Adds.dropBreak (h : b.Adds c) : c.dropBreak = b.dropBreak := by rw [h]

theorem adds_reopen (entry : Format) (b : Builder) : b.Adds (reopen entry b) := by
  cases entry with
  | marker => rfl
  | element id tag =>
    have h := b.adds_insertOpen { tag := tag.name } tag.attrs
    rw [reopen, insert, h]
    rfl

theorem adds_reopenFormatting (b : Builder) : b.Adds b.reopenFormatting := by
  unfold reopenFormatting
  generalize b.formatting.takeWhile (!b.isSettled ·) = lost
  induction lost with
  | nil => rfl
  | cons entry lost ih => exact ih.trans (adds_reopen entry _)

theorem adds_charsInBody (b : Builder) (run : List Char) : b.Adds (b.charsInBody run) :=
  (b.adds_reopenFormatting.trans (adds_noFramesetAfter _ run)).trans (adds_putText _ run)

end

namespace Mirrors

variable {f : Nat → Nat} {b b' : Builder}

/-! ## The list -/

section

variable (h : Mirrors f b b')
include h

/-- Other formatting elements are noted. -/
theorem setFormatting {list list' : List Format} (hlist : list' = list.map (Format.rename f))
    (hfit : ∀ id tag, .element id tag ∈ list →
      id < b.edits.size ∧ tag.name ∈ allFormattingTags) :
    Mirrors f { b with formatting := list } { b' with formatting := list' } :=
  { h with formatting := hlist, fit := { h.fit with formatting := hfit } }

/-- Some of the formatting elements are noted no longer. -/
theorem setFormatting_of_subset {list list' : List Format}
    (hlist : list' = list.map (Format.rename f)) (hsub : list ⊆ b.formatting) :
    Mirrors f { b with formatting := list } { b' with formatting := list' } :=
  h.setFormatting hlist fun id tag hentry => h.fit.formatting id tag (hsub hentry)

/-- One more formatting element is noted. -/
theorem note {id : NodeId} {tag : Tag} (hid : id < b.edits.size)
    (htag : tag.name ∈ allFormattingTags) {list list' : List Format}
    (hlist : list' = list.map (Format.rename f))
    (hsub : ∀ entry ∈ list, entry = .element id tag ∨ entry ∈ b.formatting) :
    Mirrors f { b with formatting := list } { b' with formatting := list' } := by
  refine h.setFormatting hlist fun i t hentry => ?_
  rcases hsub _ hentry with heq | hentry
  · obtain ⟨rfl, rfl⟩ := Format.element.inj heq
    exact ⟨hid, htag⟩
  · exact h.fit.formatting i t hentry

theorem mark : Mirrors f b.mark b'.mark := by
  refine h.setFormatting (by rw [h.formatting]; rfl) fun id tag hentry => ?_
  rcases List.mem_cons.1 hentry with hentry | hentry
  · cases hentry
  · exact h.fit.formatting id tag hentry

theorem clearToMarker : Mirrors f b.clearToMarker b'.clearToMarker := by
  refine h.setFormatting_of_subset ?_ ?_
  · rw [h.formatting, List.dropWhile_map, List.map_tail]
    congr 3
    exact funext Format.rename_bne_marker
  · exact ((List.tail_suffix _).trans (List.dropWhile_suffix _)).subset

theorem recentFormatting : b'.recentFormatting = b.recentFormatting.map (Format.rename f) := by
  rw [Builder.recentFormatting, Builder.recentFormatting, h.formatting, List.takeWhile_map]
  congr 2
  exact funext Format.rename_bne_marker

/-- The last formatting element of a name. -/
theorem find?_recentFormatting (name : String) :
    b'.recentFormatting.find? (·.tag?.any (·.name == name)) =
      (b.recentFormatting.find? (·.tag?.any (·.name == name))).map (Format.rename f) := by
  rw [h.recentFormatting, List.find?_map]
  congr 2
  funext entry
  rw [Function.comp_apply, Format.tag?_rename]

theorem isFormatting (id : NodeId) : b'.isFormatting (f id) = b.isFormatting id := by
  rw [Builder.isFormatting, Builder.isFormatting, h.formatting, List.any_map]
  congr 1
  exact funext (Format.id?_rename_beq h.injective id)

theorem unformat (id : NodeId) : Mirrors f (b.unformat id) (b'.unformat (f id)) := by
  refine h.setFormatting_of_subset ?_ List.eraseP_subset
  rw [h.formatting, List.eraseP_map]
  congr 2
  exact funext (Format.id?_rename_beq h.injective id)

theorem isSettled (entry : Format) : b'.isSettled (entry.rename f) = b.isSettled entry := by
  cases entry with
  | marker => rfl
  | element id tag => exact h.isOpen id

/-! ## Opening -/

/-- An element is opened and noted. -/
theorem insert_note {tag : Tag} (htag : tag.name ∈ allFormattingTags)
    {list list' : List Format} (hlist : list' = list.map (Format.rename f))
    (hsub : list ⊆ b.formatting) :
    Mirrors f { b.insert tag with formatting := .element b.nextId tag :: list }
      { b'.insert tag with formatting := .element b'.nextId tag :: list' } := by
  have hid := (h.insert tag).fit.stack (b.nextOpen { tag := tag.name } tag.attrs) List.mem_cons_self
  refine (h.insert tag).note hid htag (by rw [h.nextId, hlist]; rfl) fun entry hentry => ?_
  rw [formatting_insert]
  exact (List.mem_cons.1 hentry).imp_right fun hentry => hsub hentry

theorem reopen {entry : Format}
    (hentry : ∀ tag ∈ entry.tag?, tag.name ∈ allFormattingTags) :
    Mirrors f (Builder.reopen entry b) (Builder.reopen (entry.rename f) b') := by
  cases entry with
  | marker => exact h
  | element id tag =>
    rw [Builder.reopen, Format.rename, Builder.reopen, formatting_insert, formatting_insert]
    exact h.insert_note (hentry tag rfl) h.formatting (List.Subset.refl _)

theorem reopen_foldr {entries : List Format}
    (hentries : ∀ entry ∈ entries, ∀ tag ∈ entry.tag?,
      tag.name ∈ allFormattingTags) :
    Mirrors f (entries.foldr Builder.reopen b)
      ((entries.map (Format.rename f)).foldr Builder.reopen b') := by
  induction entries with
  | nil => exact h
  | cons entry entries ih =>
    exact (ih fun x hx => hentries x (List.mem_cons_of_mem _ hx)).reopen
      (hentries entry List.mem_cons_self)

theorem tag_formatting {entry : Format} (hentry : entry ∈ b.formatting) :
    ∀ tag ∈ entry.tag?, tag.name ∈ allFormattingTags := by
  intro tag htag
  cases entry with
  | marker => cases htag
  | element id tag' =>
    obtain rfl : tag' = tag := Option.some.inj htag
    exact (h.fit.formatting id tag' hentry).2

theorem reopenFormatting : Mirrors f b.reopenFormatting b'.reopenFormatting := by
  have hsettled : (fun entry => !b'.isSettled entry) ∘ Format.rename f =
      fun entry => !b.isSettled entry := funext fun entry => congrArg _ (h.isSettled entry)
  unfold Builder.reopenFormatting
  simp only [h.formatting, List.takeWhile_map, List.dropWhile_map, hsettled]
  refine (h.setFormatting_of_subset rfl (List.dropWhile_suffix _).subset).reopen_foldr ?_
  exact fun entry hentry => h.tag_formatting ((List.takeWhile_prefix _).subset hentry)

theorem insertFormatting {tag : Tag} (htag : tag.name ∈ allFormattingTags) :
    Mirrors f (b.insertFormatting tag) (b'.insertFormatting tag) := by
  have hsame : ∀ entry : Format, (entry.rename f).tag?.any (·.same tag) =
      entry.tag?.any (·.same tag) := fun entry => by rw [Format.tag?_rename]
  have herase : ∀ list : List Format,
      eraseLast (fun entry : Format => entry.tag?.any (·.same tag)) (list.map (Format.rename f)) =
        (eraseLast (fun entry : Format => entry.tag?.any (·.same tag)) list).map
          (Format.rename f) := eraseLast_rename hsame
  unfold Builder.insertFormatting
  simp only [h.recentFormatting, h.formatting, List.countP_map, List.length_map, ← List.map_drop,
    Function.comp_def, hsame, herase]
  refine h.insert_note htag ?_ ?_
  · split <;> simp
  · split
    · refine List.append_subset.2 ⟨fun x hx => ?_, List.drop_subset _ _⟩
      exact (List.takeWhile_prefix _).subset (eraseLast_subset _ _ hx)
    · exact List.Subset.refl _

/-! ## End tags -/

theorem endPlain (tag : String) : Mirrors f (b.endPlain tag) (b'.endPlain tag) := by
  have hreaches : ∀ os : List Open, Builder.reaches tag (os.map (Open.rename f)) =
      Builder.reaches tag os := by
    intro os
    induction os with
    | nil => rfl
    | cons o os ih => rw [List.map_cons, Builder.reaches, Builder.reaches, ih, Open.rename]
  unfold Builder.endPlain
  rw [h.stack, hreaches]
  split
  · exact h.popThroughTag tag
  · exact h

end

end Mirrors

/-! ## Adoption -/

/-- Two adoptions are as far, and in builders that mirror each other. -/
structure Adoption.Mirrors (f : Nat → Nat) (a a' : Adoption) : Prop where
  builder : a.builder.Mirrors f a'.builder
  last : a'.last = f a.last
  bookmark : a'.bookmark = a.bookmark.map f
  kept : a'.kept = a.kept.map (Open.rename f)
  /-- The node that is to be put somewhere has been made. -/
  last_lt : a.last < a.builder.edits.size
  /-- So have the elements that stay open. -/
  kept_lt : ∀ o ∈ a.kept, o.id < a.builder.edits.size

namespace Adoption

variable {f : Nat → Nat} {a a' : Adoption}

/-- Nothing is taken back. -/
theorem size_le_step (block : NodeId) (a : Adoption) (o : Open) (count : Nat) :
    a.builder.edits.size ≤ (a.step block o count).builder.edits.size := by
  unfold step
  dsimp only
  split
  · exact Nat.le_refl _
  · split
    · exact Nat.le_refl _
    · simp [emit]
      omega

theorem Mirrors.step (h : a.Mirrors f a') (block : NodeId) (o : Open) (count : Nat) :
    (a.step block o count).Mirrors f (a'.step (f block) (o.rename f) count) := by
  have hb := h.builder
  have hentry : a'.builder.formatting.find? (·.id? == some (o.rename f).id) =
      (a.builder.formatting.find? (·.id? == some o.id)).map (Format.rename f) := by
    rw [hb.formatting, List.find?_map]
    congr 2
    exact funext (Format.id?_rename_beq hb.injective o.id)
  have htag : ((a.builder.formatting.find? (·.id? == some o.id)).map (Format.rename f)).bind
      Format.tag? = (a.builder.formatting.find? (·.id? == some o.id)).bind Format.tag? := by
    rw [Option.bind_map]
    congr 1
    exact funext Format.tag?_rename
  unfold Adoption.step
  simp only [hentry, htag]
  split
  · exact h
  · next tag hfound =>
    obtain ⟨entry, hfind, hentrytag⟩ := Option.bind_eq_some_iff.1 hfound
    have hframe := hb.tag_formatting (List.mem_of_find?_eq_some hfind) tag hentrytag
    split
    · exact { h with builder := hb.unformat o.id }
    · -- The copy is made and noted, and then the node is put into it.
      have hmade := hb.emit (e := .element { tag := tag.name } tag.attrs) trivial
      have hid : a.builder.nextId < a.builder.edits.size + 1 := Nat.lt_succ_self _
      have hlast : a.last < a.builder.edits.size + 1 := Nat.lt_succ_of_lt h.last_lt
      have hlist : replaceFormat (f o.id) (.element a'.builder.nextId tag) a'.builder.formatting =
          (replaceFormat o.id (.element a.builder.nextId tag) a.builder.formatting).map
            (Format.rename f) := by
        rw [hb.nextId, hb.formatting]
        exact replaceFormat_rename hb.injective o.id (.element a.builder.nextId tag) _
      have hnoted := hmade.note (by simpa [emit] using hid) hframe hlist
        fun entry hentry => mem_replaceFormat hentry
      have hdetached := hnoted.emit (e := .detach a.last) (by simpa [emit, Edit.Fits] using hlast)
      have hput := hdetached.emit (e := .append (.children a.builder.nextId) (.node a.last))
        ⟨by simpa [emit, Place.Within] using Nat.lt_succ_of_lt hid,
          by simpa [emit, Item.Within] using Nat.lt_succ_of_lt hlast⟩
      simp only [Edit.rename, Place.rename, Item.rename, ← hb.nextId] at hput
      rw [h.last]
      refine ⟨hput, hb.nextId, ?_, ?_, ?_, ?_⟩
      · have hblock : (f a.last == f block) = (a.last == block) :=
          decide_eq_decide.2 hb.injective.eq_iff
        rw [hblock, hb.nextOpen, h.bookmark]
        split <;> rfl
      · rw [hb.nextOpen, h.kept, List.map_cons]
      · simpa [emit, nextOpen] using Nat.lt_succ_of_lt (Nat.lt_succ_of_lt hid)
      · intro x hx
        have hx : x.id < a.builder.edits.size + 1 := by
          rcases List.mem_cons.1 hx with rfl | hx
          · exact hid
          · exact Nat.lt_succ_of_lt (h.kept_lt x hx)
        simpa [emit] using Nat.lt_succ_of_lt (Nat.lt_succ_of_lt hx)

theorem Mirrors.steps (h : a.Mirrors f a') (block : NodeId) (count : Nat) (os : List Open) :
    (steps block a count os).Mirrors f (steps (f block) a' count (os.map (Open.rename f))) := by
  induction os generalizing a a' count with
  | nil => exact h
  | cons o os ih => exact ih (h.step block o count) (count + 1)

theorem size_le_steps (block : NodeId) (a : Adoption) (count : Nat) (os : List Open) :
    a.builder.edits.size ≤ (steps block a count os).builder.edits.size := by
  induction os generalizing a count with
  | nil => exact Nat.le_refl _
  | cons o os ih => exact (size_le_step block a o count).trans (ih _ _)

end Adoption

/-- Take a node from where it stands, and put it into the innermost of the elements `below`, while
others are open. -/
def putBelow (b : Builder) (opens below : List Open) (last : NodeId) : Builder :=
  let b := { b with stack := opens }.emit (.detach last)
  b.putIn (below.headD b.root) (.node last)

/-- Put a copy of the formatting element `old` around what is in a block. -/
def copyInto (b : Builder) (old block : Open) (tag : Tag) (bookmark : Option NodeId)
    (inner outer below : List Open) : Builder :=
  let name : Name := { tag := tag.name }
  let copy := b.nextOpen name tag.attrs
  let b := b.emit (.element name tag.attrs)
  let b := b.emit (.moveChildren (.children block.id) (.children copy.id))
  let b := b.emit (.append (.children block.id) (.node copy.id))
  { b with
    formatting := noteCopy (.element copy.id tag) old.id bookmark b.formatting
    stack := inner ++ copy :: outer ++ below }

/-- A block moves out in three steps. -/
theorem moveOut_eq (b : Builder) (old : Open) (tag : Tag) (inner : List Open) (block : Open)
    (between below : List Open) :
    b.moveOut old tag inner block between below =
      let a := Adoption.steps block.id { builder := b, last := block.id } 0 between
      (a.builder.putBelow (inner ++ (block :: a.kept.reverse ++ old :: below)) below a.last).copyInto
        old block tag a.bookmark inner (block :: a.kept.reverse) below := rfl

namespace Mirrors

variable {f : Nat → Nat} {b b' : Builder}

section

variable (h : Mirrors f b b')
include h

theorem putBelow {opens : List Open} (hopens : ∀ o ∈ opens, o.id < b.edits.size) {last : NodeId}
    (hlast : last < b.edits.size) {below : List Open} (hbelow : ∀ o ∈ below, o.id < b.edits.size) :
    Mirrors f (b.putBelow opens below last)
      (b'.putBelow (opens.map (Open.rename f)) (below.map (Open.rename f)) (f last)) := by
  have hhead : (below.headD b.root).id < b.edits.size := by
    cases below with
    | nil => exact h.fit.root
    | cons o below => exact hbelow o List.mem_cons_self
  have hdetached := (h.setStack rfl hopens).emit (e := .detach last) (by simpa [Edit.Fits])
  have hroot : ({ b' with stack := opens.map (Open.rename f) }.emit (.detach (f last))).root =
      b.root.rename f := h.root
  unfold Builder.putBelow
  simp only [hroot, List.headD_map]
  refine hdetached.putIn (i := .node last) ?_ ?_
  · rw [size_edits_emit]
    exact Nat.lt_succ_of_lt hhead
  · rw [Item.Within, size_edits_emit]
    exact Nat.lt_succ_of_lt hlast

theorem copyInto (old : Open) {block : Open} {tag : Tag} (inner outer below : List Open)
    (htag : tag.name ∈ allFormattingTags) (hblock : block.id < b.edits.size)
    (hopens : ∀ o ∈ inner ++ outer ++ below, o.id < b.edits.size) (bookmark : Option NodeId) :
    Mirrors f (b.copyInto old block tag bookmark inner outer below)
      (b'.copyInto (old.rename f) (block.rename f) tag (bookmark.map f)
        (inner.map (Open.rename f)) (outer.map (Open.rename f)) (below.map (Open.rename f))) := by
  have hnew : b.nextId < b.edits.size + 1 := Nat.lt_succ_self _
  have hnew' := Nat.lt_succ_of_lt (Nat.lt_succ_of_lt hnew)
  have hmade := h.emit (e := .element { tag := tag.name } tag.attrs) trivial
  have hmoved := hmade.emit (e := .moveChildren (.children block.id) (.children b.nextId))
    (by rw [size_edits_emit]; exact ⟨nofun, Nat.lt_succ_of_lt hblock, hnew⟩)
  have hput := hmoved.emit (e := .append (.children block.id) (.node b.nextId)) (by
    rw [size_edits_emit, size_edits_emit]
    exact ⟨Nat.lt_succ_of_lt (Nat.lt_succ_of_lt hblock), Nat.lt_succ_of_lt hnew⟩)
  have hlist : noteCopy (.element b'.nextId tag) (f old.id) (bookmark.map f) b'.formatting =
      (noteCopy (.element b.nextId tag) old.id bookmark b.formatting).map (Format.rename f) := by
    rw [h.nextId, h.formatting]
    exact noteCopy_rename h.injective (.element b.nextId tag) old.id bookmark b.formatting
  have hnoted := hput.note (by simpa using hnew') htag hlist fun entry hentry => mem_noteCopy hentry
  have hos : inner.map (Open.rename f) ++
        b'.nextOpen { tag := tag.name } tag.attrs :: outer.map (Open.rename f) ++
          below.map (Open.rename f) =
      (inner ++ b.nextOpen { tag := tag.name } tag.attrs :: outer ++ below).map
        (Open.rename f) := by
    rw [List.map_append, List.map_append, List.map_cons, ← h.nextOpen]
  have hstack := hnoted.setStack hos fun o ho => ?_
  · simp only [Edit.rename, Place.rename, Item.rename, ← h.nextId] at hstack
    exact hstack
  · have ho : o.id < b.edits.size + 1 := by
      have hmem : o = b.nextOpen { tag := tag.name } tag.attrs ∨ o ∈ inner ++ outer ++ below := by
        simp only [List.mem_append, List.mem_cons] at ho ⊢
        tauto
      rcases hmem with rfl | hmem
      · exact hnew
      · exact Nat.lt_succ_of_lt (hopens o hmem)
    simpa using Nat.lt_succ_of_lt (Nat.lt_succ_of_lt ho)

theorem moveOut {old block : Open} {tag : Tag} {inner below : List Open}
    (htag : tag.name ∈ allFormattingTags) (hblock : block.id < b.edits.size)
    (hold : old.id < b.edits.size) (hinner : ∀ o ∈ inner, o.id < b.edits.size)
    (hbelow : ∀ o ∈ below, o.id < b.edits.size) (between : List Open) :
    Mirrors f (b.moveOut old tag inner block between below)
      (b'.moveOut (old.rename f) tag (inner.map (Open.rename f)) (block.rename f)
        (between.map (Open.rename f)) (below.map (Open.rename f))) := by
  have hstart : Adoption.Mirrors f { builder := b, last := block.id }
      { builder := b', last := (block.rename f).id } :=
    ⟨h, rfl, rfl, rfl, hblock, nofun⟩
  have ha := hstart.steps block.id 0 between
  have hle := Adoption.size_le_steps block.id { builder := b, last := block.id } 0 between
  rw [moveOut_eq, moveOut_eq]
  generalize Adoption.steps block.id { builder := b, last := block.id } 0 between = a at ha hle ⊢
  generalize hsteps : Adoption.steps (block.rename f).id
    { builder := b', last := (block.rename f).id } 0 (between.map (Open.rename f)) = a'
  replace ha : a.Mirrors f a' := hsteps ▸ ha
  have hopens : ∀ o ∈ inner ++ (block :: a.kept.reverse ++ old :: below),
      o.id < a.builder.edits.size := by
    intro o ho
    simp only [List.cons_append, List.mem_append, List.mem_cons, List.mem_reverse] at ho
    rcases ho with ho | rfl | ho | rfl | ho
    · exact (hinner o ho).trans_le hle
    · exact hblock.trans_le hle
    · exact ha.kept_lt o ho
    · exact hold.trans_le hle
    · exact (hbelow o ho).trans_le hle
  have hput := ha.builder.putBelow hopens ha.last_lt fun o ho => (hbelow o ho).trans_le hle
  have hsize : a.builder.edits.size ≤ (a.builder.putBelow (inner ++ (block :: a.kept.reverse ++
      old :: below)) below a.last).edits.size := by
    simp [Builder.putBelow]
    omega
  have hout := hput.copyInto old inner (block :: a.kept.reverse) below htag
    ((hblock.trans_le hle).trans_le hsize)
    (fun o ho => (hopens o (by simp at ho ⊢; tauto)).trans_le hsize) a.bookmark
  simpa [ha.last, ha.kept, ha.bookmark] using hout

theorem adoptOnce (subject : String) :
    Sum.LiftRel (Mirrors f) (Mirrors f) (b.adoptOnce subject) (b'.adoptOnce subject) := by
  unfold Builder.adoptOnce
  rw [h.find?_recentFormatting]
  cases hentry : b.recentFormatting.find? (·.tag?.any (·.name == subject)) with
  | none => exact .inl (h.endPlain subject)
  | some entry =>
    cases entry with
    | marker => exact .inl (h.endPlain subject)
    | element id tag =>
      have hmem := (List.takeWhile_prefix _).subset (List.mem_of_find?_eq_some hentry)
      have habove : (b.stack.map (Open.rename f)).takeWhile (·.id != f id) =
          (b.stack.takeWhile (·.id != id)).map (Open.rename f) := by
        rw [List.takeWhile_map]
        congr 2
        exact funext fun o => congrArg (!·) (h.rename_id_beq id o)
      have hspecial : ∀ os : List Open, (os.map (Open.rename f)).takeWhile (!·.name.isSpecial) =
          (os.takeWhile (!·.name.isSpecial)).map (Open.rename f) := fun os => List.takeWhile_map
      have hscope : b'.hasInScope Name.boundsScope (·.id == f id) =
          b.hasInScope Name.boundsScope (·.id == id) := h.hasInScope _ (h.rename_id_beq id)
      simp only [Option.map_some, Format.rename, h.stack, habove, List.length_map, ← List.map_drop,
        ← List.map_reverse, hscope, hspecial]
      have habove_sub :=
        (List.takeWhile_prefix (p := fun o : Open => o.id != id) (l := b.stack)).subset
      generalize b.stack.takeWhile (·.id != id) = above at habove_sub
      have hdrop := List.drop_subset above.length b.stack
      cases hrest : b.stack.drop above.length with
      | nil => exact .inl (h.unformat id)
      | cons old below =>
        rw [hrest] at hdrop
        have hbelow := List.Subset.trans (List.subset_cons_self old below) hdrop
        rw [List.map_cons]
        dsimp only
        split
        · exact .inl h
        · generalize above.reverse.takeWhile (!·.name.isSpecial) = between
          have hbetween := List.drop_subset between.length above.reverse
          cases hinside : above.reverse.drop between.length with
          | nil => exact .inl ((h.setStack_of_subset rfl hbelow).unformat id)
          | cons block inner =>
            rw [hinside] at hbetween
            have hlt : ∀ o ∈ block :: inner, o.id < b.edits.size := fun o ho =>
              h.fit.stack o (habove_sub (List.mem_reverse.1 (hbetween ho)))
            have hout := h.moveOut (h.fit.formatting id tag hmem).2 (hlt block List.mem_cons_self)
              (h.fit.stack old (hdrop List.mem_cons_self))
              (fun o ho => hlt o (List.mem_cons_of_mem _ (List.mem_reverse.1 ho)))
              (fun o ho => h.fit.stack o (hbelow ho)) between.reverse
            have hreverse : inner.reverse.map (Open.rename f) =
                (inner.map (Open.rename f)).reverse := List.map_reverse
            rw [hreverse] at hout
            exact .inr hout

theorem adoptTimes (subject : String) (n : Nat) :
    Mirrors f (Builder.adoptTimes subject n b) (Builder.adoptTimes subject n b') := by
  induction n generalizing b b' with
  | zero => exact h
  | succ n ih =>
    have honce := h.adoptOnce subject
    unfold Builder.adoptTimes
    generalize b.adoptOnce subject = x at honce ⊢
    generalize b'.adoptOnce subject = x' at honce ⊢
    cases honce with
    | inl h => exact h
    | inr h => exact ih h

theorem adopt (subject : String) : Mirrors f (b.adopt subject) (b'.adopt subject) := by
  unfold Builder.adopt
  rw [h.currentIs, h.current, Open.rename, h.isFormatting]
  split
  · exact h.pop
  · exact h.adoptTimes subject 8

end

end Mirrors

end Builder

end HtmlWalk.Html
