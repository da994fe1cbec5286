import Mathlib.Data.List.TakeWhile
import HtmlWalk.Proofs.Html.Fragment.State

/-!
# Formatting elements in a fragment

Formatting elements are opened again inside the root element, and there is nothing new in that. An
adoption is another matter: it moves a block out of a formatting element and puts copies of elements
around it and into it, so nodes come to stand where they did not stand before.

None of them comes to stand below itself, because the copies fit in with the ranks. A copy that is
put around the block ranks right below it, and above everything further out
(`Adoption.Rooted.step`); the copy that is put into the block ranks right above it, and below
everything further in (`Builder.rooted_copyInto`). While an adoption is going on, the node that is
to be put somewhere next may be loose; in the end none is.
-/

namespace HtmlWalk.Html

/-! ## Ranks -/

theorem descend_cons {rank : NodeId → Nat} {o : Open} {os : List Open} :
    Descend rank (o :: os) ↔ (∀ o' ∈ os, rank o'.id < rank o.id) ∧ Descend rank os :=
  List.pairwise_cons

theorem descend_append {rank : NodeId → Nat} {os os' : List Open} :
    Descend rank (os ++ os') ↔ Descend rank os ∧ Descend rank os' ∧
      ∀ o ∈ os, ∀ o' ∈ os', rank o'.id < rank o.id :=
  List.pairwise_append

theorem Descend.append {rank : NodeId → Nat} {os os' : List Open} (h : Descend rank os)
    (h' : Descend rank os') {r : Nat} (hr : ∀ o ∈ os, r ≤ rank o.id)
    (hr' : ∀ o ∈ os', rank o.id < r) : Descend rank (os ++ os') :=
  descend_append.2 ⟨h, h', fun o ho o' ho' => Nat.lt_of_lt_of_le (hr' o' ho') (hr o ho)⟩

/-- The ranks spread out, with another one given to the node `n`. -/
def spread (rank : NodeId → Nat) (n : NodeId) (r : Nat) : NodeId → Nat :=
  Function.update (2 * rank ·) n r

theorem spread_self (rank : NodeId → Nat) (n : NodeId) (r : Nat) : spread rank n r n = r :=
  Function.update_self ..

theorem spread_of_lt {rank : NodeId → Nat} {n x : NodeId} (h : x < n) (r : Nat) :
    spread rank n r x = 2 * rank x :=
  Function.update_of_ne (Nat.ne_of_lt h) ..

theorem Descend.spread {rank : NodeId → Nat} {os : List Open} (h : Descend rank os) {n : NodeId}
    (hlt : ∀ o ∈ os, o.id < n) (r : Nat) : Descend (spread rank n r) os := by
  refine List.Pairwise.imp_of_mem (fun ho ho' hrank => ?_) h
  rw [spread_of_lt (hlt _ ho), spread_of_lt (hlt _ ho')]
  omega

theorem Dom.Rooted.spread {d : Dom} {rank : NodeId → Nat} {loose : Set NodeId}
    (h : d.Rooted rank loose) (r : Nat) : d.Rooted (spread rank d.nodes.size r) loose :=
  h.rerank fun e x he hx hrank => by
    rw [spread_of_lt he, spread_of_lt hx]
    omega

namespace Builder

/-! ## The list -/

namespace Inner

variable {b : Builder} (h : b.Inner)
include h

theorem setFormatting {list : List Format}
    (hlist : ∀ id tag, .element id tag ∈ list → tag.name ∈ allFormattingTags) :
    Inner { b with formatting := list } :=
  { h with formatting := hlist }

/-- One more formatting element is noted. -/
theorem note {tag : Tag} (htag : tag.name ∈ allFormattingTags) {id : NodeId} {list : List Format}
    (hlist : ∀ entry ∈ list, entry = .element id tag ∨ entry ∈ b.formatting) :
    Inner { b with formatting := list } := by
  refine h.setFormatting fun i t hentry => ?_
  rcases hlist _ hentry with heq | hentry
  · obtain ⟨rfl, rfl⟩ := Format.element.inj heq
    exact htag
  · exact h.formatting i t hentry

theorem tag_formatting {entry : Format} (hentry : entry ∈ b.formatting) :
    ∀ tag ∈ entry.tag?, tag.name ∈ allFormattingTags := by
  intro tag htag
  cases entry with
  | marker => cases htag
  | element id tag' =>
    obtain rfl : tag' = tag := Option.some.inj htag
    exact h.formatting id tag' hentry

end Inner

namespace InFragment

variable {b : Builder} (h : b.InFragment)
include h

/-- Some of the formatting elements are noted no longer. -/
theorem setFormatting_of_subset {list : List Format} (hlist : list ⊆ b.formatting) :
    InFragment { b with formatting := list } :=
  { h.setFormatting fun id tag hentry => h.formatting id tag (hlist hentry) with
    rooted := h.rooted }

theorem mark : b.mark.InFragment := by
  have hinner : b.mark.Inner := by
    refine h.setFormatting fun id tag hentry => ?_
    rcases List.mem_cons.1 hentry with hentry | hentry
    · cases hentry
    · exact h.formatting id tag hentry
  exact ⟨hinner, h.rooted⟩

theorem clearToMarker : b.clearToMarker.InFragment :=
  h.setFormatting_of_subset ((List.tail_suffix _).trans (List.dropWhile_suffix _)).subset

theorem unformat (id : NodeId) : (b.unformat id).InFragment :=
  h.setFormatting_of_subset List.eraseP_subset

/-! ## Opening -/

/-- An element is opened and noted. -/
theorem insert_note {tag : Tag} (htag : tag.name ∈ allFormattingTags) (id : NodeId)
    {list : List Format} (hlist : list ⊆ b.formatting) :
    InFragment { b.insert tag with formatting := .element id tag :: list } := by
  have hopen := h.insert (notMem_outerTags_of_formatting htag).1
  have hnoted : ∀ entry ∈ .element id tag :: list,
      entry = .element id tag ∨ entry ∈ (b.insert tag).formatting := fun entry hentry => by
    rw [formatting_insert]
    exact (List.mem_cons.1 hentry).imp_right fun hentry => hlist hentry
  exact ⟨hopen.note htag hnoted, hopen.rooted⟩

theorem reopen {entry : Format} (hentry : ∀ tag ∈ entry.tag?, tag.name ∈ allFormattingTags) :
    (Builder.reopen entry b).InFragment := by
  cases entry with
  | marker => exact h
  | element id tag =>
    rw [Builder.reopen, formatting_insert]
    exact h.insert_note (hentry tag rfl) _ (List.Subset.refl _)

theorem reopen_foldr {entries : List Format}
    (hentries : ∀ entry ∈ entries, ∀ tag ∈ entry.tag?, tag.name ∈ allFormattingTags) :
    (entries.foldr Builder.reopen b).InFragment := by
  induction entries with
  | nil => exact h
  | cons entry entries ih =>
    exact (ih fun x hx => hentries x (List.mem_cons_of_mem _ hx)).reopen
      (hentries entry List.mem_cons_self)

theorem reopenFormatting : b.reopenFormatting.InFragment := by
  unfold Builder.reopenFormatting
  refine (h.setFormatting_of_subset (List.dropWhile_suffix _).subset).reopen_foldr ?_
  exact fun entry hentry => h.tag_formatting ((List.takeWhile_prefix _).subset hentry)

theorem insertFormatting {tag : Tag} (htag : tag.name ∈ allFormattingTags) :
    (b.insertFormatting tag).InFragment := by
  unfold Builder.insertFormatting
  refine h.insert_note htag _ ?_
  split
  · refine List.append_subset.2 ⟨fun x hx => ?_, List.drop_subset _ _⟩
    exact (List.takeWhile_prefix _).subset (eraseLast_subset _ _ hx)
  · exact List.Subset.refl _

/-! ## End tags -/

theorem endPlain (tag : String) : (b.endPlain tag).InFragment := by
  unfold Builder.endPlain
  split
  · exact h.popThroughTag tag
  · exact h

end InFragment

/-! ## Looking at the elements between -/

/-- An adoption inside the root element. -/
structure Adoption.Inner (a : Adoption) : Prop where
  builder : a.builder.Inner
  /-- The node that is to be put somewhere is not the root element. -/
  last : a.last ≠ 0
  /-- The elements that stay open are copies of formatting elements. -/
  kept : ∀ o ∈ a.kept, o.Inner a.builder.dom ∧ o.name.boundsTableScope = false

/-- How nodes are ranked during an adoption. The elements `inside` are the block and those further
in, and the elements `outside` are those that are yet to be looked at and those further out; both
are given from the inside out. The node that is to be put somewhere ranks between the two. -/
structure Adoption.Rooted (rank : NodeId → Nat) (loose : Set NodeId) (inside outside : List Open)
    (a : Adoption) : Prop where
  dom : a.builder.dom.Rooted rank loose
  loose : loose ⊆ {a.last}
  movable : a.builder.dom.isMovable a.last = true
  descend : Descend rank (inside ++ a.kept.reverse)
  le_rank : ∀ o ∈ inside ++ a.kept.reverse, rank a.last ≤ rank o.id
  descend_outside : Descend rank outside
  rank_lt : ∀ o ∈ outside, rank o.id < rank a.last

namespace Adoption

variable {a : Adoption}

/-- What has been made is not unmade. -/
def Grows (a a' : Adoption) : Prop :=
  ∀ o : Open, o.Inner a.builder.dom → o.Inner a'.builder.dom

/-- A copy of an element is put around the node that is to be put somewhere. -/
def wrap (a : Adoption) (tag : Tag) (list : List Format) : Builder :=
  let b := a.builder.emit (.element { tag := tag.name } tag.attrs)
  let b := { b with formatting := list }
  (b.emit (.detach a.last)).emit (.append (.children a.builder.nextId) (.node a.last))

theorem Inner.wrap (h : a.Inner) {tag : Tag} (htag : tag.name ∈ allFormattingTags)
    {list : List Format}
    (hlist : ∀ entry ∈ list, entry = .element a.builder.nextId tag ∨
      entry ∈ a.builder.formatting) :
    (a.wrap tag list).Inner ∧ (∀ o : Open, o.Inner a.builder.dom → o.Inner (a.wrap tag list).dom) ∧
      (a.builder.nextOpen { tag := tag.name } tag.attrs).Inner (a.wrap tag list).dom := by
  have hmade := h.builder.emit_of_none (e := .element { tag := tag.name } tag.attrs) rfl
  have hput := ((hmade.note htag hlist).emit_of_none (e := .detach a.last) rfl).emit_of_none
    (e := .append (.children a.builder.nextId) (.node a.last)) rfl
  have hname := a.builder.name?_nextId { tag := tag.name } tag.attrs
  refine ⟨hput, fun o ho => ((ho.emit _).emit (.detach a.last)).emit _, h.builder.nextId_ne_zero,
    ?_, .of_notMem (notMem_outerTags_of_formatting htag).1⟩
  exact name?_emit (name?_emit hname (.detach a.last)) _

theorem Inner.step (h : a.Inner) (block : NodeId) (o : Open) (count : Nat) :
    (a.step block o count).Inner ∧ a.Grows (a.step block o count) := by
  unfold Adoption.step
  dsimp only
  split
  · exact ⟨h, fun _ ho => ho⟩
  · next tag hfound =>
    obtain ⟨entry, hfind, hentrytag⟩ := Option.bind_eq_some_iff.1 hfound
    have htag := h.builder.tag_formatting (List.mem_of_find?_eq_some hfind) tag hentrytag
    split
    · exact ⟨{ h with builder := h.builder.setFormatting fun id tag hentry =>
        h.builder.formatting id tag (List.eraseP_subset hentry) }, fun _ ho => ho⟩
    · have hlist : ∀ entry ∈ replaceFormat o.id (.element a.builder.nextId tag)
          a.builder.formatting, entry = .element a.builder.nextId tag ∨
            entry ∈ a.builder.formatting := fun _ => mem_replaceFormat
      obtain ⟨hwrap, hgrows, hcopy⟩ := h.wrap htag hlist
      refine ⟨⟨hwrap, h.builder.nextId_ne_zero, List.forall_mem_cons.2 ⟨⟨hcopy,
        (notMem_outerTags_of_formatting htag).2⟩, fun x hx => ?_⟩⟩, hgrows⟩
      exact (h.kept x hx).imp_left (hgrows x)

theorem Inner.steps (h : a.Inner) (block : NodeId) (count : Nat) (os : List Open) :
    (steps block a count os).Inner ∧ a.Grows (steps block a count os) := by
  induction os generalizing a count with
  | nil => exact ⟨h, fun _ ho => ho⟩
  | cons o os ih =>
    obtain ⟨hstep, hgrows⟩ := h.step block o count
    obtain ⟨hsteps, hgrows'⟩ := ih hstep (count + 1)
    exact ⟨hsteps, fun x hx => hgrows' x (hgrows x hx)⟩

variable {rank : NodeId → Nat} {loose : Set NodeId} {inside outside : List Open}

theorem dom_wrap (a : Adoption) (tag : Tag) (list : List Format) :
    (a.wrap tag list).dom = ((a.builder.dom.apply (.element { tag := tag.name } tag.attrs)).apply
      (.detach a.last)).apply (.append (.children a.builder.nextId) (.node a.last)) := by
  simp only [wrap, dom, Builder.emit, Array.toList_push, Dom.ofEdits_concat]

/-- A copy is put around the node, and ranks right below it. -/
theorem Rooted.wrapped (h : a.Rooted rank loose inside outside) (hlast : a.last ≠ 0)
    (hpos : 0 < rank a.last)
    (hids : ∀ x ∈ inside ++ a.kept.reverse ++ outside, x.id < a.builder.nextId) {tag : Tag}
    {list : List Format} {a' : Adoption} {copy : Open} (hbuilder : a'.builder = a.wrap tag list)
    (hlast' : a'.last = a.builder.nextId) (hcopy : copy.id = a.builder.nextId)
    (hkept : a'.kept = copy :: a.kept) :
    a'.Rooted (spread rank a.builder.nextId (2 * rank a.last - 1)) {a.builder.nextId} inside
      outside := by
  have hsize : a.builder.dom.nodes.size = a.builder.nextId := a.builder.size_dom
  have hlast_lt : a.last < a.builder.nextId := by
    rw [← hsize]
    exact Dom.lt_size_of_content? (Dom.isSome_content?_of_isMovable h.movable)
  have hinside : ∀ x ∈ inside ++ a.kept.reverse, x.id < a.builder.nextId := fun x hx =>
    hids x (List.mem_append_left _ hx)
  have houtside : ∀ x ∈ outside, x.id < a.builder.nextId := fun x hx =>
    hids x (List.mem_append_right _ hx)
  have hwrap := (h.dom.spread (2 * rank a.last - 1)).wrap h.loose hlast h.movable (by
    rw [hsize, spread_self, spread_of_lt hlast_lt]
    omega) { tag := tag.name } tag.attrs
  rw [hsize] at hwrap
  have hself : ∀ x ∈ inside ++ a.kept.reverse, 2 * rank a.last - 1 <
      spread rank a.builder.nextId (2 * rank a.last - 1) x.id := by
    intro x hx
    have hle := h.le_rank x hx
    rw [spread_of_lt (hinside x hx)]
    omega
  have hlist : inside ++ a'.kept.reverse = inside ++ a.kept.reverse ++ [copy] := by
    rw [hkept, List.reverse_cons, List.append_assoc]
  exact {
    dom := by
      rw [hbuilder, dom_wrap]
      exact hwrap
    loose := by rw [hlast']
    movable := by
      rw [hbuilder, dom_wrap, hlast']
      refine Dom.isMovable_apply (Dom.isMovable_apply ?_ _) _
      rw [← hsize]
      simp [Dom.apply, Dom.isMovable, Dom.content?_make]
    descend := by
      rw [hlist]
      refine (h.descend.spread hinside _).append (List.pairwise_singleton _ copy)
        (fun x hx => Nat.succ_le_of_lt (hself x hx)) fun x hx => ?_
      rw [List.mem_singleton.1 hx, hcopy, spread_self]
      exact Nat.lt_succ_self _
    le_rank := fun x hx => by
      rw [hlist] at hx
      rw [hlast', spread_self]
      rcases List.mem_append.1 hx with hx | hx
      · exact Nat.le_of_lt (hself x hx)
      · rw [List.mem_singleton.1 hx, hcopy, spread_self]
    descend_outside := h.descend_outside.spread houtside _
    rank_lt := fun x hx => by
      have hlt := h.rank_lt x hx
      rw [hlast', spread_self, spread_of_lt (houtside x hx)]
      omega }

/-- One element is looked at. -/
theorem Rooted.step {o : Open} (h : a.Rooted rank loose inside (o :: outside)) (hinner : a.Inner)
    (hids : ∀ x ∈ inside ++ o :: outside, x.id < a.builder.nextId) (block : NodeId)
    (count : Nat) :
    ∃ rank' loose', (a.step block o count).Rooted rank' loose' inside outside := by
  have hpassed : a.Rooted rank loose inside outside :=
    { h with
      descend_outside := (descend_cons.1 h.descend_outside).2
      rank_lt := fun x hx => h.rank_lt x (List.mem_cons_of_mem _ hx) }
  unfold Adoption.step
  dsimp only
  split
  · exact ⟨rank, loose, hpassed⟩
  · split
    · exact ⟨rank, loose, { hpassed with }⟩
    · have hids' : ∀ x ∈ inside ++ a.kept.reverse ++ outside, x.id < a.builder.nextId := by
        intro x hx
        simp only [List.mem_append, List.mem_reverse] at hx
        rcases hx with (hx | hx) | hx
        · exact hids x (List.mem_append_left _ hx)
        · have hlt := lt_size_of_name? (hinner.kept x hx).1.made
          rwa [size_dom] at hlt
        · exact hids x (by simp [hx])
      exact ⟨_, _, hpassed.wrapped hinner.last
        (Nat.zero_lt_of_lt (h.rank_lt o List.mem_cons_self)) hids' rfl rfl rfl rfl⟩

theorem Rooted.steps {between : List Open} (h : a.Rooted rank loose inside (between ++ outside))
    (hinner : a.Inner) (hids : ∀ x ∈ inside ++ (between ++ outside), x.id < a.builder.nextId)
    (block : NodeId) (count : Nat) :
    ∃ rank' loose', (steps block a count between).Rooted rank' loose' inside outside := by
  induction between generalizing a rank loose count with
  | nil => exact ⟨rank, loose, h⟩
  | cons o between ih =>
    obtain ⟨rank', loose', hstep⟩ := h.step hinner hids block count
    refine ih hstep (hinner.step block o count).1 (fun x hx => ?_) (count + 1)
    refine Nat.lt_of_lt_of_le (hids x ?_) (size_le_step block a o count)
    simp only [List.cons_append, List.mem_append, List.mem_cons] at hx ⊢
    tauto

end Adoption

/-! ## Moving the block -/

theorem stack_putBelow (b : Builder) (opens below : List Open) (last : NodeId) :
    (b.putBelow opens below last).stack = opens := by
  rw [putBelow, putIn_eq]
  rfl

theorem opens_putBelow (b : Builder) (opens below : List Open) (last : NodeId) :
    (b.putBelow opens below last).opens = opens ++ [b.root] := by
  rw [putBelow, putIn_eq]
  rfl

namespace Inner

variable {b : Builder} (h : b.Inner)
include h

theorem putBelow {opens : List Open} (hopens : ∀ o ∈ opens, o.Inner b.dom) (below : List Open)
    (last : NodeId) : (b.putBelow opens below last).Inner := by
  have hdetached := (h.setStack hopens).emit_of_none (e := .detach last) rfl
  rw [Builder.putBelow, putIn_eq]
  refine hdetached.emit_of_none ?_
  cases Builder.targetIn _ _ <;> rfl

theorem copyInto (old : Open) {block : Open} {tag : Tag} {inner outer below : List Open}
    (htag : tag.name ∈ allFormattingTags)
    (hopens : ∀ o ∈ inner ++ outer ++ below, o.Inner b.dom) (bookmark : Option NodeId) :
    (b.copyInto old block tag bookmark inner outer below).Inner := by
  have hmade := h.emit_of_none (e := .element { tag := tag.name } tag.attrs) rfl
  have hput := (hmade.emit_of_none
    (e := .moveChildren (.children block.id) (.children b.nextId)) rfl).emit_of_none
    (e := .append (.children block.id) (.node b.nextId)) rfl
  have hlist : ∀ entry ∈ noteCopy (.element b.nextId tag) old.id bookmark b.formatting,
      entry = .element b.nextId tag ∨ entry ∈ b.formatting := fun _ => mem_noteCopy
  have hnoted := hput.note htag hlist
  have hgrows : ∀ o : Open, o.Inner b.dom → o.Inner (((b.emit
      (.element { tag := tag.name } tag.attrs)).emit
        (.moveChildren (.children block.id) (.children b.nextId))).emit
          (.append (.children block.id) (.node b.nextId))).dom :=
    fun o ho => ((ho.emit _).emit _).emit _
  refine hnoted.setStack fun o ho => ?_
  have hmem : o = b.nextOpen { tag := tag.name } tag.attrs ∨ o ∈ inner ++ outer ++ below := by
    simp only [List.mem_append, List.mem_cons] at ho ⊢
    tauto
  rcases hmem with rfl | hmem
  · refine ⟨h.nextId_ne_zero, ?_, .of_notMem (notMem_outerTags_of_formatting htag).1⟩
    exact name?_emit (name?_emit (b.name?_nextId _ _) _) _
  · exact hgrows o (hopens o hmem)

end Inner

section

variable {b : Builder} {rank : NodeId → Nat} {loose : Set NodeId}

theorem rooted_putBelow (h : b.dom.Rooted rank loose) {opens below : List Open} {last : NodeId}
    (hloose : loose ⊆ {last}) (hlast : last ≠ 0) (hmovable : b.dom.isMovable last = true)
    (hmade : ∀ o ∈ opens ++ [b.root], b.dom.name? o.id = some o.name)
    (hroot : b.root.name.boundsTableScope = true) (hbelow : below ⊆ opens)
    (hrank : ∀ e ∈ opens ++ [b.root], e ∈ below ++ [b.root] ∨ e.name.boundsTableScope = true →
      rank e.id < rank last) :
    (b.putBelow opens below last).dom.Rooted rank ∅ := by
  have hmem : below.headD b.root ∈ below ++ [b.root] := by cases below <;> simp
  have hopens : below.headD b.root ∈ opens ++ [b.root] :=
    List.append_subset.2 ⟨fun o ho => List.mem_append_left _ (hbelow ho), by simp⟩ hmem
  let detached := { b with stack := opens }.emit (.detach last)
  have hdom : detached.dom = b.dom.apply (.detach last) := dom_emit _ _
  have hdetached : detached.dom.Rooted rank (Insert.insert last loose) := by
    rw [hdom]
    exact h.detach hlast hmovable
  have hmovable' : detached.dom.isMovable last = true := by
    rw [hdom]
    exact Dom.isMovable_apply hmovable _
  have hput := rooted_putIn hdetached (fun o ho => name?_emit (hmade o ho) (.detach last)) hroot
    hopens (.inl rfl) hmovable' (Set.insert_subset rfl hloose) fun e he hcase => by
      refine hrank e he (hcase.imp_left ?_)
      rintro rfl
      exact hmem
  have hset : Insert.insert last loose \ {last} = (∅ : Set NodeId) :=
    Set.eq_empty_of_forall_notMem fun y hy => hy.2 (hy.1.elim id fun hy => hloose hy)
  rwa [hset] at hput

theorem rooted_copyInto (h : b.dom.Rooted rank ∅) (old : Open) {block : Open}
    (hblock : b.dom.name? block.id = some block.name) (tag : Tag) (bookmark : Option NodeId)
    {inner outer below : List Open}
    (hids : ∀ o ∈ inner ++ (block :: outer ++ below ++ [b.root]), o.id < b.nextId)
    (hdescend : Descend rank (inner ++ (block :: outer ++ below ++ [b.root]))) :
    ∃ rank', (b.copyInto old block tag bookmark inner (block :: outer) below).dom.Rooted rank' ∅ ∧
      Descend rank' (b.copyInto old block tag bookmark inner (block :: outer) below).opens := by
  have hsize : b.dom.nodes.size = b.nextId := b.size_dom
  have hblock_lt := hids block (by simp)
  have hdom : (b.copyInto old block tag bookmark inner (block :: outer) below).dom =
      ((b.dom.apply (.element { tag := tag.name } tag.attrs)).apply
        (.moveChildren (.children block.id) (.children b.nextId))).apply
          (.append (.children block.id) (.node b.nextId)) := by
    simp only [Builder.copyInto, dom, Builder.emit, Array.toList_push, Dom.ofEdits_concat]
    rfl
  have hopens : (b.copyInto old block tag bookmark inner (block :: outer) below).opens = inner ++
      (b.nextOpen { tag := tag.name } tag.attrs :: (block :: outer ++ below ++ [b.root])) := by
    simp only [Builder.copyInto, opens, List.append_assoc, List.cons_append]
    rfl
  refine ⟨spread rank b.nextId (2 * rank block.id + 1), ?_, ?_⟩
  · have hspread := h.spread (2 * rank block.id + 1)
    have hholds : b.dom.Holds block.id (.children block.id) := ⟨rfl, by rw [hblock]; rfl⟩
    rw [hdom, ← hsize]
    refine hspread.fill hholds ?_ (fun x hx => ?_) { tag := tag.name } tag.attrs
    · rw [spread_self, spread_of_lt (hsize ▸ hblock_lt)]
      exact Nat.lt_succ_self _
    · have hlt := h.ranked _ _ x hholds hx
      rw [spread_self, spread_of_lt (h.linked.lt_size hx)]
      omega
  · obtain ⟨hinner, houter, hlt⟩ := descend_append.1 hdescend
    have hle : ∀ o ∈ block :: outer ++ below ++ [b.root], rank o.id ≤ rank block.id :=
      List.forall_mem_cons.2 ⟨Nat.le_refl _, fun o ho =>
        Nat.le_of_lt ((descend_cons.1 houter).1 o ho)⟩
    have hcopy : ∀ o ∈ block :: outer ++ below ++ [b.root],
        spread rank b.nextId (2 * rank block.id + 1) o.id < 2 * rank block.id + 1 := by
      intro o ho
      have hrank := hle o ho
      rw [spread_of_lt (hids o (List.mem_append_right _ ho))]
      omega
    have hself : spread rank b.nextId (2 * rank block.id + 1) b.nextId = 2 * rank block.id + 1 :=
      spread_self ..
    have hcopied := (descend_cons (o := b.nextOpen { tag := tag.name } tag.attrs)).2
      ⟨fun o ho => (hcopy o ho).trans_eq hself.symm,
        houter.spread (fun o ho => hids o (List.mem_append_right _ ho)) _⟩
    rw [hopens]
    refine (hinner.spread (fun o ho => hids o (List.mem_append_left _ ho)) _).append hcopied
      (r := 2 * rank block.id + 2) (fun o ho => ?_) fun o ho => ?_
    · have hrank := hlt o ho block List.mem_cons_self
      rw [spread_of_lt (hids o (List.mem_append_left _ ho))]
      omega
    · rcases List.mem_cons.1 ho with rfl | ho
      · exact Nat.lt_succ_of_le hself.le
      · exact Nat.lt_succ_of_lt (hcopy o ho)

end

theorem Adoption.Rooted.descend_all {a : Adoption} {rank : NodeId → Nat} {loose : Set NodeId}
    {inside outside : List Open} (h : a.Rooted rank loose inside outside) :
    Descend rank (inside ++ a.kept.reverse ++ outside) :=
  h.descend.append h.descend_outside h.le_rank h.rank_lt

/-- An adoption begins at the block. -/
theorem Adoption.Rooted.start {b : Builder} {rank : NodeId → Nat} (h : b.dom.Rooted rank ∅)
    {inner outside : List Open} {block : Open} (hmade : b.dom.name? block.id = some block.name)
    (hdescend : Descend rank ((inner ++ [block]) ++ outside)) :
    Adoption.Rooted rank ∅ (inner ++ [block]) outside { builder := b, last := block.id } := by
  obtain ⟨hinside, houtside, hacross⟩ := descend_append.1 hdescend
  exact {
    dom := h
    loose := Set.empty_subset _
    movable := Dom.isMovable_of_name? hmade
    descend := by simpa using hinside
    le_rank := by
      have hle := (descend_append.1 hinside).2.2
      simp only [List.reverse_nil, List.append_nil, List.mem_append, List.mem_singleton]
      rintro o (ho | rfl)
      · exact Nat.le_of_lt (hle o ho block List.mem_cons_self)
      · exact Nat.le_refl _
    descend_outside := houtside
    rank_lt := fun o ho => hacross block (by simp) o ho }

/-- At the end of an adoption, what is left to be put somewhere is put below the formatting
element. -/
theorem Adoption.Rooted.inFragment_putBelow {a : Adoption} {rank : NodeId → Nat}
    {loose : Set NodeId} {inner below : List Open} {block old : Open}
    (h : a.Rooted rank loose (inner ++ [block]) (old :: below ++ [a.builder.root]))
    (hinner : a.Inner)
    (hopens : ∀ o ∈ inner ++ (block :: a.kept.reverse ++ old :: below), o.Inner a.builder.dom)
    (hinside : ∀ o ∈ inner ++ [block], o.name.boundsTableScope = false) :
    (a.builder.putBelow (inner ++ (block :: a.kept.reverse ++ old :: below)) below
      a.last).InFragment := by
  have hsplit : inner ++ (block :: a.kept.reverse ++ old :: below) ++ [a.builder.root] =
      inner ++ [block] ++ a.kept.reverse ++ (old :: below ++ [a.builder.root]) := by simp
  have hnotable : ∀ o ∈ inner ++ [block] ++ a.kept.reverse, o.name.boundsTableScope = false :=
    fun o ho => (List.mem_append.1 ho).elim (hinside o) fun ho =>
      (hinner.kept o (List.mem_reverse.1 ho)).2
  have hmade : ∀ o ∈ inner ++ (block :: a.kept.reverse ++ old :: below) ++ [a.builder.root],
      a.builder.dom.name? o.id = some o.name := fun _ =>
    (hinner.builder.setStack hopens).opens_made
  have hbelow : below ⊆ inner ++ (block :: a.kept.reverse ++ old :: below) := fun o ho => by
    simp [ho]
  -- The elements of which it can become a child are further out.
  have hrooted := rooted_putBelow h.dom h.loose hinner.last h.movable hmade
    (hinner.builder.root ▸ rfl) hbelow fun o ho hcase => by
      refine h.rank_lt o ?_
      rcases hcase with hmem | hbounds
      · exact List.mem_cons_of_mem _ hmem
      · rw [hsplit] at ho
        refine (List.mem_append.1 ho).resolve_left fun ho => ?_
        rw [hnotable o ho] at hbounds
        cases hbounds
  refine ⟨hinner.builder.putBelow hopens below a.last, rank, hrooted, ?_⟩
  rw [opens_putBelow, hsplit]
  exact h.descend_all

/-- The search for an element does not cross a bound. -/
theorem not_bound_of_findsInScope {bound : Name → Bool} {id : NodeId} {os rest : List Open}
    (hfinds : findsInScope bound (·.id == id) (os ++ rest) = true) (hos : ∀ o ∈ os, o.id ≠ id) :
    ∀ o ∈ os, bound o.name = false := by
  induction os with
  | nil => exact nofun
  | cons o os ih =>
    obtain ⟨hne, hos⟩ := List.forall_mem_cons.1 hos
    rw [List.cons_append, findsInScope, beq_false_of_ne hne, Bool.false_or, Bool.and_eq_true,
      Bool.not_eq_true'] at hfinds
    exact List.forall_mem_cons.2 ⟨hfinds.1, ih hfinds.2 hos⟩

theorem boundsTableScope_eq_false {n : Name} (h : n.boundsScope = false) :
    n.boundsTableScope = false := by
  rw [Bool.eq_false_iff] at h ⊢
  refine fun hbounds => h ?_
  simp only [Name.boundsScope, Name.boundsTableScope, Name.isHtmlIn, Bool.or_eq_true,
    Bool.and_eq_true, List.contains_iff_mem] at hbounds ⊢
  have htags : ["html", "table", "template"] ⊆
      ["applet", "caption", "html", "table", "td", "th", "marquee", "object", "template"] := by
    decide
  exact .inl (.inl ⟨hbounds.1, htags hbounds.2⟩)

namespace InFragment

variable {b : Builder} (h : b.InFragment)
include h

/-- A copy of a formatting element that ends is put around what is in the block. -/
theorem copyInto {old block : Open} {tag : Tag} (htag : tag.name ∈ allFormattingTags)
    {inner outer below : List Open} (hstack : b.stack = inner ++ (block :: outer ++ old :: below))
    (bookmark : Option NodeId) :
    (b.copyInto old block tag bookmark inner (block :: outer) below).InFragment := by
  obtain ⟨rank, hrooted, hdescend⟩ := h.rooted
  have hless : (inner ++ (block :: outer ++ below)).Sublist b.stack := by
    rw [hstack]
    exact ((List.sublist_cons_self old below).append_left _).append_left _
  have hopens : (inner ++ (block :: outer ++ below ++ [b.root])).Sublist b.opens := by
    simpa [opens] using hless.append_right [b.root]
  have hmade := (h.stack block (hless.subset (by simp))).made
  refine ⟨h.toInner.copyInto old htag (fun o ho => h.stack o (hless.subset ?_)) bookmark,
    rooted_copyInto hrooted old hmade tag bookmark (fun o ho => ?_) (hdescend.sublist hopens)⟩
  · rwa [← List.append_assoc]
  · have hlt := lt_size_of_name? (h.opens_made (hopens.subset ho))
    rwa [size_dom] at hlt

/-- A block moves out of a formatting element that can be reached from it. -/
theorem moveOut {old block : Open} {tag : Tag} (htag : tag.name ∈ allFormattingTags)
    {inner between below : List Open}
    (hstack : b.stack = inner ++ block :: (between ++ old :: below))
    (hinside : ∀ o ∈ inner ++ [block], o.name.boundsTableScope = false) :
    (b.moveOut old tag inner block between below).InFragment := by
  obtain ⟨rank, hrooted, hdescend⟩ := h.rooted
  have hopens : b.opens = (inner ++ [block]) ++ (between ++ (old :: below ++ [b.root])) := by
    simp [opens, hstack]
  have hstack_inner : ∀ o ∈ inner ++ block :: (between ++ old :: below), o.Inner b.dom :=
    fun o ho => h.stack o (hstack ▸ ho)
  have hblock := hstack_inner block (by simp)
  -- The elements between are looked at.
  have hstart : Adoption.Inner { builder := b, last := block.id } :=
    ⟨h.toInner, hblock.ne_root, List.forall_mem_nil _⟩
  have hbegin := Adoption.Rooted.start hrooted hblock.made (hopens ▸ hdescend)
  obtain ⟨rank, loose, hsteps⟩ := hbegin.steps hstart (fun o ho => by
    have hlt := lt_size_of_name? (h.opens_made (hopens ▸ ho))
    rwa [size_dom] at hlt) block.id 0
  obtain ⟨hinner, hgrows⟩ := hstart.steps block.id 0 between
  rw [moveOut_eq]
  generalize Adoption.steps block.id { builder := b, last := block.id } 0 between = a at *
  -- The block is put below the element, and a copy of the element into the block.
  have hopens' : ∀ o ∈ inner ++ (block :: a.kept.reverse ++ old :: below),
      o.Inner a.builder.dom := by
    intro o ho
    simp only [List.cons_append, List.mem_append, List.mem_cons, List.mem_reverse] at ho
    rcases ho with ho | rfl | ho | ho
    · exact hgrows o (hstack_inner o (by simp [ho]))
    · exact hgrows o hblock
    · exact (hinner.kept o ho).1
    · refine hgrows o (hstack_inner o ?_)
      simp only [List.mem_append, List.mem_cons]
      tauto
  have hroot : b.root = a.builder.root := h.root.trans hinner.builder.root.symm
  rw [hroot] at hsteps
  have hmoved := hsteps.inFragment_putBelow hinner hopens' hinside
  exact hmoved.copyInto htag (stack_putBelow ..) a.bookmark

/-! ## End tags -/

theorem adoptOnce (subject : String) :
    (Sum.elim id id (b.adoptOnce subject)).InFragment := by
  unfold Builder.adoptOnce
  split
  · next id tag hfind =>
    have htag : tag.name ∈ allFormattingTags := h.formatting id tag
      ((List.takeWhile_prefix _).subset (List.mem_of_find?_eq_some hfind))
    have habove := List.prefix_iff_eq_append.1
      (List.takeWhile_prefix (p := fun o : Open => o.id != id) (l := b.stack))
    have hne : ∀ o ∈ b.stack.takeWhile (·.id != id), o.id ≠ id := fun o ho => by
      simpa using List.mem_takeWhile_imp ho
    generalize b.stack.takeWhile (·.id != id) = above at habove hne ⊢
    dsimp only
    split
    · exact h.unformat id
    · next old below hrest =>
      rw [hrest] at habove
      split
      · exact h
      · next hscope =>
        have hbound : ∀ o ∈ above, o.name.boundsTableScope = false := fun o ho => by
          have hfinds : findsInScope Name.boundsScope (·.id == id)
              (above ++ (old :: below ++ [b.root])) = true := by
            simpa [hasInScope, opens, ← habove] using hscope
          exact boundsTableScope_eq_false (not_bound_of_findsInScope hfinds hne o ho)
        have hbetween := List.prefix_iff_eq_append.1
          (List.takeWhile_prefix (p := fun o : Open => !o.name.isSpecial) (l := above.reverse))
        generalize above.reverse.takeWhile (!·.name.isSpecial) = between at hbetween ⊢
        split
        · refine (h.setStack_of_sublist ?_).unformat id
          rw [← habove]
          exact (List.sublist_cons_self old below).trans (List.sublist_append_right above _)
        · next block inner hinside =>
          rw [hinside] at hbetween
          have hreverse : above = inner.reverse ++ block :: between.reverse := by
            rw [← List.reverse_reverse above, ← hbetween]
            simp
          refine h.moveOut htag ?_ fun o ho => hbound o ?_
          · rw [← habove, hreverse]
            simp
          · rw [hreverse]
            simp only [List.mem_append, List.mem_cons, List.not_mem_nil, or_false] at ho ⊢
            tauto
  · exact h.endPlain subject

theorem adoptTimes (subject : String) (n : Nat) :
    (Builder.adoptTimes subject n b).InFragment := by
  induction n generalizing b with
  | zero => exact h
  | succ n ih =>
    have honce := h.adoptOnce subject
    unfold Builder.adoptTimes
    cases hcase : b.adoptOnce subject with
    | inl b' =>
      rw [hcase] at honce
      exact honce
    | inr b' =>
      rw [hcase] at honce
      exact ih honce

theorem adopt (subject : String) : (b.adopt subject).InFragment := by
  unfold Builder.adopt
  split
  · exact h.pop
  · exact h.adoptTimes subject 8

end InFragment

end Builder

end HtmlWalk.Html
