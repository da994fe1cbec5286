import HtmlWalk.Proofs.Html.Comments
import HtmlWalk.Proofs.Html.Fragment.Complete
import HtmlWalk.Proofs.Html.StartLines

/-!
# The lines of comments

**Theorem (`parseFragment_comments`).** A fragment that is written as texts and comments in any
order has just these comments, each on the line where it starts in the source.

A comment is handed over when all of it has been read, so the line that is reported then is where it
ends. The line where it starts is found by taking off the line breaks in its data. That is right
whatever stands before the comment, because the line that the tokenizer has come to is always one
more than the line breaks in all that has been read.

**The invariant** (`Session.Tells`). The edits put texts and some comments into the root element
(`Remarks`), and since the last comment the session has read a text. A text and a comment keep it
(`Session.Tells.passage`), hence so does any sequence of them (`Session.Tells.passages`).

**The document** (`Dom.Flat`). Such edits leave nothing below the children of the root element, so
the comments among these children are all comments there are.
-/

namespace HtmlWalk.Html

/-! ## Edits -/

/-- A comment that is made. -/
structure Remark where
  /-- Its node. -/
  id : NodeId
  /-- The line that is reported last before it is made. -/
  line : Nat
  /-- The characters between its brackets. -/
  data : String

namespace Remark

/-- The line where a comment starts, if it ends on the line that was reported. -/
def start (r : Remark) : Nat := max (r.line - lineBreaks r.data.toList) 1

/-- The data of a comment, and the line where it starts. -/
def shown (r : Remark) : String × Option Nat := (r.data, some r.start)

end Remark

/-- Edits put texts and these comments into the root element of a fragment. -/
inductive Remarks : List Edit → List Remark → Prop
  | root : Remarks rootEdits []
  | line {es : List Edit} {made : List Remark} (n : Nat) :
    Remarks es made → Remarks (es ++ [.line n]) made
  | text {es : List Edit} {made : List Remark} (value : String) :
    Remarks es made → Remarks (es ++ [.append (.children 0) (.text value)]) made
  | comment {es : List Edit} {made : List Remark} (n : Nat) (data : String) :
    Remarks es made →
      Remarks (es ++ [.line n, .comment data, .append (.children 0) (.node (es.length + 1))])
        (made ++ [⟨es.length + 1, n, data⟩])

namespace Remarks

variable {es : List Edit} {made : List Remark}

theorem writes (h : Remarks es made) (chunks : List Chunk) :
    Remarks (es ++ writes 0 chunks) made := by
  induction chunks generalizing es with
  | nil => rwa [Html.writes, List.flatMap_nil, List.append_nil]
  | cons c cs ih =>
    have hrest := ih ((h.line c.1).text (String.ofList c.2))
    rw [Html.writes, List.flatMap_cons, ← Html.writes]
    simpa using hrest

/-- The line of a comment is found from the one that was reported before it was made. -/
theorem line? (h : Remarks es made) (hes : ∀ n, .line n ∈ es → 1 ≤ n) :
    ∀ r ∈ made, (Tracked.ofEdits es).line? r.id = some r.start := by
  have hsplit : ∀ r ∈ made, ∃ earlier later, r.id = earlier.length + 1 ∧
      es = earlier ++ .line r.line :: .comment r.data :: later := by
    clear hes
    induction h with
    | root => simp
    | line n _ ih | text _ _ ih =>
      intro r hr
      obtain ⟨earlier, later, hid, rfl⟩ := ih r hr
      exact ⟨earlier, later ++ [_], hid, List.append_assoc ..⟩
    | comment n data _ ih =>
      intro r hr
      rcases List.mem_append.1 hr with hr | hr
      · obtain ⟨earlier, later, hid, rfl⟩ := ih r hr
        exact ⟨earlier, later ++ _, hid, List.append_assoc ..⟩
      · rw [List.mem_singleton.1 hr]
        exact ⟨_, _, rfl, rfl⟩
  intro r hr
  obtain ⟨earlier, later, hid, rfl⟩ := hsplit r hr
  rw [hid]
  exact Tracked.line?_of_comment hes

end Remarks

namespace Dom

variable {d : Dom} {made : List (NodeId × String)}

/-- The data of a comment. -/
def comment? (d : Dom) (id : NodeId) : Option String :=
  match d.content? id with
  | some (.comment data) => some data
  | _ => none

theorem GrowsAt.comment? {d' : Dom} {x : NodeId} (h : GrowsAt d d' x) :
    d'.comment? x = d.comment? x := by
  unfold Dom.comment?
  exact h.elim (fun _ => rfl) (fun _ _ => rfl) fun _ _ _ => rfl

/-- The children of the root element are texts and comments, namely these comments. -/
structure Flat (d : Dom) (made : List (NodeId × String)) : Prop where
  root : (d.content? 0).isSome
  leaf : ∀ id ∈ d.list (.children 0), d.kind? id = some .text ∨ d.kind? id = some .comment
  comments : (d.list (.children 0)).toList.filterMap (fun id => (d.comment? id).map (id, ·)) = made

namespace Flat

theorem content? (h : d.Flat made) {id : NodeId} (hid : id ∈ d.list (.children 0)) :
    (d.content? id).isSome := by
  have hleaf := h.leaf id hid
  unfold kind? at hleaf
  cases hc : d.content? id with
  | none => simp [hc] at hleaf
  | some c => rfl

theorem hasPlace (h : d.Flat made) : d.hasPlace (.children 0) = true := by
  have hroot := h.root
  rwa [Dom.content?, Option.isSome_map] at hroot

theorem growsAt (h : d.Flat made) (e : Edit) {id : NodeId} (hid : id ∈ d.list (.children 0)) :
    GrowsAt d (d.apply e) id :=
  growsAt_apply e (lt_size_of_content? (h.content? hid))

/-- Nothing else is put into the root element. -/
theorem apply (h : d.Flat made) {e : Edit}
    (hlist : (d.apply e).list (.children 0) = d.list (.children 0)) : (d.apply e).Flat made where
  root := by
    rw [(growsAt_apply e (lt_size_of_content? h.root)).isSome_content?, h.root]
  leaf id hid := by
    rw [hlist] at hid
    rw [(h.growsAt e hid).kind?]
    exact h.leaf id hid
  comments := by
    rw [hlist, ← h.comments]
    refine List.filterMap_congr fun id hid => ?_
    rw [(h.growsAt e (Array.mem_toList_iff.1 hid)).comment?]

/-- A text or a comment is put into the root element. -/
theorem apply_push (h : d.Flat made) {e : Edit} {id : NodeId}
    (hlist : (d.apply e).list (.children 0) = (d.list (.children 0)).push id)
    (hkind : (d.apply e).kind? id = some .text ∨ (d.apply e).kind? id = some .comment) :
    (d.apply e).Flat (made ++ (((d.apply e).comment? id).map (id, ·)).toList) where
  root := by
    rw [(growsAt_apply e (lt_size_of_content? h.root)).isSome_content?, h.root]
  leaf x hx := by
    rw [hlist] at hx
    rcases Array.mem_push.1 hx with hx | rfl
    · rw [(h.growsAt e hx).kind?]
      exact h.leaf x hx
    · exact hkind
  comments := by
    rw [hlist, Array.toList_push, List.filterMap_append, ← h.comments]
    congr 1
    refine List.filterMap_congr fun x hx => ?_
    rw [(h.growsAt e (Array.mem_toList_iff.1 hx)).comment?]

theorem text (h : d.Flat made) (value : String) :
    (d.apply (.append (.children 0) (.text value))).Flat made := by
  have happly := append_text d (.children 0) value
  cases hlast : d.lastText? (.children 0) with
  | some last =>
    rw [hlast] at happly
    refine h.apply ?_
    rw [Dom.apply, happly]
    exact (list_skip ..).trans (list_extendText ..)
  | none =>
    rw [hlast] at happly
    have hplace : d.hasPlace (.children 0) = true := h.hasPlace
    have hnew : d.apply (.append (.children 0) (.text value)) = (d.updateList (.children 0)
        (·.push d.nodes.size)).make (.text value) (some (.children 0)) := by
      rw [Dom.apply, happly]
      exact if_pos hplace
    have hsize : (d.updateList (.children 0) (·.push d.nodes.size)).nodes.size = d.nodes.size :=
      size_updateList ..
    have hkind : (d.apply (.append (.children 0) (.text value))).kind? d.nodes.size =
        some .text := by
      rw [hnew, kind?_make, if_pos hsize.symm]
      rfl
    have hcomment : (d.apply (.append (.children 0) (.text value))).comment? d.nodes.size =
        none := by
      rw [hnew, comment?, content?_make, if_pos hsize.symm]
    have hlist : (d.apply (.append (.children 0) (.text value))).list (.children 0) =
        (d.list (.children 0)).push d.nodes.size := by
      rw [hnew, list_make, list_updateList hplace]
    have hpush := h.apply_push hlist (.inl hkind)
    rw [hcomment] at hpush
    simpa using hpush

/-- A comment is made and put into the root element. -/
theorem comment (h : d.Flat made) (data : String) :
    ((d.apply (.comment data)).apply (.append (.children 0) (.node d.nodes.size))).Flat
      (made ++ [(d.nodes.size, data)]) := by
  set d' := d.apply (.comment data)
  have hmade : d'.Flat made := h.apply (list_make ..)
  have hcontent : d'.content? d.nodes.size = some (.comment data) :=
    (content?_make ..).trans (if_pos rfl)
  have hmovable : d'.isMovable d.nodes.size = true := by
    rw [isMovable, hcontent]
  have hparent : d'.parent? d.nodes.size = none :=
    (parent?_make ..).trans (if_pos rfl)
  have hgrows := growsAt_apply (.append (.children 0) (.node d.nodes.size))
    (lt_size_of_content? (Option.isSome_of_eq_some hcontent))
  have hlist : (d'.apply (.append (.children 0) (.node d.nodes.size))).list (.children 0) =
      (d'.list (.children 0)).push d.nodes.size := by
    rw [Dom.apply, append, hmade.hasPlace, hmovable, hparent]
    exact (list_skip ..).trans ((list_setParent ..).trans (list_updateList hmade.hasPlace _))
  have hpush := hmade.apply_push hlist (.inr (by rw [hgrows.kind?, kind?, hcontent]; rfl))
  rw [hgrows.comment?, comment?, hcontent] at hpush
  exact hpush

/-- Nothing stands below those children. -/
theorem inOrder (h : d.Flat made) : d.inOrder (.children 0) = (d.list (.children 0)).toList := by
  obtain ⟨depth, hdepth⟩ : ∃ depth, d.nodes.size = depth + 1 :=
    Nat.exists_eq_succ_of_ne_zero (Nat.ne_zero_of_lt (lt_size_of_content? h.root))
  have hleaf : ∀ id ∈ (d.list (.children 0)).toList, d.inOrderFrom d.nodes.size id = [id] := by
    intro id hid
    have hkind := h.leaf id (Array.mem_toList_iff.1 hid)
    have hbelow : d.below id = [] := by
      unfold kind? at hkind
      unfold below
      cases hc : d.content? id with
      | none => rfl
      | some c => cases c <;> simp_all [Content.kind?]
    rw [hdepth, inOrderFrom, hbelow, List.flatMap_nil]
  rw [Dom.inOrder, List.flatMap_congr hleaf, List.flatMap_singleton']

end Flat

end Dom

/-- The document of such edits has these comments, and nothing but texts beside them. -/
theorem Remarks.flat {es : List Edit} {made : List Remark} (h : Remarks es made) :
    (Dom.ofEdits es).Flat (made.map fun r => (r.id, r.data)) := by
  induction h with
  | root => exact ⟨rfl, fun _ hid => absurd hid (Array.not_mem_empty _), rfl⟩
  | line n _ ih =>
    rw [Dom.ofEdits_concat]
    exact ih.apply (Dom.list_skip ..)
  | text value _ ih =>
    rw [Dom.ofEdits_concat]
    exact ih.text value
  | @comment es made n data _ ih =>
    have hline := (ih.apply (e := .line n) (Dom.list_skip ..)).comment data
    rw [← Dom.ofEdits_concat, Dom.size_ofEdits, List.length_append, List.length_singleton] at hline
    rw [List.map_append]
    have hsplit : es ++ [.line n, .comment data, .append (.children 0) (.node (es.length + 1))] =
        es ++ [.line n] ++ [.comment data] ++ [.append (.children 0) (.node (es.length + 1))] := by
      simp
    rw [hsplit, Dom.ofEdits_concat, Dom.ofEdits_concat]
    exact hline

/-! ## Sources of texts and comments -/

/-- A text or a comment as it is written. -/
inductive Passage
  /-- Characters that stand for themselves. -/
  | text (cs : List Char)
  /-- A comment with these characters between its brackets. -/
  | comment (cs : List Char)

namespace Passage

/-- The source of a passage. -/
def source : Passage → List Char
  | text cs => cs
  | comment cs => commentSource cs

/-- The source of a passage is read as it. -/
def IsProper : Passage → Prop
  | text cs => ∀ c ∈ cs, isPlain c = true
  | comment cs => IsCommentData cs

instance : DecidablePred IsProper
  | text _ => decidable_of_iff _ List.all_eq_true
  | comment cs => inferInstanceAs (Decidable (IsCommentData cs))

end Passage

/-- The comments among some passages, each with its data and the line where it starts: one more than
there are line breaks before it. -/
def commentsOf (before : List Char) : List Passage → List (String × Option Nat)
  | [] => []
  | .text cs :: ps => commentsOf (before ++ cs) ps
  | .comment cs :: ps =>
    (String.ofList cs, some (1 + lineBreaks before)) :: commentsOf (before ++ commentSource cs) ps

/-! ## Sessions -/

/-- **A token of a comment** makes it and puts it into the element. -/
theorem Builder.TakesText.token_comment {b : Builder} {id : NodeId} (h : b.TakesText id)
    (line : Nat) (data : String) : (Stage.building b).token line (.comment data) =
      (.building (b.wrote b.framesetOk [.line line, .comment data,
        .append (.children id) (.node (b.edits.size + 1))]), none) := by
  set b' := b.wrote b.framesetOk [.line line] with hb'
  have h' : b'.TakesText id := h.wrote _ _
  have honce : b'.once (.comment data) = .done (b'.putComment data) := by
    have hforeign : b'.isForeign (.comment data) = false := by
      unfold isForeign
      simp [h'.deciding]
    rw [once, hforeign]
    rcases h'.mode with hmode | hmode <;> simp [byMode, hmode, inTemplate, inBody]
  have htarget : (b'.emit (.comment data)).targetIn (b'.emit (.comment data)).current =
      .place (.children id) := h'.target
  have hput : b'.putComment data = b.wrote b.framesetOk [.line line, .comment data,
      .append (.children id) (.node (b.edits.size + 1))] := by
    have hpush : ∀ e₁ e₂ e₃ : Edit,
        ((b.edits.push e₁).push e₂).push e₃ = b.edits ++ #[e₁, e₂, e₃] := fun _ _ _ =>
      Array.toList_inj.1 (by simp)
    rw [putComment, put, putIn, htarget]
    simp [hb', emit, Builder.wrote, nextId, hpush]
  rw [Stage.token, h.enter]
  exact congrArg (fun r : Builder × Option Signal => (Stage.building r.1, r.2))
    ((piece_of_once honce).trans (by rw [hput]))

namespace Session

/-- A byte order mark at the start of a piece is dropped. The comments stay where they are, because
there is no line break in it. -/
theorem foldl_read_passages {s : Session} (hs : s.fresh = false) {ps : List Passage}
    (hps : ∀ p ∈ ps, p.IsProper) (hne : ps.flatMap Passage.source ≠ []) :
    ∃ (before : List Char) (rest : List Passage), (∀ p ∈ rest, p.IsProper) ∧
      lineBreaks before = 0 ∧ commentsOf before rest = commentsOf [] ps ∧
        (ps.flatMap Passage.source).foldl read { s with fresh := true } =
          (rest.flatMap Passage.source).foldl read s := by
  have hother : ∀ {c : Char} (cs : List Char), c ≠ byteOrderMark →
      (c :: cs).foldl read { s with fresh := true } = (c :: cs).foldl read s := by
    intro c cs hc
    rw [List.foldl_cons, List.foldl_cons, read_fresh hs, if_neg hc]
  induction ps with
  | nil => exact absurd rfl hne
  | cons p ps ih =>
    match p with
    | .text [] => exact ih (List.forall_mem_cons.1 hps).2 hne
    | .text (c :: cs) =>
      by_cases hc : c = byteOrderMark
      · obtain ⟨hp, hps⟩ := List.forall_mem_cons.1 hps
        refine ⟨[c], .text cs :: ps, ?_, hc ▸ rfl, rfl, ?_⟩
        · exact List.forall_mem_cons.2 ⟨(List.forall_mem_cons.1 hp).2, hps⟩
        · rw [List.flatMap_cons, Passage.source, List.cons_append, List.foldl_cons, read_fresh hs,
            if_pos hc]
          rfl
      · exact ⟨[], _, hps, rfl, rfl, hother _ hc⟩
    | .comment cs => exact ⟨[], _, hps, rfl, rfl, hother _ (by decide)⟩

/-- A session has put texts and these comments into the root element of a fragment. The tokenizer
has come to `line`. -/
def Tells (s : Session) (line : Nat) (made : List Remark) : Prop :=
  ∃ (t : Tokenizer) (b : Builder) (text : List Char) (start : Option Nat),
    t.InText ∧ b.TakesText 0 ∧ b.hasOpen "template" = false ∧ Remarks b.edits.toList made ∧
      Reads t b 0 line text start s

namespace Tells

variable {s : Session} {line : Nat} {made : List Remark}

theorem text (h : s.Tells line made) (hline : 1 ≤ line) {cs : List Char}
    (hcs : ∀ c ∈ cs, isPlain c = true) : (cs.foldl read s).Tells (line + lineBreaks cs) made := by
  obtain ⟨t, b, text, start, ht, hb, hopen, hmade, hreads⟩ := h
  have hwritten := hreads.writtenText hb ht (isProper_literals hcs) hline
  rw [textSource_literals] at hwritten
  exact ⟨t, b, _, _, ht, hb, hopen, hmade, hwritten⟩

theorem comment (h : s.Tells line made) {cs : List Char} (hcs : IsCommentData cs) :
    ∃ id, ((commentSource cs).foldl read s).Tells (line + lineBreaks cs)
      (made ++ [⟨id, line + lineBreaks cs, String.ofList cs⟩]) := by
  obtain ⟨t, b, text, start, ht, hb, hopen, hmade, hreads⟩ := h
  obtain ⟨chunks, ok, -, -, hread⟩ := hreads.comment hb ht hcs
  set line' := line + lineBreaks cs
  set t' : Tokenizer := { t with line := line', run := [], comment := "" }
  -- The text before the comment.
  set b' := b.wrote ok (writes 0 chunks) with hb'
  have htext : Remarks b'.edits.toList made := by
    rw [hb', Builder.wrote, Array.toList_append]
    exact hmade.writes chunks
  have htakes : b'.TakesText 0 := hb.wrote _ _
  -- The comment.
  set b'' := b'.wrote b'.framesetOk [.line line', .comment (String.ofList cs),
    .append (.children 0) (.node (b'.edits.size + 1))] with hb''
  have hcomment : Remarks b''.edits.toList
      (made ++ [⟨b'.edits.size + 1, line', String.ofList cs⟩]) := by
    rw [hb'', Builder.wrote, Array.toList_append]
    exact htext.comment line' (String.ofList cs)
  rw [token_eq] at hread
  dsimp only at hread
  rw [htakes.token_comment] at hread
  have hzero : Reads t' b'' 0 line' [] none ⟨t', .building b'', false⟩ := .zero b'' 0 rfl
  rw [hread]
  exact ⟨b'.edits.size + 1, t', b'', [], none, { ht with }, htakes.wrote _ _, hopen, hcomment,
    hzero⟩

/-- **A passage is read.** -/
theorem passage {before : List Char} (h : s.Tells (1 + lineBreaks before) made) {p : Passage}
    (hp : p.IsProper) : ∃ more : List Remark,
      (p.source.foldl read s).Tells (1 + lineBreaks (before ++ p.source)) (made ++ more) ∧
        ∀ ps, commentsOf before (p :: ps) =
          more.map Remark.shown ++ commentsOf (before ++ p.source) ps := by
  rw [lineBreaks_append, ← Nat.add_assoc]
  cases p with
  | text cs =>
    refine ⟨[], ?_, fun _ => rfl⟩
    rw [List.append_nil]
    exact h.text (Nat.le_add_right ..) hp
  | comment cs =>
    obtain ⟨id, hread⟩ := h.comment hp
    set r : Remark := ⟨id, 1 + lineBreaks before + lineBreaks cs, String.ofList cs⟩
    have hshown : r.shown = (String.ofList cs, some (1 + lineBreaks before)) := by
      rw [Remark.shown, Remark.start, String.toList_ofList, Nat.add_sub_cancel,
        Nat.max_eq_left (Nat.le_add_right ..)]
    refine ⟨[r], ?_, fun ps => ?_⟩
    · rw [Passage.source, lineBreaks_commentSource]
      exact hread
    · rw [List.map_singleton, hshown]
      rfl

/-- **Passages are read**, one after the other. -/
theorem passages {ps : List Passage} (hps : ∀ p ∈ ps, p.IsProper) {before : List Char}
    (h : s.Tells (1 + lineBreaks before) made) : ∃ more : List Remark,
      ((ps.flatMap Passage.source).foldl read s).Tells
          (1 + lineBreaks (before ++ ps.flatMap Passage.source)) (made ++ more) ∧
        more.map Remark.shown = commentsOf before ps := by
  induction ps generalizing s made before with
  | nil =>
    refine ⟨[], ?_, rfl⟩
    simpa using h
  | cons p ps ih =>
    obtain ⟨hp, hps⟩ := List.forall_mem_cons.1 hps
    obtain ⟨first, hfirst, hcomments⟩ := h.passage hp
    obtain ⟨more, hmore, hshown⟩ := ih hps hfirst
    refine ⟨first ++ more, ?_, ?_⟩
    · rw [List.flatMap_cons, List.foldl_append, ← List.append_assoc, ← List.append_assoc]
      exact hmore
    · rw [List.map_append, hshown, hcomments]

/-- **The source ends.** -/
theorem finish (h : s.Tells line made) :
    Remarks (deliver { s with tokenizer := s.tokenizer.pause }).finish made := by
  obtain ⟨t, b, text, start, ht, hb, hopen, hmade, hreads⟩ := h
  obtain ⟨chunks, -, -, hfinish⟩ := hreads.finish hb ht hopen
  rw [hfinish]
  exact (hmade.writes chunks).line line

end Tells

/-- **The edits of texts and comments** put these comments into the root element. -/
theorem finish_feed_passages (options : ParseOptions) {ps : List Passage}
    (hps : ∀ p ∈ ps, p.IsProper) : ∃ made : List Remark,
      Remarks ((fragment options).feed (ps.flatMap Passage.source)).finish made ∧
        made.map Remark.shown = commentsOf [] ps := by
  set s := fragment options with hs
  have htells : s.Tells (1 + lineBreaks []) [] :=
    ⟨s.tokenizer, Builder.atFragment options.scripting, [], none, ⟨rfl, rfl, rfl, rfl, rfl, rfl⟩,
      Builder.takesText_atFragment _, rfl, .root, .zero (t := s.tokenizer) _ 0 rfl⟩
  by_cases hempty : ps.flatMap Passage.source = []
  · -- Nothing is read.
    obtain ⟨made, hread, hshown⟩ := htells.passages hps
    rw [hempty] at hread ⊢
    exact ⟨made, hread.finish, hshown⟩
  · obtain ⟨before, rest, hrest, hbreaks, hcomments, hfold⟩ :=
      foldl_read_passages (s := s) rfl hps hempty
    have htells' : s.Tells (1 + lineBreaks before) [] := by
      rw [hbreaks]
      exact htells
    obtain ⟨made, hread, hshown⟩ := htells'.passages hrest
    rw [feed, List.isEmpty_eq_false_iff.2 hempty]
    dsimp only
    rw [hfold]
    exact ⟨made, hread.finish, hshown.trans hcomments⟩

end Session

/-! ## Reading off the fragment -/

namespace Tracked

/-- The comments in what becomes of a place are those of the place in document order. -/
theorem comments_trees {t : Tracked} {above : List NodeId} {place : Place} (h : t.dom.Linked)
    (hplace : t.dom.Leads above place) :
    (Node.preorderAll (Tree.toNodesAll (t.trees true place))).filterMap
        (fun n => n.comment?.map (·, n.line?)) =
      (t.dom.inOrder place).filterMap fun id => (t.dom.comment? id).map (·, t.line? id) := by
  set told : Node → Option (String × Option Nat) := fun n => n.comment?.map (·, n.line?) with htold
  have hown : ∀ n : Node, told n = told (n.own.node []) := by
    intro n
    cases n <;> rfl
  have hcomment : ∀ id, ((t.own? true id).bind fun own => told (own.node [])) =
      (t.dom.comment? id).map (·, t.line? id) := by
    intro id
    unfold own? Dom.comment?
    cases t.dom.content? id with
    | none => rfl
    | some c => cases c <;> rfl
  set ns := Node.preorderAll (Tree.toNodesAll (t.trees true place)) with hns
  calc ns.filterMap told
    _ = (ns.map Node.own).filterMap fun own => told (own.node []) := by
      rw [List.filterMap_map]
      exact List.filterMap_congr fun n _ => hown n
    _ = (t.dom.inOrder place).filterMap fun id => (t.dom.comment? id).map (·, t.line? id) := by
      rw [hns, map_own_trees h hplace, List.filterMap_filterMap]
      exact List.filterMap_congr fun id _ => hcomment id

end Tracked

/-- The comments that edits put into the root element are those of the fragment. -/
theorem Remarks.comments {es : List Edit} {made : List Remark} (h : Remarks es made)
    (hes : ∀ n, .line n ∈ es → 1 ≤ n) {rank : NodeId → Nat}
    (hrooted : (Tracked.ofEdits es).dom.Rooted rank ∅) :
    (Node.preorderAll (Tree.toNodesAll ((Tracked.ofEdits es).trees true (.children 0)))).filterMap
        (fun n => n.comment?.map (·, n.line?)) = made.map Remark.shown := by
  set t := Tracked.ofEdits es with ht
  have hflat : t.dom.Flat (made.map fun r => (r.id, r.data)) := by
    rw [ht, dom_ofEdits]
    exact h.flat
  set ids := (t.dom.list (.children 0)).toList with hids
  calc _
    _ = ids.filterMap fun id => (t.dom.comment? id).map (·, t.line? id) := by
      rw [Tracked.comments_trees hrooted.linked hrooted.leads_root, hflat.inOrder]
    _ = (ids.filterMap fun id => (t.dom.comment? id).map (id, ·)).map
          fun x => (x.2, t.line? x.1) := by
      rw [List.map_filterMap]
      refine List.filterMap_congr fun id _ => ?_
      cases t.dom.comment? id <;> rfl
    _ = made.map Remark.shown := by
      rw [hflat.comments, List.map_map]
      exact List.map_congr_left fun r hr => congrArg (r.data, ·) (h.line? hes r hr)

end HtmlWalk.Html

namespace HtmlWalk

open Html

/-- **The lines of comments** among texts, in any order. A comment is on the line where it
starts. -/
theorem parseFragment_comments (options : ParseOptions) (hlines : options.sourceLines = true)
    {ps : List Passage} (hps : ∀ p ∈ ps, p.IsProper) :
    (parseFragment (String.ofList (ps.flatMap Passage.source)) options).preorder.filterMap
        (fun n => n.comment?.map (·, n.line?)) = commentsOf [] ps := by
  obtain ⟨made, hmade, hshown⟩ := Session.finish_feed_passages options hps
  obtain ⟨b, hb, hedits⟩ := Session.finish_inFragment options (ps.flatMap Passage.source)
  obtain ⟨rank, hrooted, -⟩ := hb.rooted
  have hnumbered := ((Session.numbered_fragment options).feed (ps.flatMap Passage.source)).finish
  rw [Builder.dom, ← hedits, ← dom_ofEdits] at hrooted
  rw [parseFragment, String.toList_ofList]
  generalize ((Session.fragment options).feed (ps.flatMap Passage.source)).finish = es at *
  rw [Tracked.fragmentTrees_eq hrooted, hlines, Node.preorder_eq, List.filterMap_cons_none rfl]
  exact (hmade.comments hnumbered hrooted).trans hshown

/-- Comments of several lines, next to each other and between texts. -/
theorem parseFragment_comments_severalLines :
    let ps : List Passage := [.text "a\n".toList, .comment "x\n\ny".toList, .comment [],
      .text "\n - > b".toList, .comment "-\n!-x".toList]
    (∀ p ∈ ps, p.IsProper) ∧
      (parseFragment "a\n<!--x\n\ny--><!---->\n - > b<!---\n!-x-->"
          { sourceLines := true }).preorder.filterMap (fun n => n.comment?.map (·, n.line?)) =
        [("x\n\ny", some 2), ("", some 4), ("-\n!-x", some 5)] := by
  intro ps
  have hps : ∀ p ∈ ps, p.IsProper := by decide
  exact ⟨hps, @parseFragment_comments { sourceLines := true } rfl ps hps⟩

end HtmlWalk
