import HtmlWalk.Html.Session
import HtmlWalk.Proofs.Html.Linked
import HtmlWalk.Proofs.Html.Notes

/-!
# Doctypes stand at the top

**Theorem (`Session.doctypes_feed_document`).** A source is given at most one doctype: only an
opening declares one, and it decides the layout mode together with it, after which there are no
more.

**Theorem (`Dom.doctype_ofEdits`).** A doctype is the node of an edit that makes one, and it stands
among the children of the document, as no edit moves it (`Dom.KeepsDoctypes`).

Together, at most one child of the document is a doctype, and no other node is.
-/

namespace HtmlWalk.Html

/-! ## Doctypes among edits -/

/-- Whether an edit makes a doctype. -/
def Edit.isDoctype : Edit → Bool
  | doctype _ => true
  | _ => false

/-- The number of doctypes that some edits make. -/
def doctypes (es : Array Edit) : Nat := es.toList.countP Edit.isDoctype

theorem doctypes_push (es : Array Edit) (e : Edit) :
    doctypes (es.push e) = doctypes es + if e.isDoctype then 1 else 0 := by
  simp [doctypes, List.countP_append, List.countP_singleton]

/-- To make a doctype is a note. -/
theorem doctypes_of_notes {es es' : Array Edit} (h : notes es' = notes es) :
    doctypes es' = doctypes es := by
  have hnotes : ∀ es : Array Edit, doctypes es = (notes es).countP Edit.isDoctype := by
    intro es
    rw [doctypes, notes, List.countP_filter]
    refine List.countP_congr fun e _ => ?_
    cases e <;> simp [Edit.isDoctype]
  rw [hnotes, hnotes, h]

/-! ## Stages -/

/-- At most one doctype has been declared, and none as long as the layout mode is open. -/
def Stage.DeclaresOnce : Stage → Prop
  | opening o => doctypes o.edits ≤ if o.layout.isSome then 1 else 0
  | building b => doctypes b.edits ≤ 1

namespace Opening

variable {o : Opening}

theorem doctypes_emit (o : Opening) {e : Edit} (he : e.isDoctype = false) :
    doctypes (o.emit e).edits = doctypes o.edits := by
  rw [emit, doctypes_push, he]
  rfl

theorem doctypes_settle (o : Opening) (mode : Mode) :
    doctypes (o.settle mode).edits = doctypes o.edits :=
  o.doctypes_emit rfl

theorem declaresOnce_settle (h : (Stage.opening o).DeclaresOnce) (mode : Mode) :
    (Stage.opening (o.settle mode)).DeclaresOnce := by
  rw [Stage.DeclaresOnce, doctypes_settle]
  refine Nat.le_trans h ?_
  split <;> simp [settle]

theorem declaresOnce_declare (h : (Stage.opening o).DeclaresOnce) (d : Declaration) :
    (Stage.opening (o.declare d)).DeclaresOnce := by
  unfold declare
  split
  · exact h
  · next hlayout =>
    rw [Stage.DeclaresOnce, if_neg hlayout] at h
    rw [Stage.DeclaresOnce, doctypes_settle, emit, doctypes_push, Nat.le_zero.1 h]
    exact Nat.le_refl 1

theorem declaresOnce_build (h : (Stage.opening o).DeclaresOnce) (attrs : List Attribute) :
    (Stage.building (o.build attrs)).DeclaresOnce := by
  have hle : doctypes o.edits ≤ 1 := by
    refine Nat.le_trans h ?_
    split <;> omega
  have hbuild : doctypes (o.build attrs).edits = doctypes o.edits := by
    unfold build
    dsimp only
    rw [doctypes_push, doctypes_push]
    split
    · rfl
    · exact o.doctypes_settle .quirks
  exact Nat.le_trans (Nat.le_of_eq hbuild) hle

theorem declaresOnce_piece (h : (Stage.opening o).DeclaresOnce) (p : Piece) :
    (o.piece p).1.DeclaresOnce := by
  have hbuild : (piece.build o p).1.DeclaresOnce := by
    have hroot : doctypes (o.build []).edits ≤ 1 := declaresOnce_build h []
    rwa [← doctypes_of_notes ((o.build []).notes_piece p)] at hroot
  unfold piece
  dsimp only
  split
  · exact h
  · next data =>
    have hcomment : doctypes (o.putComment data).edits = doctypes o.edits :=
      ((o.emit (.comment data)).doctypes_emit rfl).trans (o.doctypes_emit rfl)
    rw [Stage.DeclaresOnce, hcomment]
    exact h
  · split
    · exact declaresOnce_build h _
    · exact hbuild
  · split
    · exact hbuild
    · split
      · exact h
      · exact declaresOnce_settle h .quirks
  all_goals exact hbuild

end Opening

namespace Stage.DeclaresOnce

variable {s : Stage}

theorem piece (h : s.DeclaresOnce) (p : Piece) : (s.piece p).1.DeclaresOnce := by
  cases s with
  | opening o => exact Opening.declaresOnce_piece h p
  | building b =>
    have hedits : doctypes b.edits ≤ 1 := h
    rwa [← doctypes_of_notes (b.notes_piece p)] at hedits

theorem runs (h : s.DeclaresOnce) (ps : List Piece) : (s.runs ps).DeclaresOnce := by
  induction ps generalizing s with
  | nil => exact h
  | cons p ps ih =>
    unfold Stage.runs
    split
    · exact ih (h.piece p)
    · exact h.piece _

theorem enter (h : s.DeclaresOnce) (line : Nat) : (s.enter line).1.DeclaresOnce := by
  cases s with
  | opening o | building b =>
    refine Nat.le_trans (Nat.le_of_eq ?_) h
    exact doctypes_push _ (.line line)

/-- **A document declares one doctype at most**, whatever tokens it is made of. -/
theorem token (h : s.DeclaresOnce) (line : Nat) (t : Token) :
    (s.token line t).1.DeclaresOnce := by
  have henter := h.enter line
  unfold Stage.token
  dsimp only
  cases t with
  | declaration d =>
    dsimp only
    split
    · next o ho =>
      rw [ho] at henter
      exact Opening.declaresOnce_declare henter d
    · exact henter
  | startTag tag | endTag tag => exact henter.piece _
  | comment data => exact henter.piece _
  | chars run => exact henter.runs _
  | null | eof => exact henter.piece _
  | flaw => exact henter

end Stage.DeclaresOnce

/-! ## Sessions -/

namespace Session

section

variable {P : Stage → Prop} (hP : ∀ s line t, P s → P (s.token line t).1) {s : Session}
include hP

/-- What each token keeps of the stage is kept when tokens are handed over. -/
theorem keeps_deliver (h : P s.stage) : P s.deliver.stage := by
  have hheed : ∀ (s : Session) signal, (s.heed signal).stage = s.stage := by
    intro s signal
    rcases signal with _ | (_ | _ | _) <;> rfl
  unfold deliver
  split
  · exact h
  · generalize s.tokenizer.out = out
    induction out with
    | nil => exact h
    | cons e out ih =>
      rw [List.foldr_cons]
      generalize out.foldr _ _ = s' at ih
      exact (congrArg P (hheed _ _)).mpr (hP s'.stage e.1 e.2 ih)

theorem keeps_read (h : P s.stage) (c : Char) : P (s.read c).stage := by
  unfold read
  split
  · exact h
  · exact keeps_deliver hP h

theorem keeps_foldl_read (h : P s.stage) (cs : List Char) : P (cs.foldl read s).stage := by
  induction cs generalizing s with
  | nil => exact h
  | cons c cs ih => exact ih (keeps_read hP h c)

theorem keeps_feed (h : P s.stage) (piece : List Char) : P (s.feed piece).stage := by
  unfold feed
  split
  · exact h
  · exact keeps_deliver hP (keeps_foldl_read hP (s := { s with fresh := true }) h piece)

/-- What each token keeps of the stage is true of the stage in the end. -/
theorem keeps_finish (h : P s.stage) : ∃ stage, s.finish = stage.edits.toList ∧ P stage :=
  ⟨_, rfl, keeps_deliver hP h⟩

end

/-- **A source is given at most one doctype.** -/
theorem doctypes_feed_document (options : ParseOptions) (source : List Char) :
    (((document options).feed source).finish).countP Edit.isDoctype ≤ 1 := by
  have htoken : ∀ s line t, Stage.DeclaresOnce s → (s.token line t).1.DeclaresOnce :=
    fun _ line t h => h.token line t
  have hfeed : ((document options).feed source).stage.DeclaresOnce :=
    keeps_feed htoken (s := document options) (Nat.le_refl 0) source
  obtain ⟨stage, hfinish, hstage⟩ := keeps_finish htoken hfeed
  rw [hfinish]
  cases stage with
  | opening o =>
    refine Nat.le_trans hstage ?_
    split <;> omega
  | building b => exact hstage

end Session

/-! ## Doctypes in documents -/

namespace Dom

variable {d d' : Dom} {x id : NodeId}

/-- The doctypes of the second document are those of the first one, and stand where they stood. -/
def KeepsDoctypes (d d' : Dom) : Prop :=
  ∀ x, d'.kind? x = some .doctype → d.kind? x = some .doctype ∧ d'.parent? x = d.parent? x

theorem kind?_ne_doctype_of_isMovable (h : d.isMovable id = true) :
    d.kind? id ≠ some .doctype := by
  unfold isMovable at h
  unfold kind?
  split at h <;> simp_all [Content.kind?]

namespace KeepsDoctypes

protected theorem refl (d : Dom) : KeepsDoctypes d d := fun _ h => ⟨h, rfl⟩

theorem skip (h : KeepsDoctypes d d') : KeepsDoctypes d d'.skip := fun x hx => by
  rw [((Rearranges.refl d').skip).kind?] at hx
  exact ⟨(h x hx).1, (parent?_skip d' x).trans (h x hx).2⟩

theorem updateList (h : KeepsDoctypes d d') (p : Place) (f : Array NodeId → Array NodeId) :
    KeepsDoctypes d (d'.updateList p f) := fun x hx => by
  rw [((Rearranges.refl d').updateList p f).kind?] at hx
  exact ⟨(h x hx).1, (parent?_updateList d' p f x).trans (h x hx).2⟩

theorem setParent (h : KeepsDoctypes d d') (hid : d'.kind? id ≠ some .doctype)
    (p : Option Place) : KeepsDoctypes d (d'.setParent id p) := fun x hx => by
  rw [((Rearranges.refl d').setParent id p).kind?] at hx
  have hne : x ≠ id := by
    rintro rfl
    exact hid hx
  rw [parent?_setParent, if_neg hne]
  exact h x hx

theorem make (h : KeepsDoctypes d d') {c : Content} (hc : c.kind? ≠ some .doctype)
    (p : Option Place) : KeepsDoctypes d (d'.make c p) := fun x hx => by
  rw [kind?_make] at hx
  rw [parent?_make]
  split at hx
  · exact absurd hx hc
  · next hne =>
    rw [if_neg hne]
    exact h x hx

theorem unlink (h : KeepsDoctypes d d') (hid : d'.kind? id ≠ some .doctype) :
    KeepsDoctypes d (d'.unlink id) := by
  unfold Dom.unlink
  split
  · refine (h.updateList _ _).setParent ?_ none
    rwa [((Rearranges.refl d').updateList _ _).kind?]
  · exact h

theorem extendText (d : Dom) (id : NodeId) (value : String) :
    KeepsDoctypes d (d.extendText id value) := fun x hx => by
  rw [(Rearranges.extendText d id value).kind?] at hx
  refine ⟨hx, parent?_update (fun s => ?_) d id x⟩
  split <;> rfl

theorem addAttrs (d : Dom) (id : NodeId) (attrs : List Attribute) :
    KeepsDoctypes d (d.addAttrs id attrs) := fun x hx => by
  rw [(Rearranges.addAttrs d id attrs).kind?] at hx
  refine ⟨hx, parent?_update (fun s => ?_) d id x⟩
  split <;> rfl

theorem appendText (d : Dom) (p : Place) (value : String) :
    KeepsDoctypes d (d.appendText p value) := by
  unfold Dom.appendText
  dsimp only
  split
  · exact ((KeepsDoctypes.refl d).updateList p _).make (by simp [Content.kind?]) _
  · exact (KeepsDoctypes.refl d).skip

theorem append (d : Dom) (p : Place) (item : Item) : KeepsDoctypes d (d.append p item) := by
  cases item with
  | node id =>
    rw [Dom.append]
    split
    · next hok =>
      simp only [Bool.and_eq_true] at hok
      refine (((KeepsDoctypes.refl d).updateList p _).setParent ?_ _).skip
      rw [((Rearranges.refl d).updateList p _).kind?]
      exact kind?_ne_doctype_of_isMovable hok.1.2
    · exact (KeepsDoctypes.refl d).skip
  | text value =>
    rw [Dom.append]
    split
    · split
      · exact (extendText d _ value).skip
      · exact appendText d p value
    · exact appendText d p value

theorem insertText (d : Dom) (p : Place) (i : Nat) (value : String) :
    KeepsDoctypes d (d.insertText p i value) :=
  ((KeepsDoctypes.refl d).updateList p _).make (by simp [Content.kind?]) _

theorem insertBefore (d : Dom) (sibling : NodeId) (item : Item) :
    KeepsDoctypes d (d.insertBefore sibling item) := by
  unfold Dom.insertBefore
  split
  · exact (KeepsDoctypes.refl d).skip
  · cases item with
    | node id =>
      dsimp only
      split
      · next hmovable =>
        have hid := kind?_ne_doctype_of_isMovable hmovable
        refine ((((KeepsDoctypes.refl d).unlink hid).updateList _ _).setParent ?_ _).skip
        rwa [(((Rearranges.refl d).unlink id).updateList _ _).kind?]
      · exact (KeepsDoctypes.refl d).skip
    | text value =>
      dsimp only
      split
      · split
        · exact (extendText d _ value).skip
        · exact insertText d _ _ value
      · exact insertText d _ _ value

/-- Children of the document are not moved with others. -/
theorem moveChildren (h : d.Linked)
    (htop : ∀ x, d.kind? x = some .doctype → d.parent? x = some .document) {source : Place}
    (hsource : source ≠ .document) (target : Place) :
    KeepsDoctypes d (d.moveChildren source target) := by
  have hmoved : ∀ x ∈ d.list source, d.kind? x ≠ some .doctype := by
    intro x hx hdoctype
    have hparent := htop x hdoctype
    rw [h.parent? source x hx] at hparent
    exact hsource (Option.some.inj hparent)
  intro x hx
  rw [(Rearranges.moveChildren d source target).kind?] at hx
  refine ⟨hx, ?_⟩
  unfold Dom.moveChildren
  rw [← Array.foldl_toList, Linked.parent?_foldl_setParent, if_neg, parent?_updateList,
    parent?_updateList]
  exact fun hmem => hmoved x (Array.mem_toList_iff.1 hmem) hx

end KeepsDoctypes

/-- **No edit moves a doctype**, and only one sort of edit makes one. -/
theorem Linked.keepsDoctypes_apply (h : d.Linked)
    (htop : ∀ x, d.kind? x = some .doctype → d.parent? x = some .document) {e : Edit}
    (he : e.Fits d.nodes.size) (hdoctype : e.isDoctype = false) :
    KeepsDoctypes d (d.apply e) := by
  cases e with
  | line n => exact (KeepsDoctypes.refl d).skip
  | mode m => exact (KeepsDoctypes.refl d).skip
  | doctype dt => cases hdoctype
  | element | comment | instruction =>
    exact (KeepsDoctypes.refl d).make (by simp [Content.kind?]) none
  | append place item => exact .append d place item
  | insertBefore sibling item => exact .insertBefore d sibling item
  | foster table below item =>
    rw [Dom.apply, foster]
    split
    · exact .insertBefore d table item
    · exact .append d (.children below) item
  | addAttrs target attrs => exact (KeepsDoctypes.addAttrs d target attrs).skip
  | detach target =>
    rw [Dom.apply]
    split
    · next hmovable =>
      exact ((KeepsDoctypes.refl d).unlink (kind?_ne_doctype_of_isMovable hmovable)).skip
    · exact (KeepsDoctypes.refl d).skip
  | moveChildren source target => exact (KeepsDoctypes.moveChildren h htop he.1 target).skip

/-- **A doctype stands at the top**, and is the node of an edit that makes one. -/
theorem doctype_ofEdits {es : List Edit} (h : Fit es) {x : NodeId}
    (hx : (ofEdits es).kind? x = some .doctype) :
    (ofEdits es).parent? x = some .document ∧ ∃ e, es[x]? = some e ∧ e.isDoctype = true := by
  induction es using List.reverseRecOn generalizing x with
  | nil => simp [ofEdits, kind?, content?, slot?] at hx
  | append_singleton es e ih =>
    obtain ⟨hes, he⟩ := h.of_concat
    have hsize : (ofEdits es).nodes.size = es.length := size_ofEdits es
    have hold : (ofEdits es).kind? x = some .doctype →
        ∃ e', (es ++ [e])[x]? = some e' ∧ e'.isDoctype = true := by
      intro hx
      obtain ⟨-, e', he', hdoctype⟩ := ih hes hx
      refine ⟨e', ?_, hdoctype⟩
      rw [List.getElem?_append_left (List.getElem?_eq_some_iff.1 he').1, he']
    rw [ofEdits_concat] at hx ⊢
    by_cases hdoctype : e.isDoctype = true
    · obtain ⟨dt, rfl⟩ : ∃ dt, e = .doctype dt := by
        cases e with
        | doctype dt => exact ⟨dt, rfl⟩
        | _ => cases hdoctype
      have hmake := makes_updateList_make (ofEdits es) .document (·.push (ofEdits es).nodes.size)
        (.doctype dt) (some .document)
      rw [apply, hmake.kind?] at hx
      rw [apply, parent?_make, size_updateList, parent?_updateList]
      split at hx
      · next hnew =>
        subst hnew
        exact ⟨if_pos rfl, .doctype dt, by simp [hsize], rfl⟩
      · next hne =>
        rw [if_neg hne]
        exact ⟨(ih hes hx).1, hold hx⟩
    · have hfits : e.Fits (ofEdits es).nodes.size := by
        rw [hsize]
        exact h es.length e (by simp)
      have hkeeps := (linked_ofEdits hes).keepsDoctypes_apply (fun x hx => (ih hes hx).1) hfits
        (Bool.eq_false_iff.2 hdoctype)
      obtain ⟨hx, hparent⟩ := hkeeps x hx
      exact ⟨hparent.trans (ih hes hx).1, hold hx⟩

end Dom

end HtmlWalk.Html
