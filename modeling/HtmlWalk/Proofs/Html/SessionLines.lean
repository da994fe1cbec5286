import HtmlWalk.Html.Session
import HtmlWalk.Proofs.Html.Edits
import HtmlWalk.Proofs.Html.Notes
import HtmlWalk.Proofs.Html.TokenLines

/-!
# The lines that a session reports

Before the edits of a token, a session reports the line of the token. No other edit reports a line
(`lineNumbers_token`), since the tree builder makes no notes.

**Theorem (`Session.Numbered.finish`).** Lines count from one in all edits of a session.

The tokenizer starts on line one and its line only goes up, so this is an invariant of reading on:
it is about the line of the tokenizer, the tokens that wait, and the edits made so far.
-/

namespace HtmlWalk.Html

/-! ## Reports among edits -/

/-- The lines that some edits report, in order. -/
def lineNumbers (es : Array Edit) : List Nat := es.toList.filterMap Edit.line?

theorem Edit.line?_eq_some_iff {e : Edit} {n : Nat} : e.line? = some n ↔ e = .line n := by
  cases e <;> simp [Edit.line?]

theorem mem_lineNumbers {es : Array Edit} {n : Nat} : n ∈ lineNumbers es ↔ .line n ∈ es := by
  simp [lineNumbers, Edit.line?_eq_some_iff]

theorem lineNumbers_push (es : Array Edit) (e : Edit) :
    lineNumbers (es.push e) = lineNumbers es ++ e.line?.toList := by
  simp only [lineNumbers, Array.toList_push, List.filterMap_append]
  cases h : e.line? <;> simp [h]

/-- A report is a note. -/
theorem lineNumbers_of_notes {es es' : Array Edit} (h : notes es' = notes es) :
    lineNumbers es' = lineNumbers es := by
  have hnotes : ∀ es : Array Edit, lineNumbers es = (notes es).filterMap Edit.line? := by
    intro es
    unfold lineNumbers notes
    rw [List.filterMap_filter]
    refine List.filterMap_congr fun e _ => ?_
    cases e <;> rfl
  rw [hnotes, hnotes, h]

/-! ## Tokens -/

namespace Opening

theorem lineNumbers_emit (o : Opening) {e : Edit} (h : e.line? = none) :
    lineNumbers (o.emit e).edits = lineNumbers o.edits := by
  simp [emit, lineNumbers_push, h]

theorem lineNumbers_settle (o : Opening) (mode : Mode) :
    lineNumbers (o.settle mode).edits = lineNumbers o.edits :=
  o.lineNumbers_emit rfl

theorem lineNumbers_declare (o : Opening) (d : Declaration) :
    lineNumbers (o.declare d).edits = lineNumbers o.edits := by
  unfold declare
  split
  · rfl
  · rw [lineNumbers_settle, lineNumbers_emit _ rfl]

theorem lineNumbers_build (o : Opening) (attrs : List Attribute) :
    lineNumbers (o.build attrs).edits = lineNumbers o.edits := by
  unfold build
  dsimp only
  rw [lineNumbers_push, lineNumbers_push]
  split
  · simp [Edit.line?]
  · simp [Edit.line?, lineNumbers_settle]

theorem lineNumbers_piece (o : Opening) (p : Piece) :
    lineNumbers (o.piece p).1.edits = lineNumbers o.edits := by
  have hbuild : lineNumbers (piece.build o p).1.edits = lineNumbers o.edits :=
    (lineNumbers_of_notes ((o.build []).notes_piece p)).trans (o.lineNumbers_build [])
  unfold piece
  dsimp only
  split
  · rfl
  · exact (lineNumbers_emit _ rfl).trans (o.lineNumbers_emit rfl)
  · split
    · exact o.lineNumbers_build _
    · exact hbuild
  · split
    · exact hbuild
    · show lineNumbers (if o.layout.isSome then o else o.settle .quirks).edits = _
      split
      · rfl
      · exact o.lineNumbers_settle .quirks
  all_goals exact hbuild

end Opening

namespace Stage

theorem lineNumbers_piece (s : Stage) (p : Piece) :
    lineNumbers (s.piece p).1.edits = lineNumbers s.edits := by
  cases s with
  | opening o => exact o.lineNumbers_piece p
  | building b => exact lineNumbers_of_notes (b.notes_piece p)

theorem lineNumbers_runs (s : Stage) (ps : List Piece) :
    lineNumbers (s.runs ps).edits = lineNumbers s.edits := by
  induction ps generalizing s with
  | nil => rfl
  | cons p ps ih =>
    unfold runs
    split
    · rw [ih, lineNumbers_piece]
    · exact s.lineNumbers_piece _

theorem lineNumbers_enter (s : Stage) (line : Nat) :
    lineNumbers (s.enter line).1.edits = lineNumbers s.edits ++ [line] := by
  cases s <;> exact lineNumbers_push _ _

/-- A token reports its line, and nothing else does. -/
theorem lineNumbers_token (s : Stage) (line : Nat) (token : Token) :
    lineNumbers (s.token line token).1.edits = lineNumbers s.edits ++ [line] := by
  rw [← s.lineNumbers_enter line]
  unfold Stage.token
  dsimp only
  cases token with
  | declaration d =>
    dsimp only
    split
    · next o ho => rw [ho]; exact o.lineNumbers_declare d
    · rfl
  | startTag tag | endTag tag => exact lineNumbers_piece _ _
  | comment data => exact lineNumbers_piece _ _
  | chars run => exact lineNumbers_runs _ _
  | null | eof => exact lineNumbers_piece _ _
  | flaw => rfl

end Stage

/-! ## Sessions -/

/-- The tokenizer is on a line from one on, and so are the tokens that wait. -/
structure Tokenizer.Numbered (t : Tokenizer) : Prop where
  /-- The line that has been reached. -/
  line : 1 ≤ t.line
  /-- The tokens that wait. -/
  out : ∀ e ∈ t.out, 1 ≤ e.1

theorem Tokenizer.Numbered.advances {t t' : Tokenizer} (h : t.Numbered) (h' : t.Advances t') :
    t'.Numbered := by
  obtain ⟨new, hnew, hbetween⟩ := h'.out
  have hline := h.line
  refine ⟨Nat.le_trans hline h'.line, fun e he => ?_⟩
  rw [hnew] at he
  rcases List.mem_append.1 he with he | he
  · exact Nat.le_trans hline (hbetween e he).1
  · exact h.out e he

namespace Session

/-- Lines count from one wherever they occur in a session. -/
structure Numbered (s : Session) : Prop where
  /-- In the tokenizer. -/
  tokenizer : s.tokenizer.Numbered
  /-- In the edits. -/
  edits : ∀ n ∈ lineNumbers s.stage.edits, 1 ≤ n

variable {s : Session}

theorem numbered_document (options : ParseOptions) : (document options).Numbered :=
  ⟨⟨Nat.le_refl 1, nofun⟩, nofun⟩

theorem numbered_fragment (options : ParseOptions) : (fragment options).Numbered :=
  ⟨⟨Nat.le_refl 1, nofun⟩, nofun⟩

namespace Numbered

theorem heed (h : s.Numbered) (signal : Option Signal) : (s.heed signal).Numbered := by
  unfold Session.heed
  split
  · exact h
  · exact ⟨h.tokenizer.advances ((Tokenizer.Advances.refl _).goto _), h.edits⟩
  · exact ⟨h.tokenizer.advances ((Tokenizer.Advances.refl _).goto _), h.edits⟩
  · exact ⟨h.tokenizer.advances (Tokenizer.Advances.refl _).pause, h.edits⟩

theorem token (h : s.Numbered) {line : Nat} (hline : 1 ≤ line) (token : Token) :
    (s.token line token).Numbered := by
  obtain ⟨tokenizer, stage, fresh⟩ := s
  have hstage : (Session.mk tokenizer (stage.token line token).1 fresh).Numbered := by
    refine ⟨h.tokenizer, fun n hn => ?_⟩
    rw [stage.lineNumbers_token line token] at hn
    rcases List.mem_append.1 hn with hn | hn
    · exact h.edits n hn
    · rwa [List.mem_singleton.1 hn]
  exact hstage.heed _

theorem deliver (h : s.Numbered) : s.deliver.Numbered := by
  unfold Session.deliver
  split
  · exact h
  · have hout := h.tokenizer.out
    generalize s.tokenizer.out = out at hout
    induction out with
    | nil => exact ⟨⟨h.tokenizer.line, nofun⟩, h.edits⟩
    | cons e out ih =>
      have hrest := ih fun e' he' => hout e' (List.mem_cons_of_mem e he')
      exact hrest.token (hout e List.mem_cons_self) e.2

/-- The session after its tokenizer has read on. -/
theorem advances (h : s.Numbered) {t : Tokenizer} (ht : s.tokenizer.Advances t) (fresh : Bool) :
    (Session.mk t s.stage fresh).Numbered :=
  ⟨h.tokenizer.advances ht, h.edits⟩

theorem read (h : s.Numbered) (c : Char) : (s.read c).Numbered := by
  unfold Session.read
  split
  · exact ⟨h.tokenizer, h.edits⟩
  · exact (h.advances ((Tokenizer.Advances.refl _).step _ c) false).deliver

theorem foldl_read (h : s.Numbered) (cs : List Char) : (cs.foldl Session.read s).Numbered := by
  induction cs generalizing s with
  | nil => exact h
  | cons c cs ih => exact ih (h.read c)

theorem feed (h : s.Numbered) (piece : List Char) : (s.feed piece).Numbered := by
  unfold Session.feed
  split
  · exact h
  · have hread := foldl_read (s := { s with fresh := true }) ⟨h.tokenizer, h.edits⟩ piece
    exact (hread.advances (Tokenizer.Advances.refl _).pause _).deliver

/-- **Lines count from one** in all edits of a session. -/
theorem finish (h : s.Numbered) : ∀ n, .line n ∈ s.finish → 1 ≤ n := by
  intro n hn
  have hend := (h.advances (Tokenizer.Advances.refl _).finish s.fresh).deliver
  exact hend.edits n (mem_lineNumbers.2 (Array.mem_toList_iff.1 hn))

end Numbered

end Session

end HtmlWalk.Html
