import HtmlWalk.Html.Stage
import HtmlWalk.Proofs.Html.Mirror.Characters

/-!
# Stages that mirror each other

What is said of builders is said here of the stages of a document, the opening among them: two
stages that mirror each other still do so after a token (`Stage.Mirrored.token`), on whatever lines
the token is read.

A run of characters is cut into pieces, and these can be cut further. So it makes no difference
whether the characters come in one token or in one token each:

**Theorem (`Stage.Mirrored.chars`).** Characters are dealt with one by one.
-/

namespace HtmlWalk.Html

/-! ## Lines -/

/-- Both sequences are told of a line. -/
theorem Echo.lines {f : Nat → Nat} {es es' : Array Edit} (h : Echo f es es') (m n : Nat) :
    Echo f (es.push (.line m)) (es'.push (.line n)) := by
  have hpush := h.push (e := .line m) trivial
  have hdom := hpush.dom
  refine { hpush with next := fun k => by simpa using hpush.next k, dom := ?_ }
  rw [Dom.ofEdits_push, Dom.ofEdits_push] at hdom ⊢
  exact hdom

/-! ## Openings -/

namespace Opening

/-- The second opening is the first one with other names for the nodes. -/
structure Mirrors (f : Nat → Nat) (o o' : Opening) : Prop where
  /-- The edits make the same document. -/
  echo : Echo f o.edits o'.edits
  scripting : o'.scripting = o.scripting
  layout : o'.layout = o.layout

namespace Mirrors

variable {f g : Nat → Nat} {o o' o'' : Opening} (h : Mirrors f o o')

protected theorem refl (hedits : Dom.Fit o.edits.toList) : Mirrors id o o :=
  ⟨.refl hedits, rfl, rfl⟩

include h

theorem left : Mirrors id o o := .refl h.echo.fit

protected theorem trans (h' : Mirrors g o' o'') : Mirrors (g ∘ f) o o'' :=
  ⟨h.echo.trans h'.echo, h'.scripting.trans h.scripting, h'.layout.trans h.layout⟩

theorem emit {e : Edit} (he : e.Fits o.edits.size) : Mirrors f (o.emit e) (o'.emit (e.rename f)) :=
  { h with echo := h.echo.push he }

theorem settle (mode : Mode) : Mirrors f (o.settle mode) (o'.settle mode) :=
  { h.emit (e := .mode mode) trivial with layout := rfl }

/-- The layout mode is decided in both. -/
theorem decided : Mirrors f (if o.layout.isSome then o else o.settle .quirks)
    (if o'.layout.isSome then o' else o'.settle .quirks) := by
  rw [h.layout]
  split
  · exact h
  · exact h.settle .quirks

theorem emit_append {e : Edit} (he : e.Fits o.edits.size) :
    Echo f ((o.edits.push e).push (.append .document (.node o.edits.size)))
      ((o'.edits.push (e.rename f)).push (.append .document (.node o'.edits.size))) := by
  rw [← h.echo.next_size]
  exact (h.echo.push he).push (e := .append .document (.node _)) ⟨trivial, by simp [Item.Within]⟩

theorem putComment (data : String) : Mirrors f (o.putComment data) (o'.putComment data) :=
  { h with echo := h.emit_append (e := .comment data) trivial }

theorem declare (d : Declaration) : Mirrors f (o.declare d) (o'.declare d) := by
  unfold Opening.declare
  rw [h.layout]
  split
  · exact h
  · exact (h.emit (e := .doctype d.doctype) trivial).settle d.mode

theorem build (attrs : List Attribute) : (o.build attrs).Mirrors f (o'.build attrs) := by
  have h := h.decided
  unfold Opening.build
  dsimp only
  generalize (if o.layout.isSome then o else o.settle .quirks) = o at h ⊢
  generalize (if o'.layout.isSome then o' else o'.settle .quirks) = o' at h ⊢
  exact {
    echo := h.emit_append (e := .element _ _) trivial
    fit := {
      root := by
        have hlt : o.edits.size < o.edits.size + 1 + 1 := by omega
        simp [hlt]
      root_name := rfl
      stack := nofun
      formatting := nofun
      head := nofun
      form := nofun
      resume := rfl
      templates := nofun }
    scripting := h.scripting
    fragment := rfl
    layout := by rw [h.layout]
    root := by rw [Open.rename, h.echo.next_size]
    stack := rfl
    mode := rfl
    resume := rfl
    templates := rfl
    formatting := rfl
    head := rfl
    form := rfl
    framesetOk := rfl
    dropBreak := rfl
    fostering := rfl
    tableText := .nil }

end Mirrors

end Opening

/-! ## Stages -/

namespace Stage

/-- The second stage is the first one with some other names for the nodes, and with characters in
smaller parts. -/
inductive Mirrored : Stage → Stage → Prop
  | opening {f : Nat → Nat} {o o' : Opening} (h : o.Mirrors f o') :
    Mirrored (opening o) (opening o')
  | building {b b' : Builder} (h : b.Mirrored b') : Mirrored (building b) (building b')

/-- Whether a line feed that comes next is dropped. -/
def dropBreak : Stage → Bool
  | opening _ => false
  | building b => b.dropBreak

namespace Mirrored

variable {s s' s'' : Stage} (h : s.Mirrored s')
include h

/-- The first stage mirrors itself. -/
theorem left : s.Mirrored s := by
  cases h with
  | opening h => exact .opening h.left
  | building h => exact .building h.left

protected theorem trans (h' : s'.Mirrored s'') : s.Mirrored s'' := by
  cases h with
  | opening h =>
    cases h' with
    | opening h' => exact .opening (h.trans h')
  | building h =>
    cases h' with
    | building h' => exact .building (h.trans h')

/-- The edits make the same document. -/
theorem echo : ∃ f, Echo f s.edits s'.edits := by
  cases h with
  | opening h => exact ⟨_, h.echo⟩
  | building h =>
    obtain ⟨f, h⟩ := h
    exact ⟨f, h.echo⟩

theorem inForeign : s'.inForeign = s.inForeign := by
  cases h with
  | opening h => rfl
  | building h =>
    obtain ⟨f, h⟩ := h
    exact h.inForeign

theorem splitsText : s'.splitsText = s.splitsText := by
  cases h with
  | opening h => rfl
  | building h =>
    obtain ⟨f, h⟩ := h
    exact h.splitsText

theorem dropBreak : s'.dropBreak = s.dropBreak := by
  cases h with
  | opening h => rfl
  | building h =>
    obtain ⟨f, h⟩ := h
    exact h.dropBreak

/-! ### Pieces -/

theorem piece (p : Piece) :
    (s.piece p).1.Mirrored (s'.piece p).1 ∧ (s'.piece p).2 = (s.piece p).2 := by
  cases h with
  | building h =>
    obtain ⟨hpiece, hsignal⟩ := h.piece p
    exact ⟨.building hpiece, hsignal⟩
  | @opening f o o' h =>
    have hbuild : (Opening.piece.build o p).1.Mirrored (Opening.piece.build o' p).1 ∧
        (Opening.piece.build o' p).2 = (Opening.piece.build o p).2 := by
      obtain ⟨hpiece, hsignal⟩ := Builder.Mirrored.piece ⟨f, h.build []⟩ p
      exact ⟨.building hpiece, hsignal⟩
    cases p with
    | space run => exact ⟨.opening h, rfl⟩
    | comment data => exact ⟨.opening (h.putComment data), rfl⟩
    | startTag tag =>
      simp only [Stage.piece, Opening.piece]
      split
      · exact ⟨.building ⟨f, h.build tag.attrs⟩, rfl⟩
      · exact hbuild
    | endTag tag =>
      simp only [Stage.piece, Opening.piece]
      split
      · exact hbuild
      · exact ⟨.opening h.decided, rfl⟩
    | chars run | null | eof => exact hbuild

theorem runs (ps : List Piece) : (s.runs ps).Mirrored (s'.runs ps) := by
  induction ps generalizing s s' with
  | nil => exact h
  | cons p ps ih =>
    rw [Stage.runs, Stage.runs, h.splitsText]
    split
    · exact ih (h.piece p).1
    · exact (h.piece _).1

/-! ### Lines -/

/-- Both stages take note of a line. -/
theorem enter (m n : Nat) :
    (s.enter m).1.Mirrored (s'.enter n).1 ∧ (s'.enter n).2 = (s.enter m).2 := by
  cases h with
  | opening h => exact ⟨.opening { h with echo := h.echo.lines m n }, rfl⟩
  | @building b b' h =>
    obtain ⟨f, h⟩ := h
    have hemit := h.emit (e := .line m) trivial
    exact ⟨.building ⟨f, { hemit with
      echo := h.echo.lines m n, dropBreak := rfl, fit := { hemit.fit with } }⟩, h.dropBreak⟩

/-- The second stage takes note of a line. -/
theorem enter_right (hdrop : s.dropBreak = false) (n : Nat) : s.Mirrored (s'.enter n).1 := by
  cases h with
  | opening h =>
    obtain ⟨g, -, hg⟩ := h.echo.line n
    exact .opening { h with echo := hg }
  | @building b b' h =>
    obtain ⟨f, h⟩ := h
    obtain ⟨g, hg, hecho⟩ := h.echo.line n
    have hdrop' : b'.dropBreak = false := h.dropBreak.trans hdrop
    refine .building ⟨g, h.congr hg hecho ?_⟩
    rw [← hdrop']
    rfl

/-! ### Tokens -/

/-- **Tokens are dealt with alike.** -/
theorem token (m n : Nat) (t : Token) :
    (s.token m t).1.Mirrored (s'.token n t).1 ∧ (s'.token n t).2 = (s.token m t).2 := by
  obtain ⟨henter, hdrop⟩ := h.enter m n
  unfold Stage.token
  dsimp only
  rw [hdrop]
  generalize (s.enter m).1 = u at henter ⊢
  generalize (s'.enter n).1 = u' at henter ⊢
  cases t with
  | declaration d =>
    cases henter with
    | opening h => exact ⟨.opening (h.declare d), rfl⟩
    | building h => exact ⟨.building h, rfl⟩
  | startTag tag | endTag tag => exact henter.piece _
  | comment data => exact henter.piece _
  | chars run => exact ⟨henter.runs _, rfl⟩
  | null | eof => exact henter.piece _
  | flaw => exact ⟨henter, rfl⟩

end Mirrored

/-! ## Characters one by one -/

variable {s s' : Stage}

theorem space_append (h : s.Mirrored s) (hsplits : s.splitsText = true) (x y : List Char) :
    (s.piece (.space (x ++ y))).1.Mirrored ((s.piece (.space x)).1.piece (.space y)).1 := by
  cases s with
  | opening o => exact h
  | building b =>
    cases h with
    | building h => exact .building (Builder.space_append h hsplits x y)

theorem chars_append (h : s.Mirrored s) (x y : List Char) :
    (s.piece (.chars (x ++ y))).1.Mirrored ((s.piece (.chars x)).1.piece (.chars y)).1 := by
  cases h with
  | opening h => exact .building (Builder.chars_append ⟨_, (h.build []).left⟩ x y)
  | building h => exact .building (Builder.chars_append h x y)

theorem splitsText_space (hsplits : s.splitsText = true) (x : List Char) :
    (s.piece (.space x)).1.splitsText = true := by
  cases s with
  | opening o => rfl
  | building b => exact Builder.splitsText_space hsplits x

theorem splitsText_chars (h : s.Mirrored s) (hsplits : s.splitsText = false) (x : List Char) :
    (s.piece (.chars x)).1.splitsText = false := by
  cases h with
  | opening h => cases hsplits
  | building h => exact Builder.splitsText_chars h hsplits x

theorem dropBreak_space (hsplits : s.splitsText = true) (x : List Char) :
    (s.piece (.space x)).1.dropBreak = s.dropBreak := by
  cases s with
  | opening o => rfl
  | building b => exact Builder.dropBreak_space hsplits x

theorem dropBreak_chars (h : s.Mirrored s) (x : List Char) :
    (s.piece (.chars x)).1.dropBreak = s.dropBreak := by
  cases h with
  | opening h => exact Builder.dropBreak_chars ⟨_, (h.build []).left⟩ x
  | building h => exact Builder.dropBreak_chars h x

theorem dropBreak_enter (s : Stage) (line : Nat) : (s.enter line).1.dropBreak = false := by
  cases s <;> rfl

/-- Deal with one character. -/
def atom (s : Stage) (c : Char) : Stage := s.runs (splitRuns [c])

theorem atom_of_space {c : Char} (hsplits : s.splitsText = true) (hc : isSpace c = true) :
    s.atom c = (s.piece (.space [c])).1 := by
  simp [atom, splitRuns, runs, hsplits, hc]

theorem atom_of_chars {c : Char} (h : s.splitsText = false ∨ isSpace c = false) :
    s.atom c = (s.piece (.chars [c])).1 := by
  have hrun : ∀ p : Piece, p.run = [c] → s.splitsText = false →
      s.runs [p] = (s.piece (.chars [c])).1 := by
    intro p hp hsplits
    simp [runs, hsplits, hp]
  cases hsplits : s.splitsText with
  | false =>
    cases hc : isSpace c <;> simp only [atom, splitRuns, hc] <;> exact hrun _ rfl hsplits
  | true =>
    have hc : isSpace c = false := h.resolve_left (by simp [hsplits])
    simp [atom, splitRuns, runs, hsplits, hc]

theorem dropBreak_atom (h : s.Mirrored s) (c : Char) : (s.atom c).dropBreak = s.dropBreak := by
  by_cases hc : s.splitsText = true ∧ isSpace c = true
  · rw [atom_of_space hc.1 hc.2, dropBreak_space hc.1]
  · rw [atom_of_chars (by grind), dropBreak_chars h]

theorem Mirrored.foldl_atom (h : s.Mirrored s') (run : List Char) :
    (run.foldl atom s).Mirrored (run.foldl atom s') := by
  induction run generalizing s s' with
  | nil => exact h
  | cons c run ih => exact ih (h.runs _)

/-- A piece is dealt with like its characters, if they are all dealt with as such pieces. -/
theorem Mirrored.piece_atoms {kind : List Char → Piece} {P : Stage → Prop}
    (hP : ∀ {s : Stage}, s.Mirrored s → P s → ∀ x, P (s.piece (kind x)).1)
    (happend : ∀ {s : Stage}, s.Mirrored s → P s → ∀ x y,
      (s.piece (kind (x ++ y))).1.Mirrored ((s.piece (kind x)).1.piece (kind y)).1)
    {run : List Char}
    (hatom : ∀ {s : Stage}, P s → ∀ c ∈ run, s.atom c = (s.piece (kind [c])).1)
    (hrun : run ≠ []) (h : s.Mirrored s) (hs : P s) :
    (s.piece (kind run)).1.Mirrored (run.foldl atom s) := by
  induction run generalizing s with
  | nil => exact absurd rfl hrun
  | cons c run ih =>
    rw [List.foldl_cons, hatom hs c List.mem_cons_self]
    cases run with
    | nil => exact (h.piece _).1
    | cons d run =>
      refine (happend h hs [c] (d :: run)).trans ?_
      exact ih (fun hs e he => hatom hs e (List.mem_cons_of_mem c he)) (List.cons_ne_nil d run)
        (h.piece _).1 (hP h hs [c])

/-- A piece of white space or of other characters, with at least one of them. -/
inductive IsRun : Piece → Prop
  | space {run : List Char} (hrun : run ≠ []) (h : ∀ c ∈ run, isSpace c = true) : IsRun (.space run)
  | chars {run : List Char} (hrun : run ≠ []) (h : ∀ c ∈ run, isSpace c = false) :
    IsRun (.chars run)

theorem isRun_of_mem_splitRuns {run : List Char} : ∀ p ∈ splitRuns run, IsRun p := by
  induction run with
  | nil => exact nofun
  | cons c run ih =>
    intro p hp
    unfold splitRuns at hp
    split at hp
    · next r pieces hc hr =>
      rcases List.mem_cons.1 hp with rfl | hp
      · have hfirst := ih (.space r) (by simp [hr])
        cases hfirst with
        | space _ h => exact .space (List.cons_ne_nil c r) (List.forall_mem_cons.2 ⟨hc, h⟩)
      · exact ih p (by simp [hr, hp])
    · next hc _ =>
      rcases List.mem_cons.1 hp with rfl | hp
      · exact .space (List.cons_ne_nil c []) (by simpa using hc)
      · exact ih p hp
    · next r pieces hc hr =>
      rcases List.mem_cons.1 hp with rfl | hp
      · have hfirst := ih (.chars r) (by simp [hr])
        cases hfirst with
        | chars _ h => exact .chars (List.cons_ne_nil c r) (List.forall_mem_cons.2 ⟨hc, h⟩)
      · exact ih p (by simp [hr, hp])
    · next hc _ =>
      rcases List.mem_cons.1 hp with rfl | hp
      · exact .chars (List.cons_ne_nil c []) (by simpa using hc)
      · exact ih p hp

theorem flatMap_run_splitRuns (run : List Char) : (splitRuns run).flatMap Piece.run = run := by
  fun_induction splitRuns run <;> simp_all [Piece.run]

/-- Runs are dealt with like their characters. -/
theorem Mirrored.runs_atoms (h : s.Mirrored s) {ps : List Piece} (hps : ∀ p ∈ ps, IsRun p) :
    (s.runs ps).Mirrored ((ps.flatMap Piece.run).foldl atom s) := by
  induction ps generalizing s with
  | nil => exact h
  | cons p ps ih =>
    have hp := hps p List.mem_cons_self
    have hps := fun q hq => hps q (List.mem_cons_of_mem p hq)
    unfold Stage.runs
    split
    · next hsplits =>
      refine (ih (h.piece p).1 hps).trans ?_
      rw [List.flatMap_cons, List.foldl_append]
      refine Mirrored.foldl_atom ?_ _
      cases hp with
      | space hrun hspace =>
        exact piece_atoms (P := (·.splitsText = true)) (fun _ hs => splitsText_space hs)
          space_append (fun hs c hc => atom_of_space hs (hspace c hc)) hrun h hsplits
      | chars hrun hchars =>
        exact piece_atoms (P := fun _ => True) (fun _ _ _ => trivial)
          (fun h _ => chars_append h) (fun _ c hc => atom_of_chars (.inr (hchars c hc))) hrun h
          trivial
    · next hsplits =>
      have hrun : (p :: ps).flatMap Piece.run ≠ [] := by
        cases hp <;> simp_all [Piece.run]
      exact piece_atoms (P := (·.splitsText = false)) splitsText_chars
        (fun h _ => chars_append h) (fun hs _ _ => atom_of_chars (.inl hs)) hrun h
        (by simpa using hsplits)

/-! ## Tokens of characters -/

/-- Deal with one character as a token. -/
def say (s : Stage) (c : Char) : Stage := (s.token 1 (.chars [c])).1

theorem snd_enter (s : Stage) (line : Nat) : (s.enter line).2 = s.dropBreak := by
  cases s <;> rfl

theorem Mirrored.say (h : s.Mirrored s') (hdrop : s.dropBreak = false) (c : Char) :
    (s.atom c).Mirrored (s'.say c) := by
  have hdrop' : (s'.enter 1).2 = false := by rw [snd_enter, h.dropBreak, hdrop]
  unfold Stage.say Stage.token
  dsimp only
  rw [hdrop', Bool.false_and]
  exact (h.enter_right hdrop 1).runs _

theorem Mirrored.foldl_say (h : s.Mirrored s') (hdrop : s.dropBreak = false) (run : List Char) :
    (run.foldl atom s).Mirrored (run.foldl Stage.say s') := by
  induction run generalizing s s' with
  | nil => exact h
  | cons c run ih => exact ih (h.say hdrop c) ((dropBreak_atom h.left c).trans hdrop)

/-- **Characters are dealt with one by one.** Only the first of them can be a line feed that is
dropped. -/
theorem Mirrored.chars (h : s.Mirrored s) (line : Nat) {run : List Char} (hrun : run ≠ []) :
    (s.token line (.chars run)).1.Mirrored (run.foldl Stage.say s) := by
  obtain ⟨c, rest, rfl⟩ := List.exists_cons_of_ne_nil hrun
  have henter := (h.enter line 1).1
  have hdrop := s.dropBreak_enter line
  have hruns : ∀ run, ((s.enter line).1.runs (splitRuns run)).Mirrored
      (run.foldl atom (s.enter line).1) := fun run => by
    simpa only [flatMap_run_splitRuns] using henter.left.runs_atoms isRun_of_mem_splitRuns
  rw [List.foldl_cons]
  unfold Stage.say Stage.token
  dsimp only
  rw [snd_enter, snd_enter, List.head?_cons, List.head?_cons]
  by_cases hbreak : (s.dropBreak && some c == some '\n') = true
  · rw [if_pos hbreak, if_pos hbreak]
    exact (hruns rest).trans (henter.foldl_say hdrop rest)
  · rw [if_neg hbreak, if_neg hbreak]
    exact (hruns (c :: rest)).trans
      ((henter.runs _).foldl_say ((dropBreak_atom henter.left c).trans hdrop) rest)

end Stage

end HtmlWalk.Html
