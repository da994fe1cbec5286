import Mathlib.Data.List.Infix
import HtmlWalk.Proofs.Html.StartTags

/-!
# Comments

A comment as it is written has its characters between `<!--` and `-->`.

**Theorem (`Session.Reads.comment`).** A session that reads such a comment after some text hands
over the text and then the comment, on the line where the comment ends.

Whether a dash belongs to a comment is not known until the next character comes, so the tokenizer is
in another state after a dash. A comment has no two dashes in a row and does not end in one
(`exists_said`), so it is read in steps after which all that has been read belongs to the comment
(`Tokenizer.InText.foldl_step_said`): a step is a character other than a dash, maybe with a dash
before it.
-/

namespace HtmlWalk.Html

/-- The characters of a comment: the comment does not end among them, and they are read as they
are. -/
structure IsCommentData (cs : List Char) : Prop where
  dashes : ¬['-', '-'] <:+: cs
  bracket : ¬['>'] <+: cs
  arrow : ¬['-', '>'] <+: cs
  last : ¬['-'] <:+ cs
  plain : ∀ c ∈ cs, c ≠ '\r' ∧ c ≠ '\x00'

instance (cs : List Char) : Decidable (IsCommentData cs) :=
  decidable_of_iff (¬['-', '-'] <:+: cs ∧ ¬['>'] <+: cs ∧ ¬['-', '>'] <+: cs ∧ ¬['-'] <:+ cs ∧
      cs.all (fun c => c != '\r' && c != '\x00') = true)
    ⟨fun ⟨hdashes, hbracket, harrow, hlast, hplain⟩ =>
      ⟨hdashes, hbracket, harrow, hlast, fun c hc => by simpa using List.all_eq_true.1 hplain c hc⟩,
    fun h => ⟨h.dashes, h.bracket, h.arrow, h.last,
      List.all_eq_true.2 fun c hc => by simpa using h.plain c hc⟩⟩

/-- The source of a comment. -/
def commentSource (cs : List Char) : List Char := '<' :: '!' :: '-' :: '-' :: cs ++ ['-', '-', '>']

/-- A comment goes on with a character other than a dash, maybe with a dash before it. -/
theorem exists_said {c : Char} {cs : List Char} (hdashes : ¬['-', '-'] <:+: c :: cs)
    (hlast : ¬['-'] <:+ c :: cs) : ∃ (dash : List Char) (d : Char) (rest : List Char),
      c :: cs = dash ++ d :: rest ∧ (dash = [] ∨ dash = ['-']) ∧ d ≠ '-' := by
  by_cases hc : c = '-'
  · subst hc
    cases cs with
    | nil => exact absurd List.suffix_rfl hlast
    | cons d rest =>
      refine ⟨['-'], d, rest, rfl, .inr rfl, ?_⟩
      rintro rfl
      exact hdashes (List.prefix_append ['-', '-'] rest).isInfix
  · exact ⟨[], c, cs, rfl, .inl rfl, hc⟩

theorem lineBreaks_commentSource (cs : List Char) :
    lineBreaks (commentSource cs) = lineBreaks cs := by
  simp [commentSource, lineBreaks]

/-- Whether a comment is being read, and all that has been read belongs to it. -/
def State.isSaid : State → Bool
  | commentStart | comment => true
  | _ => false

/-- The state after a dash that is not yet known to belong to the comment. -/
def State.dashed : State → State
  | commentStart => commentStartDash
  | _ => commentEndDash

namespace Tokenizer

/-- The tokenizer somewhere in a comment. -/
def inComment (t : Tokenizer) (line : Nat) (state : State) (comment : String) : Tokenizer :=
  { t with line, state, comment }

namespace InText

variable {t : Tokenizer} (h : t.InText) (hrun : t.run = []) (foreign : Bool)
include h hrun

theorem step_inComment (line : Nat) {state : State}
    (hstate : state ≠ .markup ∧ state ≠ .afterDoctypeName ∧ state ≠ .beforeAttrValue)
    (comment : String) {c : Char} (hc : c ≠ '\r') :
    (t.inComment line state comment).step foreign c =
      (t.inComment (line + lineBreaks [c]) state comment).accept c t.exact := by
  have h' : Tokenizer.InText { t with comment } := { h with }
  exact h'.step_inTag hrun foreign line hstate t.draft hc

/-- What stands before the characters of a comment. -/
theorem foldl_step_opening (line : Nat) :
    ['!', '-', '-'].foldl (·.step foreign ·) (t.inComment line .tagOpen t.comment) =
      t.inComment line .commentStart "" := by
  have hmark : (t.inComment line .tagOpen t.comment).step foreign '!' =
      t.inComment line .markup t.comment := by
    rw [h.step_inComment hrun foreign line (by decide) _ (by decide)]
    simp [accept, inComment, readTagOpen, goto, lineBreaks]
  rw [List.foldl_cons, hmark]
  obtain ⟨exact, state, line, afterReturn, alone, run⟩ := t
  obtain ⟨rfl, rfl, rfl, rfl, rfl, rfl⟩ := h
  rfl

/-- A dash. -/
theorem step_dash {state : State} (hstate : state.isSaid = true) (line : Nat) (comment : String) :
    (t.inComment line state comment).step foreign '-' =
      t.inComment line state.dashed comment := by
  cases state with
  | commentStart | comment =>
    rw [h.step_inComment hrun foreign line (by decide) comment (by decide)]
    simp [accept, inComment, readComment, goto, State.dashed, lineBreaks]
  | _ => cases hstate

/-- A character other than a dash, maybe with a dash before it. -/
theorem foldl_step_said {state : State} (hstate : state.isSaid = true) (line : Nat)
    (comment : String) {dash : List Char} (hdash : dash = [] ∨ dash = ['-']) {c : Char}
    (hc : c ≠ '\r' ∧ c ≠ '\x00') (hne : c ≠ '-') (hbracket : state = .commentStart → c ≠ '>') :
    (dash ++ [c]).foldl (·.step foreign ·) (t.inComment line state comment) =
      t.inComment (line + lineBreaks [c]) .comment (comment ++ String.ofList (dash ++ [c])) := by
  have hnull : orReplacement c = c := if_neg (by simpa using hc.2)
  rcases hdash with rfl | rfl
  · rw [List.nil_append, List.foldl_cons, List.foldl_nil]
    cases state with
    | commentStart | comment =>
      rw [h.step_inComment hrun foreign line (by decide) comment hc.1]
      simp_all [accept, inComment, readComment, readOnComment, say, goto]
    | _ => cases hstate
  · rw [List.cons_append, List.nil_append, List.foldl_cons, h.step_dash hrun foreign hstate,
      List.foldl_cons, List.foldl_nil]
    cases state with
    | commentStart | comment =>
      simp only [State.dashed]
      rw [h.step_inComment hrun foreign line (by decide) comment hc.1]
      simp_all [accept, inComment, readComment, readOnComment, say, goto]
    | _ => cases hstate

/-- The dashes at the end of a comment. -/
theorem foldl_step_dashes {state : State} (hstate : state.isSaid = true) (line : Nat)
    (comment : String) : ['-', '-'].foldl (·.step foreign ·) (t.inComment line state comment) =
      t.inComment line .commentEnd comment := by
  rw [List.foldl_cons, h.step_dash hrun foreign hstate, List.foldl_cons, List.foldl_nil]
  cases state with
  | commentStart | comment =>
    simp only [State.dashed]
    rw [h.step_inComment hrun foreign line (by decide) comment (by decide)]
    simp [accept, inComment, readComment, goto, lineBreaks]
  | _ => cases hstate

/-- The end of a comment. -/
theorem step_end (line : Nat) (comment : String) :
    (t.inComment line .commentEnd comment).step foreign '>' =
      { t with line, comment := "", out := [(line, .comment comment)] } := by
  rw [h.step_inComment hrun foreign line (by decide) comment (by decide)]
  simp [accept, inComment, readComment, emitComment, emit, lineBreaks, h.state, h.out]

/-- The characters of a comment. Only at its start it matters whether one is a bracket. -/
theorem foldl_step_data {cs : List Char} {state : State} (hstate : state.isSaid = true)
    (hstart : state = .commentStart → ¬['>'] <+: cs ∧ ¬['-', '>'] <+: cs)
    (hdashes : ¬['-', '-'] <:+: cs) (hlast : ¬['-'] <:+ cs)
    (hplain : ∀ c ∈ cs, c ≠ '\r' ∧ c ≠ '\x00') (line : Nat) (comment : String) :
    ∃ state' : State, state'.isSaid = true ∧
      cs.foldl (·.step foreign ·) (t.inComment line state comment) =
        t.inComment (line + lineBreaks cs) state' (comment ++ String.ofList cs) := by
  have hsaid : State.comment.isSaid = true := rfl
  -- A step may take two characters, hence the induction on the length.
  induction hn : cs.length using Nat.strong_induction_on generalizing cs state line comment with
  | _ n ih =>
    subst hn
    cases cs with
    | nil =>
      refine ⟨state, hstate, ?_⟩
      rw [String.ofList_nil, String.append_empty]
      rfl
    | cons c cs =>
      obtain ⟨dash, d, rest, hsplit, hdash, hd⟩ := exists_said hdashes hlast
      rw [hsplit] at hstart hdashes hlast hplain ih ⊢
      have hrest : rest <:+ dash ++ d :: rest := ⟨dash ++ [d], by simp⟩
      have hbracket : state = .commentStart → d ≠ '>' := by
        rintro hs rfl
        rcases hdash with rfl | rfl
        · exact (hstart hs).1 (List.prefix_append ['>'] rest)
        · exact (hstart hs).2 (List.prefix_append ['-', '>'] rest)
      have hstep := h.foldl_step_said hrun foreign hstate line comment hdash
        (hplain d (by simp)) hd hbracket
      have hshort : rest.length < (dash ++ d :: rest).length := by
        simp only [List.length_append, List.length_cons]
        omega
      obtain ⟨state', hstate', hread⟩ := ih rest.length hshort hsaid (by simp)
        (fun hin => hdashes (hin.trans hrest.isInfix)) (fun hin => hlast (hin.trans hrest))
        (fun c hc => hplain c (hrest.subset hc)) (line + lineBreaks [d])
        (comment ++ String.ofList (dash ++ [d])) rfl
      have hbreaks : lineBreaks (dash ++ d :: rest) = lineBreaks [d] + lineBreaks rest := by
        rw [lineBreaks_append, lineBreaks_cons]
        rcases hdash with rfl | rfl <;> exact Nat.zero_add _
      have happend : dash ++ d :: rest = dash ++ [d] ++ rest := by simp
      have hofList : String.ofList (dash ++ d :: rest) =
          String.ofList (dash ++ [d]) ++ String.ofList rest := by
        rw [happend, String.ofList_append]
      refine ⟨state', hstate', ?_⟩
      rw [hbreaks, hofList, happend, List.foldl_append, hstep, hread, String.append_assoc,
        Nat.add_assoc]

/-- **A comment between its brackets.** -/
theorem foldl_step_comment {cs : List Char} (hcs : IsCommentData cs) (line : Nat) :
    ('!' :: '-' :: '-' :: cs ++ ['-', '-']).foldl (·.step foreign ·)
        (t.inComment line .tagOpen t.comment) =
      t.inComment (line + lineBreaks cs) .commentEnd (String.ofList cs) := by
  have hsaid : State.commentStart.isSaid = true := rfl
  obtain ⟨state, hstate, hdata⟩ := h.foldl_step_data hrun foreign hsaid
    (fun _ => ⟨hcs.bracket, hcs.arrow⟩) hcs.dashes hcs.last hcs.plain line ""
  have hsplit : '!' :: '-' :: '-' :: cs ++ ['-', '-'] = ['!', '-', '-'] ++ cs ++ ['-', '-'] := rfl
  rw [hsplit, List.foldl_append, List.foldl_append, h.foldl_step_opening hrun foreign line, hdata,
    h.foldl_step_dashes hrun foreign hstate, String.empty_append]

end InText

end Tokenizer

/-! ## Sessions -/

namespace Session

/-- **A comment after some text.** The text has become tokens, and the comment is handed over on the
line where it ends. -/
theorem Reads.comment {t : Tokenizer} {b : Builder} {id : NodeId} {line : Nat} {text : List Char}
    {start : Option Nat} {s : Session} (hb : b.TakesText id) (ht : t.InText)
    (h : Reads t b id line text start s) {cs : List Char} (hcs : IsCommentData cs) :
    ∃ (chunks : List Chunk) (ok : Bool), written chunks = text ∧ startLine? chunks = start ∧
      (commentSource cs).foldl read s = token
        ⟨{ t with line := line + lineBreaks cs, run := [], comment := "" },
          .building (b.wrote ok (writes id chunks)), false⟩
        (line + lineBreaks cs) (.comment (String.ofList cs)) := by
  obtain ⟨chunks, ok, rfl, rfl, hbracket⟩ := h.bracket hb ht
  set stage := Stage.building (b.wrote ok (writes id chunks)) with hstage
  refine ⟨chunks, ok, rfl, rfl, ?_⟩
  have hrest : Tokenizer.InText { t with line, run := [] } := { ht with }
  have hcomment := hrest.foldl_step_comment rfl stage.inForeign hcs line
  have hopen : s.read '<' =
      ⟨Tokenizer.inComment { t with line, run := [] } line .tagOpen t.comment, stage, false⟩ :=
    hbracket
  have hsilent := foldl_read_of_out stage ((congrArg Tokenizer.out hcomment).trans ht.out)
  rw [hcomment] at hsilent
  have hfold : (commentSource cs).foldl read s =
      (('!' :: '-' :: '-' :: cs ++ ['-', '-']).foldl read (s.read '<')).read '>' := by
    simp [commentSource]
  rw [hfold, hopen, hsilent, read_of_not_fresh rfl, hrest.step_end rfl, deliver_eq]
  dsimp only [List.foldr_cons, List.foldr_nil]
  rw [← ht.out]

end Session

end HtmlWalk.Html
