import HtmlWalk.Proofs.Html.ElementBetween
import HtmlWalk.Proofs.Html.Mirror.Session

/-!
# Plain text

In a source of plain text a character is written as itself or as a reference with its number. A
session that reads such a source goes on from where it is, but for the line, the run under
construction and the edits that put characters into one element (`Session.Reads`).

**Theorem (`Session.Reads.writtenText`).** The characters that have been read are the written ones.
The text starts on the line where its first character has been read, less the line break that this
character may be.

How the characters are cut into tokens depends on the options. The line of the text does not: a
character that joins a run takes its line break along, so what is taken off the line of the token
grows with it (`Tokenizer.startLine?_pending_cons`).
-/

namespace HtmlWalk.Html

/-! ## Written characters -/

/-- Whether a character stands for itself in ordinary text. -/
def isPlain (c : Char) : Bool := !(['<', '&', '\r', '\x00'].contains c)

/-- A character as it is written in plain text. -/
inductive WrittenChar
  /-- The character itself. -/
  | literal (c : Char)
  /-- A reference, with the digits of the number. -/
  | reference (digits : List Char)
deriving DecidableEq

namespace WrittenChar

/-- The source of a character. -/
def source : WrittenChar → List Char
  | literal c => [c]
  | reference digits => '&' :: '#' :: digits ++ [';']

/-- The character that is written. -/
def char : WrittenChar → Char
  | literal c => c
  | reference digits => charOfNumber (Nat.ofDigitChars 10 digits 0)

/-- Whether the source of a character is read as this character. -/
def isProper : WrittenChar → Bool
  | literal c => isPlain c
  | reference digits => !digits.isEmpty && digits.all Char.isDigit

/-- The line of a text that starts with the character, by the line where its source starts. -/
def startLine (line : Nat) (c : WrittenChar) : Nat :=
  max (line + lineBreaks c.source - lineBreaks [c.char]) 1

theorem startLine_literal {line : Nat} (hline : 1 ≤ line) (c : Char) :
    (literal c).startLine line = line := by
  rw [startLine, source, char, Nat.add_sub_cancel, Nat.max_eq_left hline]

/-- There is no line break in a reference, whatever it stands for. -/
theorem lineBreaks_reference {digits : List Char} (h : digits.all Char.isDigit = true) :
    lineBreaks (reference digits).source = 0 := by
  refine List.count_eq_zero.2 fun hbreak => ?_
  have hdigit : '\n' ∈ digits := by simpa [source] using hbreak
  exact absurd (List.all_eq_true.1 h _ hdigit) (by decide)

end WrittenChar

/-- The source of a text. -/
def textSource (cs : List WrittenChar) : List Char := cs.flatMap WrittenChar.source

theorem textSource_literals (cs : List Char) : textSource (cs.map .literal) = cs := by
  simp [textSource, List.flatMap_map, WrittenChar.source]

theorem isProper_literals {cs : List Char} (h : ∀ c ∈ cs, isPlain c = true) :
    ∀ c ∈ cs.map WrittenChar.literal, c.isProper = true :=
  List.forall_mem_map.2 h

theorem lineBreaks_append (xs ys : List Char) :
    lineBreaks (xs ++ ys) = lineBreaks xs + lineBreaks ys := List.count_append

theorem lineBreaks_cons (c : Char) (cs : List Char) :
    lineBreaks (c :: cs) = lineBreaks [c] + lineBreaks cs := lineBreaks_append [c] cs

/-! ## The tree builder -/

theorem startLine?_singleton (line : Nat) (run : List Char) :
    startLine? [(line, run)] = some (max (line - lineBreaks run) 1) := rfl

theorem startLine?_append (xs ys : List Chunk) :
    startLine? (xs ++ ys) = (startLine? xs).or (startLine? ys) := by
  cases xs <;> simp [startLine?]

theorem written_append (xs ys : List Chunk) : written (xs ++ ys) = written xs ++ written ys :=
  List.flatMap_append

theorem writes_append (id : NodeId) (xs ys : List Chunk) :
    writes id (xs ++ ys) = writes id xs ++ writes id ys := List.flatMap_append

namespace Builder

/-- The builder puts characters into that element, just as they come. -/
structure TakesText (b : Builder) (id : NodeId) : Prop where
  mode : b.mode = .inTemplate ∨ b.mode = .inBody
  deciding : b.deciding.name.space = .html
  target : b.targetIn b.current = .place (.children id)
  settled : b.IsSettled
  dropBreak : b.dropBreak = false

/-- The builder after some more edits. -/
def wrote (b : Builder) (ok : Bool) (es : List Edit) : Builder :=
  { b with framesetOk := ok, edits := b.edits ++ es.toArray }

variable {b : Builder} {id : NodeId}

theorem wrote_wrote (b : Builder) (ok ok' : Bool) (es es' : List Edit) :
    (b.wrote ok es).wrote ok' es' = b.wrote ok' (es ++ es') := by
  simp [wrote, Array.append_assoc]

theorem TakesText.wrote (h : b.TakesText id) (ok : Bool) (es : List Edit) :
    (b.wrote ok es).TakesText id :=
  ⟨h.mode, h.deciding, h.target, h.settled, h.dropBreak⟩

theorem TakesText.piece (h : b.TakesText id) (run : List Char) : ∃ ok, b.piece (.chars run) =
    (b.wrote ok [.append (.children id) (.text (String.ofList run))], none) := by
  have hchars : b.once (.chars run) = .done (b.charsInBody run) := by
    have hforeign : b.isForeign (.chars run) = false := by
      unfold isForeign
      simp [h.deciding]
    unfold once
    rw [hforeign]
    rcases h.mode with hmode | hmode <;> simp [byMode, hmode, inTemplate, inBody]
  rw [piece_of_once hchars, charsInBody, reopenFormatting_of_isSettled h.settled, noFramesetAfter,
    putText_eq]
  split
  · refine ⟨false, ?_⟩
    rw [show b.noFrameset.targetIn b.noFrameset.current = _ from h.target]
    simp [emit, Builder.wrote, noFrameset, Target.edit]
  · refine ⟨b.framesetOk, ?_⟩
    rw [h.target]
    simp [emit, Builder.wrote, Target.edit]

theorem TakesText.enter (h : b.TakesText id) (line : Nat) : (Stage.building b).enter line =
    (.building (b.wrote b.framesetOk [.line line]), false) := by
  simp only [Stage.enter, h.dropBreak, Builder.wrote, emit]
  rw [← h.dropBreak]
  simp

/-- **A token of characters** is put into the element. -/
theorem TakesText.token (h : b.TakesText id) (line : Nat) {run : List Char} (hrun : run ≠ []) :
    ∃ ok, (Stage.building b).token line (.chars run) =
      (.building (b.wrote ok (writes id [(line, run)])), none) := by
  have hruns : ∀ b' : Builder, b'.TakesText id →
      (Stage.building b').runs (splitRuns run) = .building (b'.piece (.chars run)).1 := by
    intro b' hb'
    have hsplits : (Stage.building b').splitsText = false := by
      rcases hb'.mode with hmode | hmode <;> simp [Stage.splitsText, splitsText, hmode]
    have hall := Stage.flatMap_run_splitRuns run
    cases hpieces : splitRuns run with
    | nil =>
      rw [hpieces] at hall
      exact absurd hall.symm hrun
    | cons p ps =>
      rw [hpieces] at hall
      rw [Stage.runs, hsplits, hall]
      rfl
  obtain ⟨ok, hpiece⟩ := (h.wrote b.framesetOk [.line line]).piece run
  refine ⟨ok, ?_⟩
  rw [Stage.token, h.enter]
  simp only [Bool.false_and, Bool.false_eq_true, if_false]
  rw [hruns _ (h.wrote _ _), hpiece, wrote_wrote]
  rfl

/-- **The end of the source** is only a line. -/
theorem TakesText.token_eof (h : b.TakesText id) (hopen : b.hasOpen "template" = false)
    (line : Nat) : (Stage.building b).token line .eof =
      (.building (b.wrote b.framesetOk [.line line]), none) := by
  set b' := b.wrote b.framesetOk [.line line] with hb'
  have hforeign : b'.isForeign .eof = false := by
    simp [isForeign]
  have hopen' : b'.hasOpen "template" = false := hopen
  have honce : b'.once .eof = .done b' := by
    rw [once, hforeign]
    have hmode' : b'.mode = .inTemplate ∨ b'.mode = .inBody := h.mode
    rcases hmode' with hmode | hmode <;>
      simp [byMode, hmode, inTemplate, inBody, eofInTemplate, hopen']
  rw [Stage.token, h.enter]
  exact congrArg (fun r : Builder × Option Signal => (Stage.building r.1, r.2))
    (piece_of_once honce)

end Builder

/-! ## The tokenizer -/

namespace Tokenizer

/-- The tokenizer is in ordinary text, and nothing waits. -/
structure InText (t : Tokenizer) : Prop where
  state : t.state = .data
  reference : t.reference = none
  afterReturn : t.afterReturn = false
  alone : t.alone = false
  ahead : t.ahead = []
  out : t.out = []

/-- The run under construction, as if it were handed over. -/
def pending (line : Nat) (run : List Char) : List Chunk :=
  if run.isEmpty then [] else [(line, run.reverse)]

theorem pending_nil (line : Nat) : pending line [] = [] := rfl

theorem ne_nil_of_mem_pending {line : Nat} {run : List Char} {c : Chunk}
    (hc : c ∈ pending line run) : c.2 ≠ [] := by
  cases run with
  | nil => exact absurd hc List.not_mem_nil
  | cons d run =>
    rw [List.mem_singleton.1 hc]
    simp

/-- Tokens of characters, the last one first. -/
def handed (chunks : List Chunk) : List (Nat × Token) :=
  (chunks.map fun (line, run) => (line, .chars run)).reverse

/-- A character that joins the run takes its line break along. -/
theorem startLine?_pending_cons {line : Nat} (hline : 1 ≤ line) (c : Char) (run : List Char) :
    startLine? (pending (line + lineBreaks [c]) (c :: run)) =
      (startLine? (pending line run)).or (some line) := by
  have hcons : startLine? (pending (line + lineBreaks [c]) (c :: run)) =
      some (max (line - lineBreaks run.reverse) 1) := by
    rw [pending, List.isEmpty_cons, if_neg Bool.false_ne_true, startLine?_singleton,
      List.reverse_cons, lineBreaks_append, Nat.add_sub_add_right]
  rw [hcons]
  cases run with
  | nil => exact congrArg some (Nat.max_eq_left hline)
  | cons d run => rfl

theorem written_pending_cons (line line' : Nat) (c : Char) (run : List Char) :
    written (pending line (c :: run)) = written (pending line' run) ++ [c] := by
  cases run <;> simp [pending, written]

variable {t : Tokenizer}

theorem flush_of_out (h : t.out = []) :
    t.flush = { t with run := [], out := handed (pending t.line t.run) } := by
  obtain ⟨exact, state, line, afterReturn, alone, run⟩ := t
  cases h
  cases run <;> rfl

/-- **A character that stands for itself** goes to the run, or it is handed over. -/
theorem InText.step_literal (h : t.InText) {c : Char} (hc : isPlain c = true) (foreign : Bool) :
    t.step foreign c =
      if t.exact || (c == '\n' && t.run.isEmpty) then
        { t with line := t.line + lineBreaks [c], out := [(t.line + lineBreaks [c], .chars [c])] }
      else { t with line := t.line + lineBreaks [c], run := c :: t.run } := by
  obtain ⟨exact, state, line, afterReturn, alone, run⟩ := t
  obtain ⟨rfl, rfl, rfl, rfl, rfl, rfl⟩ := h
  simp only [isPlain, Bool.not_eq_true', List.contains_eq_mem, List.mem_cons, List.not_mem_nil,
    or_false, decide_eq_false_iff_not, not_or] at hc
  obtain ⟨hopen, hamp, hreturn, hnull⟩ := hc
  by_cases hbreak : c = '\n'
  · subst hbreak
    simp [step, take, State.joins, accept, readData, textChar, emitChar, emit, lineBreaks]
  · simp [step, take, State.joins, accept, readData, textChar, emitChar, emit, lineBreaks, hopen,
      hamp, hnull, hbreak, beq_eq_false_iff_ne.2 hreturn]

/-- An ampersand ends the run. -/
theorem InText.step_ampersand (h : t.InText) (foreign : Bool) :
    t.step foreign '&' = { t.flush with reference := some .start } := by
  obtain ⟨exact, state, line, afterReturn, alone, run⟩ := t
  obtain ⟨rfl, rfl, rfl, rfl, rfl, rfl⟩ := h
  rw [flush_of_out rfl]
  simp [step, take, State.joins, accept, readData, flush_of_out]

/-- An opening bracket ends the run. -/
theorem InText.step_bracket (h : t.InText) (foreign : Bool) :
    t.step foreign '<' = t.flush.goto .tagOpen := by
  obtain ⟨exact, state, line, afterReturn, alone, run⟩ := t
  obtain ⟨rfl, rfl, rfl, rfl, rfl, rfl⟩ := h
  rw [flush_of_out rfl]
  simp [step, take, State.joins, accept, readData, flush_of_out, goto]

/-- Reading further digits, a bound is as good as any number beyond it. -/
theorem ofDigitChars_min (digits : List Char) (value bound : Nat) :
    min (Nat.ofDigitChars 10 digits (min value bound)) bound =
      min (Nat.ofDigitChars 10 digits value) bound := by
  induction digits generalizing value with
  | nil => simp [Nat.ofDigitChars]
  | cons c digits ih =>
    have hcons : ∀ n, Nat.ofDigitChars 10 (c :: digits) n =
        Nat.ofDigitChars 10 digits (10 * n + (c.toNat - '0'.toNat)) := fun n => rfl
    rw [hcons, hcons, ← ih (10 * value + _), ← ih (10 * min value bound + _)]
    congr 2
    omega

/-- The digits of a number are read. A number that is too large is as good as any other such
number. -/
theorem foldl_step_digits (t : Tokenizer) (foreign : Bool) {digits : List Char}
    (hdigits : digits.all Char.isDigit = true) (value : Option Nat) (hne : digits ≠ []) :
    digits.foldl (·.step foreign ·) { t with reference := some (.digits none value) } =
      { t with
        reference := some (.digits none
          (some (min (Nat.ofDigitChars 10 digits (value.getD 0)) (maxCodePoint + 1)))) } := by
  have hstep : ∀ (value : Option Nat) {c : Char}, c.isDigit = true →
      step { t with reference := some (.digits none value) } foreign c =
        { t with reference := some (.digits none
          (some (min (10 * value.getD 0 + (c.toNat - '0'.toNat)) (maxCodePoint + 1)))) } := by
    intro value c hc
    simp [step, readReference, Reference.read, Reference.readDigit, digit?, hc, Nat.mul_comm]
  induction digits generalizing value with
  | nil => exact absurd rfl hne
  | cons c digits ih =>
    rw [List.all_cons, Bool.and_eq_true] at hdigits
    rw [List.foldl_cons, hstep value hdigits.1]
    cases digits with
    | nil => rfl
    | cons d digits =>
      rw [ih hdigits.2 _ (List.cons_ne_nil d digits)]
      exact congrArg (fun n => { t with reference := some (.digits none (some n)) })
        (ofDigitChars_min (d :: digits) _ _)

theorem charOfNumber_min (n : Nat) : charOfNumber (min n (maxCodePoint + 1)) = charOfNumber n := by
  rcases Nat.le_total n (maxCodePoint + 1) with h | h
  · rw [Nat.min_eq_left h]
  · rw [Nat.min_eq_right h]
    have hlarge : ∀ k, maxCodePoint + 1 ≤ k → charOfNumber k = replacement := by
      intro k hk
      have hinvalid : ¬k.isValidChar := by
        unfold maxCodePoint at hk
        unfold Nat.isValidChar
        omega
      unfold maxCodePoint at hk
      unfold charOfNumber
      rw [if_neg (by omega), if_neg (by omega), if_neg hinvalid]
    rw [hlarge _ h, hlarge _ (Nat.le_refl _)]

/-- What follows the ampersand of a reference is read up to the last digit. -/
theorem foldl_step_number (t : Tokenizer) (foreign : Bool) {digits : List Char}
    (hdigits : digits.all Char.isDigit = true) (hne : digits ≠ []) :
    ('#' :: digits).foldl (·.step foreign ·) { t with reference := some .start } =
      { t with
        reference := some (.digits none
          (some (min (Nat.ofDigitChars 10 digits 0) (maxCodePoint + 1)))) } := by
  have hnumber : step { t with reference := some .start } foreign '#' =
      { t with reference := some .number } := rfl
  have hfirst : ∀ {c : Char}, c.isDigit = true →
      step { t with reference := some .number } foreign c =
        step { t with reference := some (.digits none none) } foreign c := by
    intro c hc
    have hx : c ≠ 'x' := by rintro rfl; cases hc
    have hX : c ≠ 'X' := by rintro rfl; cases hc
    simp [step, readReference, Reference.read, Reference.readDigit, digit?, hc, hx, hX]
  obtain ⟨c, rest, rfl⟩ := List.exists_cons_of_ne_nil hne
  rw [List.foldl_cons, hnumber, List.foldl_cons,
    hfirst (List.all_eq_true.1 hdigits c List.mem_cons_self)]
  exact foldl_step_digits t foreign hdigits none hne

/-- **The end of a reference.** Its character is handed over by itself. -/
theorem InText.step_semicolon (h : t.InText) (foreign : Bool) (value : Nat) :
    step { t with reference := some (.digits none (some (min value (maxCodePoint + 1)))) } foreign
        ';' =
      { t with out := [(t.line, .chars [charOfNumber value])] } := by
  have hdigit : digit? false ';' = none := rfl
  simp [step, readReference, Reference.read, Reference.readDigit, hdigit, Reference.endNumber,
    endReference, putReference, inAttrValue, h.state, emitEach, emitChar, emit, h.out,
    charOfNumber_min, h.reference]

theorem InText.pause_eq (h : t.InText) : t.pause = t.flush := by
  rw [pause, flush_of_out h.out]
  simp [h.alone, h.afterReturn]

theorem InText.finish_eq (h : t.InText) (hrun : t.run = []) :
    t.finish = { t with out := [(t.line, .eof)] } := by
  have hflush : t.flush = t := by
    rw [flush, hrun]
    rfl
  have hahead : t.takeAhead = t := by
    rw [takeAhead, h.ahead, List.reverse_nil, List.foldl_nil, ← h.ahead]
    exact hflush
  simp [finish, h.reference, hahead, hflush, close, h.state, emit, h.out]

/-- The line only goes up, and no token is taken back. -/
theorem Advances.foldl_step {t₀ : Tokenizer} (h : t₀.Advances t) (foreign : Bool)
    (cs : List Char) : t₀.Advances (cs.foldl (·.step foreign ·) t) := by
  induction cs generalizing t with
  | nil => exact h
  | cons c cs ih => exact ih (h.step foreign c)

end Tokenizer

/-! ## Sessions -/

namespace Session

variable {b : Builder} {id : NodeId}

theorem read_of_not_fresh {s : Session} (h : s.fresh = false) (c : Char) :
    s.read c = deliver { s with tokenizer := s.tokenizer.step s.stage.inForeign c } := by
  simp [read, h]

/-- Reading characters after which nothing is handed over. -/
theorem foldl_read_of_out (stage : Stage) {t : Tokenizer} {cs : List Char}
    (h : (cs.foldl (·.step stage.inForeign ·) t).out = []) :
    cs.foldl read ⟨t, stage, false⟩ = ⟨cs.foldl (·.step stage.inForeign ·) t, stage, false⟩ := by
  induction cs generalizing t with
  | nil => rfl
  | cons c cs ih =>
    rw [List.foldl_cons] at h
    have hout : (t.step stage.inForeign c).out = [] := by
      obtain ⟨new, hnew, -⟩ := ((Tokenizer.Advances.refl _).foldl_step stage.inForeign cs).out
      rw [h] at hnew
      exact (List.append_eq_nil_iff.1 hnew.symm).2
    rw [List.foldl_cons, read_of_not_fresh rfl, deliver]
    simp only [hout]
    exact ih h

/-- Tokens of characters are put into the element. -/
theorem deliver_handed (hb : b.TakesText id) (ok : Bool) (chunks new : List Chunk) {t : Tokenizer}
    (hnew : ∀ c ∈ new, c.2 ≠ []) (hout : t.out = Tokenizer.handed new)
    (fresh : Bool) : ∃ ok', deliver ⟨t, .building (b.wrote ok (writes id chunks)), fresh⟩ =
      ⟨{ t with out := [] }, .building (b.wrote ok' (writes id (chunks ++ new))), fresh⟩ := by
  rw [deliver_eq, hout, Tokenizer.handed, List.foldr_reverse]
  clear hout
  induction new generalizing ok chunks with
  | nil => exact ⟨ok, by rw [List.append_nil]; rfl⟩
  | cons c cs ih =>
    obtain ⟨line, run⟩ := c
    obtain ⟨hrun, hcs⟩ := List.forall_mem_cons.1 hnew
    obtain ⟨ok', htoken⟩ := (hb.wrote ok (writes id chunks)).token line hrun
    rw [Builder.wrote_wrote, ← writes_append] at htoken
    obtain ⟨ok'', hrest⟩ := ih ok' (chunks ++ [(line, run)]) hcs
    refine ⟨ok'', ?_⟩
    dsimp only at hrest ⊢
    rw [List.map_cons, List.foldl_cons, token_eq, htoken]
    rwa [List.append_assoc, List.singleton_append] at hrest

/-- A session has read some text since its tokenizer was at `t` and its stage was the builder `b`:
these characters, which are on that line. The tokenizer has come to `line`. -/
inductive Reads (t : Tokenizer) (b : Builder) (id : NodeId) (line : Nat) (text : List Char)
    (start : Option Nat) : Session → Prop
  | intro (chunks : List Chunk) (run : List Char) (ok : Bool) (hexact : t.exact = true → run = [])
    (htext : written (chunks ++ Tokenizer.pending line run) = text)
    (hstart : startLine? (chunks ++ Tokenizer.pending line run) = start) :
    Reads t b id line text start
      ⟨{ t with line, run }, .building (b.wrote ok (writes id chunks)), false⟩

namespace Reads

variable {t : Tokenizer} {line : Nat} {text : List Char} {start : Option Nat} {s : Session}

/-- A character that stands for itself is read. -/
theorem literal (hb : b.TakesText id) (ht : t.InText) (h : Reads t b id line text start s)
    (hline : 1 ≤ line) {c : Char} (hc : isPlain c = true) :
    Reads t b id (line + lineBreaks [c]) (text ++ [c]) (start.or (some line)) (s.read c) := by
  obtain ⟨chunks, run, ok, hexact, rfl, rfl⟩ := h
  have ht' : Tokenizer.InText { t with line, run } := { ht with }
  rw [read_of_not_fresh rfl, ht'.step_literal hc]
  split
  · next halone =>
    have hrun : run = [] := by
      rcases Bool.or_eq_true _ _ |>.mp halone with h | h
      · exact hexact h
      · exact List.isEmpty_iff.1 (Bool.and_eq_true _ _ |>.mp h).2
    subst hrun
    obtain ⟨ok', hdeliver⟩ := deliver_handed hb ok chunks
      [(line + lineBreaks [c], [c])] (t := { t with
        line := line + lineBreaks [c], run := [], out := [(line + lineBreaks [c], .chars [c])] })
      (by simp) rfl false
    rw [hdeliver]
    dsimp only
    rw [← ht.out]
    refine .intro (chunks ++ [(line + lineBreaks [c], [c])]) [] ok' hexact ?_ ?_
    · simp only [Tokenizer.pending_nil, List.append_nil, written_append]
      rfl
    · simp only [Tokenizer.pending_nil, List.append_nil, startLine?_append, startLine?_singleton,
        Nat.add_sub_cancel, Nat.max_eq_left hline]
  · next hjoins =>
    rw [deliver]
    simp only [ht.out]
    rw [← ht.out]
    refine .intro chunks (c :: run) ok (fun hexact' => by simp [hexact'] at hjoins) ?_ ?_
    · rw [written_append, Tokenizer.written_pending_cons _ line, written_append, List.append_assoc]
    · rw [startLine?_append, Tokenizer.startLine?_pending_cons hline, startLine?_append,
        Option.or_assoc]

theorem fresh (h : Reads t b id line text start s) : s.fresh = false := by
  cases h
  rfl

theorem inText (ht : t.InText) (h : Reads t b id line text start s) : s.tokenizer.InText := by
  cases h
  exact { ht with }

/-- But for its tokens, the tokenizer has only come to another line when the run ends. -/
theorem flush_tokenizer (ht : t.InText) (h : Reads t b id line text start s) :
    { s.tokenizer.flush with out := [] } = { t with line, run := [] } := by
  rw [Tokenizer.flush_of_out (h.inText ht).out]
  cases h
  simp [ht.out]

/-- Where the run ends, the text has become tokens. -/
theorem flushed (hb : b.TakesText id) (ht : t.InText) (h : Reads t b id line text start s)
    {u : Tokenizer} (hu : u.out = s.tokenizer.flush.out) (fresh : Bool) :
    ∃ (chunks : List Chunk) (ok : Bool), written chunks = text ∧ startLine? chunks = start ∧
      deliver ⟨u, s.stage, fresh⟩ =
        ⟨{ u with out := [] }, .building (b.wrote ok (writes id chunks)), fresh⟩ := by
  rw [Tokenizer.flush_of_out (h.inText ht).out] at hu
  obtain ⟨chunks, run, ok, -, rfl, rfl⟩ := h
  obtain ⟨ok', hdeliver⟩ := deliver_handed hb ok chunks _
    (fun c hc => Tokenizer.ne_nil_of_mem_pending hc) hu fresh
  exact ⟨_, ok', rfl, rfl, hdeliver⟩

/-- A reference is read: the run ends, and the character is handed over by itself. -/
theorem reference (hb : b.TakesText id) (ht : t.InText) (h : Reads t b id line text start s)
    {digits : List Char} (hdigits : digits.all Char.isDigit = true) (hne : digits ≠ []) :
    Reads t b id line (text ++ [(WrittenChar.reference digits).char])
      (start.or (some (max (line - lineBreaks [(WrittenChar.reference digits).char]) 1)))
      ((WrittenChar.reference digits).source.foldl read s) := by
  set c := (WrittenChar.reference digits).char
  have hrest : Tokenizer.InText { t with line, run := [] } := { ht with }
  -- The ampersand ends the run.
  obtain ⟨chunks, ok, rfl, rfl, hflushed⟩ := h.flushed hb ht
    (u := { s.tokenizer.flush with reference := some .start }) rfl false
  have hampersand : s.read '&' = ⟨{ t with line, run := [], reference := some .start },
      .building (b.wrote ok (writes id chunks)), false⟩ := by
    rw [read_of_not_fresh h.fresh, (h.inText ht).step_ampersand, h.fresh, hflushed]
    exact congrArg (fun u => Session.mk { u with reference := some .start } _ false)
      (h.flush_tokenizer ht)
  -- Nothing is handed over while the number is read.
  have hsteps := fun foreign =>
    Tokenizer.foldl_step_number { t with line, run := [] } foreign hdigits hne
  have hnumber := foldl_read_of_out (.building (b.wrote ok (writes id chunks)))
    ((congrArg Tokenizer.out (hsteps _)).trans ht.out)
  rw [hsteps] at hnumber
  -- The semicolon ends it.
  obtain ⟨ok', hdeliver⟩ := deliver_handed hb ok chunks [(line, [c])]
    (t := { t with line, run := [], out := [(line, .chars [c])] }) (by simp) rfl false
  have hread : (WrittenChar.reference digits).source.foldl read s = ⟨{ t with line, run := [] },
      .building (b.wrote ok' (writes id (chunks ++ [(line, [c])]))), false⟩ := by
    rw [WrittenChar.source, List.cons_append, List.cons_append, List.foldl_cons, hampersand,
      ← List.cons_append, List.foldl_append, hnumber, List.foldl_cons, read_of_not_fresh rfl,
      hrest.step_semicolon]
    refine hdeliver.trans ?_
    dsimp only
    rw [← ht.out]
  rw [hread]
  refine .intro (chunks ++ [(line, [c])]) [] ok' (fun _ => rfl) ?_ ?_
  · rw [Tokenizer.pending_nil, List.append_nil, written_append]
    rfl
  · rw [Tokenizer.pending_nil, List.append_nil, startLine?_append, startLine?_singleton]

/-- An opening bracket is read: the run ends. -/
theorem bracket (hb : b.TakesText id) (ht : t.InText) (h : Reads t b id line text start s) :
    ∃ (chunks : List Chunk) (ok : Bool), written chunks = text ∧ startLine? chunks = start ∧
      s.read '<' = ⟨{ t with line, run := [], state := .tagOpen },
        .building (b.wrote ok (writes id chunks)), false⟩ := by
  obtain ⟨chunks, ok, rfl, rfl, hflushed⟩ := h.flushed hb ht
    (u := s.tokenizer.flush.goto .tagOpen) rfl false
  refine ⟨chunks, ok, rfl, rfl, ?_⟩
  rw [read_of_not_fresh h.fresh, (h.inText ht).step_bracket, h.fresh, hflushed]
  exact congrArg (fun u => Session.mk { u with state := .tagOpen } _ false) (h.flush_tokenizer ht)

/-- **A written character is read.** -/
theorem writtenChar (hb : b.TakesText id) (ht : t.InText) (h : Reads t b id line text start s)
    {c : WrittenChar} (hc : c.isProper = true) (hline : 1 ≤ line) :
    Reads t b id (line + lineBreaks c.source) (text ++ [c.char])
      (start.or (some (c.startLine line))) (c.source.foldl read s) := by
  cases c with
  | literal c =>
    rw [WrittenChar.startLine_literal hline]
    exact h.literal hb ht hline hc
  | reference digits =>
    simp only [WrittenChar.isProper, Bool.and_eq_true, Bool.not_eq_true',
      List.isEmpty_eq_false_iff] at hc
    rw [WrittenChar.startLine, WrittenChar.lineBreaks_reference hc.2, Nat.add_zero]
    exact h.reference hb ht hc.2 hc.1

/-- **Plain text is read.** -/
theorem writtenText (hb : b.TakesText id) (ht : t.InText) (h : Reads t b id line text start s)
    {cs : List WrittenChar} (hcs : ∀ c ∈ cs, c.isProper = true) (hline : 1 ≤ line) :
    Reads t b id (line + lineBreaks (textSource cs)) (text ++ cs.map WrittenChar.char)
      (start.or (cs.head?.map (·.startLine line))) ((textSource cs).foldl read s) := by
  induction cs generalizing s line text start with
  | nil => simpa [textSource, lineBreaks] using h
  | cons c cs ih =>
    obtain ⟨hc, hcs⟩ := List.forall_mem_cons.1 hcs
    have hrest := ih (h.writtenChar hb ht hc hline) hcs (Nat.le_trans hline (Nat.le_add_right _ _))
    rw [textSource, List.flatMap_cons, List.foldl_append, ← textSource, lineBreaks_append]
    simpa [Nat.add_assoc, List.append_assoc, Option.or_assoc] using hrest

/-- **The source ends.** The text has become tokens, and the last line is reported. -/
theorem finish (hb : b.TakesText id) (ht : t.InText) (h : Reads t b id line text start s)
    (hopen : b.hasOpen "template" = false) :
    ∃ chunks : List Chunk, written chunks = text ∧ startLine? chunks = start ∧
      (deliver { s with tokenizer := s.tokenizer.pause }).finish =
        b.edits.toList ++ writes id chunks ++ [.line line] := by
  obtain ⟨chunks, ok, rfl, rfl, hflushed⟩ := h.flushed hb ht (u := s.tokenizer.pause) rfl s.fresh
  refine ⟨chunks, rfl, rfl, ?_⟩
  have hrest : Tokenizer.InText { t with line, run := [] } := { ht with }
  have hpause : { s.tokenizer.pause with out := [] } = { t with line, run := [] } := by
    rw [(h.inText ht).pause_eq]
    exact h.flush_tokenizer ht
  rw [hflushed, hpause, Session.finish, hrest.finish_eq rfl, deliver_eq]
  dsimp only [List.foldr_cons, List.foldr_nil]
  rw [token_eq]
  dsimp only
  rw [(hb.wrote ok _).token_eof hopen, Builder.wrote_wrote]
  simp [Session.heed, Stage.edits, Builder.wrote]

/-- Nothing has been read. -/
theorem zero (b : Builder) (id : NodeId) (hrun : t.run = []) :
    Reads t b id t.line [] none ⟨t, .building b, false⟩ := by
  have hwrote : b.wrote b.framesetOk (writes id []) = b := by
    simp [writes, Builder.wrote]
  have hsame : ({ t with run := [] } : Tokenizer) = t := by rw [← hrun]
  have h : Reads t b id t.line [] none
      ⟨{ t with run := [] }, .building (b.wrote b.framesetOk (writes id [])), false⟩ :=
    .intro [] [] b.framesetOk (fun _ => rfl) rfl rfl
  rwa [hwrote, hsame] at h

end Reads

end Session

end HtmlWalk.Html
