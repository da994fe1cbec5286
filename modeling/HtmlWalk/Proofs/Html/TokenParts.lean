import HtmlWalk.Proofs.Html.TokenEffects

/-!
# Tokenizers in step

Of two tokenizers that read the same characters, one is exact: it hands over every character by
itself. As long as the other one has no run under construction, they are `InStep`: at the same place
in the source, with the same tag, comment or declaration under construction, and what they have said
is the same but for the way in which characters are cut into tokens (`spoken`).

**Theorem (`Tokenizer.InStep.accept`).** They are still in step after a character that makes a run
of its own in both.

Two tokenizers in step have the same work in hand, so what is done has the same effect on both
(`Tokenizer.InStep.acts`).
-/

namespace HtmlWalk.Html

/-- The parts of a token: each character of a run is one. -/
def Token.parts : Token → List Token
  | chars (c :: run) => (c :: run).map fun c => chars [c]
  | t => [t]

theorem Token.parts_chars {run : List Char} (h : run ≠ []) :
    (chars run).parts = run.map fun c => chars [c] := by
  obtain ⟨c, run, rfl⟩ := List.exists_cons_of_ne_nil h
  rfl

namespace Tokenizer

/-- What is said by tokens that have been handed over, the last one first. -/
def spoken (out : List (Nat × Token)) : List Token := out.reverse.flatMap (·.2.parts)

@[simp] theorem spoken_nil : spoken [] = [] := rfl

theorem spoken_append (out out' : List (Nat × Token)) :
    spoken (out ++ out') = spoken out' ++ spoken out := by
  simp [spoken]

@[simp] theorem spoken_cons (e : Nat × Token) (out : List (Nat × Token)) :
    spoken (e :: out) = spoken out ++ e.2.parts := by
  simp [spoken]

/-! ## In step -/

/-- The second tokenizer is exact, and both are at the same place in the source. The first one has
said what the second one has, after some other tokens. If they are `quiet`, no character reference
is under construction; if they are `free`, they need not agree whether the last character was a
carriage return. -/
structure InStep (quiet free : Prop) (before : List Token) (t u : Tokenizer) : Prop where
  exact : u.exact = true
  state : u.state = t.state
  afterReturn : u.afterReturn = t.afterReturn ∨ free
  draft : u.draft = t.draft
  lastStart : u.lastStart = t.lastStart
  held : u.held = t.held
  comment : u.comment = t.comment
  declaration : u.declaration = t.declaration
  reference : u.reference = t.reference
  ahead : u.ahead = t.ahead
  /-- No run is under construction. -/
  run : t.run = []
  run_exact : u.run = []
  out : spoken t.out = before ++ spoken u.out
  quiet : quiet → t.reference = none
  /-- An ampersand starts a reference; it does not mark a number as hexadecimal. -/
  mark : ∀ c value, t.reference = some (.digits (some c) value) → c ≠ '&'

namespace InStep

variable {quiet free : Prop} {before : List Token} {t u : Tokenizer}
  (h : InStep quiet free before t u)
include h

/-- What has the same effect on both keeps them in step. -/
theorem apply (e : Effect) (hrefers : e.refers = true → ¬ quiet) :
    InStep quiet free before (e.apply t) (e.apply u) where
  exact := h.exact
  state := rfl
  afterReturn := h.afterReturn
  draft := rfl
  lastStart := rfl
  held := rfl
  comment := rfl
  declaration := rfl
  reference := by simp only [Effect.apply, h.reference]
  ahead := h.ahead
  run := h.run
  run_exact := h.run_exact
  out := by
    have hsaid : spoken (e.tokens.map (t.line, ·)) = spoken (e.tokens.map (u.line, ·)) := by
      simp only [spoken, ← List.map_reverse, List.flatMap_map]
    show spoken (_ ++ t.out) = before ++ spoken (_ ++ u.out)
    rw [spoken_append, spoken_append, h.out, hsaid, List.append_assoc]
  quiet hq := by
    have hno : e.refers = false := by simpa using fun hr => hrefers hr hq
    simpa [Effect.apply, hno] using h.quiet hq
  mark c value hmark := by
    unfold Effect.apply at hmark
    split at hmark
    · cases hmark
    · exact h.mark c value hmark

theorem work_eq : u.work = t.work := by
  simp only [work, h.state, h.draft, h.lastStart, h.held, h.comment, h.declaration]

theorem acts {mayRefer : Prop} {f : Tokenizer → Tokenizer} (hf : Acts mayRefer f)
    (hquiet : quiet → ¬ mayRefer) : InStep quiet free before (f t) (f u) := by
  obtain ⟨e, hrefers, he⟩ := hf t.work
  rw [he t rfl, he u h.work_eq]
  exact h.apply e fun hr hq => hquiet hq (hrefers hr)

/-! ### Handing over tokens -/

theorem emit (token : Token) : InStep quiet free before (t.emit token) (u.emit token) :=
  h.acts ((Acts.id False).emit token) fun _ => id

theorem emitChar (c : Char) : InStep quiet free before (t.emitChar c) (u.emitChar c) := h.emit _

theorem flush : InStep quiet free before t.flush u.flush := by
  rw [Tokenizer.flush, Tokenizer.flush, h.run, h.run_exact]
  exact h

theorem emitTag (selfClosing : Bool) :
    InStep quiet free before (t.emitTag selfClosing) (u.emitTag selfClosing) :=
  h.acts ((Acts.id False).emitTag selfClosing) fun _ => id

theorem goto (s : State) : InStep quiet free before (t.goto s) (u.goto s) := { h with state := rfl }

theorem pushValue (cs : List Char) : InStep quiet free before (t.pushValue cs) (u.pushValue cs) :=
  h.acts ((Acts.id False).pushValue cs) fun _ => id

/-! ### Characters of the source -/

/-- A character makes a run of its own. -/
theorem accept {c : Char} (hc : quiet → c ≠ '&') :
    InStep quiet free before (t.accept c true) (u.accept c true) :=
  h.acts (acts_accept id) hc

theorem close : InStep quiet free before t.close u.close := h.acts (acts_close False) fun _ => id

theorem mono {quiet' free' : Prop} (hquiet : quiet' → quiet) (hfree : free → free') :
    InStep quiet' free' before t u :=
  { h with afterReturn := h.afterReturn.imp_right hfree, quiet := fun hq => h.quiet (hquiet hq) }

theorem flush_left : t.flush = t := by
  rw [Tokenizer.flush, h.run]
  rfl

theorem flush_right : u.flush = u := by
  rw [Tokenizer.flush, h.run_exact]
  rfl

end InStep

end Tokenizer

end HtmlWalk.Html
