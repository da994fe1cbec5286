import HtmlWalk.Proofs.Html.TokenEffects

/-!
# The lines of tokens

A token is handed over together with the line that the tokenizer has reached. The line only goes
up, so tokens stand on lines from the one where reading began to the one where it has come to.

**Theorem (`Tokenizer.Advances.step`).** This is so for whatever character is read next, and for the
end of a piece (`Tokenizer.Advances.pause`) and of the source (`Tokenizer.Advances.finish`) as well.

Every effect hands over its tokens on the line that has been reached (`Tokenizer.Acts.advances`). So
the lines are looked at only where they are counted, and where characters are held back.
-/

namespace HtmlWalk.Html.Tokenizer

/-- The second tokenizer has read on from the first: its line is not smaller, and the tokens that
came in between are on lines in between. -/
structure Advances (t t' : Tokenizer) : Prop where
  /-- The line does not go back. -/
  line : t.line ≤ t'.line
  /-- The new tokens are on lines in between. -/
  out : ∃ new, t'.out = new ++ t.out ∧ ∀ e ∈ new, t.line ≤ e.1 ∧ e.1 ≤ t'.line

namespace Advances

variable {t₀ t t' t'' : Tokenizer}

protected theorem refl (t : Tokenizer) : t.Advances t := ⟨Nat.le_refl t.line, [], rfl, nofun⟩

protected theorem trans (h : t.Advances t') (h' : t'.Advances t'') : t.Advances t'' := by
  obtain ⟨new, hnew, hbetween⟩ := h.out
  obtain ⟨new', hnew', hbetween'⟩ := h'.out
  have hline := h.line
  have hline' := h'.line
  refine ⟨by omega, new' ++ new, by rw [hnew', hnew, List.append_assoc], fun e he => ?_⟩
  rcases List.mem_append.1 he with he | he
  · have := hbetween' e he
    omega
  · have := hbetween e he
    omega

variable (h : t₀.Advances t)
include h

theorem of_le (hline : t.line ≤ t'.line) (hout : t'.out = t.out) : t₀.Advances t' :=
  h.trans ⟨hline, [], hout, nofun⟩

theorem of_eq (hline : t'.line = t.line) (hout : t'.out = t.out) : t₀.Advances t' :=
  h.of_le (Nat.le_of_eq hline.symm) hout

end Advances

/-- An effect hands over its tokens on the line that has been reached. -/
theorem Acts.advances {mayRefer : Prop} {f : Tokenizer → Tokenizer} (hf : Acts mayRefer f)
    (t : Tokenizer) : t.Advances (f t) := by
  obtain ⟨e, -, he⟩ := hf t.work
  rw [he t rfl]
  refine ⟨Nat.le_refl t.line, e.tokens.map (t.line, ·), rfl, fun entry hentry => ?_⟩
  obtain ⟨token, -, rfl⟩ := List.mem_map.1 hentry
  exact ⟨Nat.le_refl t.line, Nat.le_refl t.line⟩

namespace Advances

variable {t₀ t : Tokenizer} (h : t₀.Advances t)
include h

/-- What has an effect is done next. -/
theorem acts {f : Tokenizer → Tokenizer} (hf : Acts True f) : t₀.Advances (f t) :=
  h.trans (hf.advances t)

theorem emit (token : Token) : t₀.Advances (t.emit token) := h.acts ((Acts.id True).emit token)

theorem goto (s : State) : t₀.Advances (t.goto s) := h.of_eq rfl rfl

theorem flush : t₀.Advances t.flush := by
  unfold Tokenizer.flush
  split
  · exact h
  · exact (h.emit _).of_eq rfl rfl

/-! ## Characters of the source -/

theorem accept {c : Char} (hreturn : c ≠ '\r') (alone : Bool) : t₀.Advances (t.accept c alone) := by
  have halone : t₀.Advances (t.accept c true) := h.acts (acts_accept fun _ => trivial)
  cases alone with
  | true => exact halone
  | false =>
    by_cases htext : t.state.isText = true ∧ t.state.joins c = true
    · rcases (accept_of_joins htext.1 htext.2).2 with ht | ⟨-, ht⟩
      · rw [ht]
        exact h.of_eq rfl rfl
      · rw [ht]
        exact h.emit _
    · rw [accept_of_not_joins hreturn (by grind)]
      exact halone

/-- The one step in which the line changes. -/
theorem take (c : Char) : t₀.Advances (t.take c) := by
  have hflush : t₀.Advances (if t.state.joins c then t else t.flush) := by
    split
    · exact h
    · exact h.flush
  unfold Tokenizer.take
  dsimp only
  generalize (if t.state.joins c then t else t.flush) = u at hflush
  split
  · exact hflush.of_eq rfl rfl
  · have hreturn : (if c == '\r' || c == '\n' then '\n' else c) ≠ '\r' := by grind
    refine accept ?_ hreturn _
    refine hflush.of_le ?_ rfl
    dsimp only
    split <;> omega

theorem foldl_take (cs : List Char) : t₀.Advances (cs.foldl Tokenizer.take t) := by
  induction cs generalizing t with
  | nil => exact h
  | cons c cs ih => exact ih (h.take c)

/-! ## Characters that are looked at first -/

theorem putReference (cs : List Char) : t₀.Advances (t.putReference cs) := by
  unfold Tokenizer.putReference
  split
  · exact h.of_eq rfl rfl
  · exact h.acts ((Acts.id True).emitEach cs)

theorem endReference (e : Reference.Ended) : t₀.Advances (t.endReference e) := by
  have hnone : t₀.Advances { t with reference := none } := h.of_eq rfl rfl
  have hput : t₀.Advances ((if e.flaw then Tokenizer.emit { t with reference := none } .flaw
      else { t with reference := none }).putReference e.chars) := by
    refine putReference ?_ _
    split
    · exact hnone.emit _
    · exact hnone
  unfold Tokenizer.endReference
  dsimp only
  split
  · exact hput
  · exact (hput.foldl_take _).flush

theorem readReference (r : Reference) (c : Char) : t₀.Advances (t.readReference r c) := by
  unfold Tokenizer.readReference
  split
  · exact h.of_eq rfl rfl
  · split
    · exact (h.endReference _).take c
    · exact h.endReference _

theorem takeAhead : t₀.Advances t.takeAhead := by
  have hnone : t₀.Advances { t with ahead := [] } := h.of_eq rfl rfl
  exact (hnone.foldl_take _).flush

theorem readMarkup (foreign : Bool) (c : Char) : t₀.Advances (t.readMarkup foreign c) := by
  have hnext : t₀.Advances { t with ahead := c :: t.ahead } := h.of_eq rfl rfl
  unfold Tokenizer.readMarkup
  dsimp only
  split_ifs
  · exact h.of_eq rfl rfl
  · exact hnext
  · exact h.of_eq rfl rfl
  · exact hnext
  · exact h.of_eq rfl rfl
  · exact hnext
  · exact hnext.takeAhead

theorem readKeyword (c : Char) : t₀.Advances (t.readKeyword c) := by
  have hnext : t₀.Advances { t with ahead := c :: t.ahead, afterReturn := false } := h.of_eq rfl rfl
  unfold Tokenizer.readKeyword
  dsimp only
  split_ifs
  · exact h.of_eq rfl rfl
  · exact h.of_eq rfl rfl
  · exact hnext
  · exact h.of_eq rfl rfl
  · exact hnext
  · exact hnext.takeAhead

theorem readBeforeAttrValue (c : Char) : t₀.Advances (t.readBeforeAttrValue c) := by
  unfold Tokenizer.readBeforeAttrValue
  split_ifs
  · exact h
  · exact h.goto _
  · exact h.goto _
  · exact h.acts ((Acts.id True).emitTag _)
  · exact (h.goto _).take c

/-! ## The whole source -/

/-- **The line only goes up.** Whatever character is read, tokens are handed over on lines from the
one where the tokenizer was to the one where it is then. -/
theorem step (foreign : Bool) (c : Char) : t₀.Advances (t.step foreign c) := by
  unfold Tokenizer.step
  split
  · exact h.readReference _ c
  · exact h.readMarkup foreign c
  · exact h.readKeyword c
  · exact h.readBeforeAttrValue c
  · exact h.take c

theorem pause : t₀.Advances t.pause := h.flush.of_eq rfl rfl

theorem finish : t₀.Advances t.finish := by
  unfold Tokenizer.finish
  refine emit (acts (flush (takeAhead ?_)) (acts_close True)) _
  split
  · exact h.endReference _
  · exact h

end Advances

end HtmlWalk.Html.Tokenizer
