import HtmlWalk.Proofs.Html.TokenParts

/-!
# Runs of characters

How long the runs are that the tokenizer hands over depends on more than the source: an exact
tokenizer hands over every character by itself, and any other one ends a run with each piece of the
source. But it always hands over the same characters between the same tokens, and what it reads next
does not depend on where its runs ended.

An exact tokenizer reads along with another one. While a run is under construction, the other one
`Trails` it: it is in step but for the characters that it has not handed over yet. Between two
characters of the source it `Follows` the exact one, which says the same of character references.

**Theorem (`Tokenizer.Follows.step`).** The tokenizer follows the exact one from one character to
the next. It still does so if it is told that a piece of the source ends and the exact one is not
(`Tokenizer.Follows.pause`), and in the end both have said the same (`Tokenizer.Follows.finish`).
-/

namespace HtmlWalk.Html

/-- Whether a token is only text, or less. -/
def Token.isSilent : Token → Bool
  | chars _ | flaw => true
  | _ => false

namespace Tokenizer

/-- A run may be under construction. -/
structure MayRun (t : Tokenizer) : Prop where
  state : t.state.isText = true
  exact : t.exact = false
  alone : t.alone = false
  afterReturn : t.afterReturn = false

/-- The second tokenizer is exact, and the first one is where it is but for the run under
construction. -/
structure Trails (quiet free : Prop) (before : List Token) (t u : Tokenizer) : Prop where
  flushed : InStep quiet free before t.flush u
  mayRun : t.run ≠ [] → t.MayRun

variable {quiet free : Prop} {before : List Token} {t u : Tokenizer}

theorem InStep.trails (h : InStep quiet free before t u) : Trails quiet free before t u where
  flushed := h.flush_left.symm ▸ h
  mayRun hrun := absurd h.run hrun

theorem flush_of_run_nil (h : t.run = []) : t.flush = t := by
  rw [flush, h]
  rfl

theorem Trails.inStep (h : Trails quiet free before t u) (hrun : t.run = []) :
    InStep quiet free before t u :=
  flush_of_run_nil hrun ▸ h.flushed

/-! ### Text -/

theorem spoken_flush (t : Tokenizer) :
    spoken t.flush.out = spoken t.out ++ t.run.reverse.map fun c => .chars [c] := by
  unfold flush
  split
  · simp_all
  · next h =>
    have hrun : t.run.reverse ≠ [] := by simpa using h
    simp [emit, Token.parts_chars hrun]

/-- Only the run is handed over. -/
theorem flush_eq (t : Tokenizer) : t.flush = { t with run := [], out := t.flush.out } := by
  unfold flush
  split
  · next h =>
    have hrun : t.run = [] := by simpa using h
    rw [← hrun]
  · rfl

/-- The run goes on with a character, which the exact tokenizer hands over. -/
theorem InStep.join (h : InStep quiet free before t.flush u) (c : Char) :
    InStep quiet free before (Tokenizer.flush { t with run := c :: t.run }) (u.emitChar c) := by
  have hchar := h.emitChar c
  have hout : spoken (Tokenizer.flush { t with run := c :: t.run }).out =
      spoken (t.flush.emitChar c).out := by
    simp [spoken_flush, Tokenizer.emitChar, Tokenizer.emit, Token.parts]
  have hout := hout.trans hchar.out
  rw [flush_eq] at hchar ⊢
  exact { hchar with run := rfl, out := hout }

/-! ### Characters of the source -/

/-- A line feed after the name of a declaration counts for nothing. -/
theorem take_break (hstate : t.state = .afterDoctypeName) : ∃ line alone,
    t.take '\n' = { t.flush with line, alone, afterReturn := false } := by
  have hjoins : t.state.joins '\n' = false := by
    rw [hstate]
    rfl
  have hflush : t.flush.state = .afterDoctypeName := by rw [flush_eq, hstate]
  unfold take
  rw [hjoins, if_neg Bool.false_ne_true]
  dsimp only
  split
  · exact ⟨_, _, rfl⟩
  · refine ⟨t.flush.line + 1, false, ?_⟩
    unfold accept
    rw [hflush]
    rfl

/-- A character is read whose line end has been counted. -/
theorem Trails.accept (h : Trails quiet False before t u) {c : Char} (hc : quiet → c ≠ '&')
    {alone : Bool} (hrun : alone = true → t.run = [])
    (hjoins : alone = false → c ≠ '\r' ∧ (t.state.joins c = true ∨ t.run = []) ∧
      t.exact = false ∧ t.alone = false ∧ t.afterReturn = false) :
    InStep quiet False before (t.accept c alone) (u.accept c true) ∨
      Trails quiet False before (t.accept c alone) (u.accept c true) ∧
        (t.accept c alone).reference = t.reference := by
  cases alone with
  | true => exact .inl ((h.inStep (hrun rfl)).accept hc)
  | false =>
    obtain ⟨hreturn, hrun, hexact, halone, hafter⟩ := hjoins rfl
    by_cases htext : t.state.isText = true ∧ t.state.joins c = true
    · have hu : u.accept c true = u.emitChar c := by
        have hstate : u.state = t.state := by rw [h.flushed.state, flush_eq]
        exact (accept_of_joins (hstate ▸ htext.1) (hstate ▸ htext.2)).1
      rw [hu]
      rcases (accept_of_joins htext.1 htext.2).2 with ht | ⟨hrun, ht⟩
      · rw [ht]
        exact .inr ⟨⟨h.flushed.join c, fun _ => ⟨htext.1, hexact, halone, hafter⟩⟩, rfl⟩
      · rw [ht]
        exact .inl ((h.inStep hrun).emitChar c)
    · have hempty : t.run = [] := by
        by_contra hrun'
        exact htext ⟨(h.mayRun hrun').state, hrun.resolve_right hrun'⟩
      rw [accept_of_not_joins hreturn (by grind)]
      exact .inl ((h.inStep hempty).accept hc)

/-- A line end is counted. -/
theorem Trails.count (h : Trails quiet free before t u) (line line' : Nat) {afterReturn : Bool}
    (hrun : t.run ≠ [] → afterReturn = false) :
    Trails quiet False before { t with afterReturn, alone := false, line }
      { u with afterReturn, alone := false, line := line' } where
  flushed := by
    have hflushed := h.flushed
    have hout := h.flushed.out
    rw [flush_eq] at hflushed ⊢
    rw [spoken_flush] at hout
    exact { hflushed with afterReturn := .inl rfl, out := by rw [spoken_flush]; exact hout }
  mayRun hne := { h.mayRun hne with alone := rfl, afterReturn := hrun hne }

/-- **The tokenizer still trails the exact one** after a character of the source. If a run is then
under construction, no character reference has been begun. -/
theorem Trails.take (h : Trails quiet free before t u)
    (hfree : free → t.state = .afterDoctypeName) {c : Char} (hc : quiet → c ≠ '&') :
    InStep quiet False before (t.take c) (u.take c) ∨
      Trails quiet False before (t.take c) (u.take c) ∧ (t.take c).reference = t.reference := by
  have hstate : u.state = t.state := by rw [h.flushed.state, flush_eq]
  by_cases hbreak : c = '\n' ∧ t.state = .afterDoctypeName
  · obtain ⟨rfl, hname⟩ := hbreak
    obtain ⟨line, alone, ht⟩ := take_break hname
    obtain ⟨line', alone', hu⟩ := take_break (hstate.trans hname)
    rw [ht, hu, h.flushed.flush_right]
    exact .inl { h.flushed with afterReturn := .inl rfl }
  -- What is left of the run is handed over first, unless the character joins it.
  have hrest : ∃ v, (if t.state.joins c then t else t.flush) = v ∧
      Trails quiet free before v u ∧ v.reference = t.reference ∧
      (v.state.joins c = true ∨ v.run = []) := by
    split
    · next hjoins => exact ⟨t, rfl, h, rfl, .inl hjoins⟩
    · exact ⟨t.flush, rfl, h.flushed.trails, by rw [flush_eq], .inr h.flushed.run⟩
  have hexact : (if u.state.joins c then u else u.flush) = u := by
    rw [h.flushed.flush_right, ite_self]
  obtain ⟨v, hv, h, href, hrun⟩ := hrest
  have hsame : (u.afterReturn && c == '\n') = (v.afterReturn && c == '\n') := by
    have hafter := h.flushed.afterReturn
    rw [flush_eq] at hafter
    grind
  rw [← href]
  unfold Tokenizer.take
  rw [hv, hexact]
  dsimp only
  rw [hsame]
  split
  · next hlf =>
    have hempty : v.run = [] := by
      by_contra hrun
      have := (h.mayRun hrun).afterReturn
      simp_all
    exact .inl { h.inStep hempty with afterReturn := .inl rfl }
  · have hreturn : v.run ≠ [] → (c == '\r') = false := by
      intro hne
      have hjoins := hrun.resolve_right hne
      unfold State.joins at hjoins
      grind
    have halone : (u.exact || u.alone || u.afterReturn || c == '\r') = true := by
      simp [h.flushed.exact]
    rw [halone]
    refine (h.count _ _ hreturn).accept (fun hq => ?_) (fun halone => ?_) fun halone => ?_
    · split
      · decide
      · exact hc hq
    · by_contra hne
      have hmay := h.mayRun hne
      simp [hmay.exact, hmay.alone, hmay.afterReturn, hreturn hne] at halone
    · simp only [Bool.or_eq_false_iff] at halone
      obtain ⟨⟨⟨hexact, -⟩, -⟩, hreturn⟩ := halone
      have hchar : (if c == '\r' || c == '\n' then '\n' else c) = c := by grind
      rw [hchar]
      exact ⟨by simpa using hreturn, hrun, hexact, rfl, hreturn⟩

theorem Trails.foldl_take (h : Trails quiet False before t u) {cs : List Char}
    (hcs : quiet → '&' ∉ cs) :
    Trails quiet False before (cs.foldl Tokenizer.take t) (cs.foldl Tokenizer.take u) := by
  induction cs generalizing t u with
  | nil => exact h
  | cons c cs ih =>
    have htake : Trails quiet False before (t.take c) (u.take c) := by
      rcases h.take False.elim fun hq hc => hcs hq (hc ▸ List.mem_cons_self) with h | h
      · exact h.trails
      · exact h.1
    exact ih htake fun hq hmem => hcs hq (List.mem_cons_of_mem c hmem)

/-! ### Characters that are looked at first -/

/-- The tokenizer stands where a keyword may follow, and it has handed over only text. A line feed
that belongs to a carriage return before it makes no difference there. -/
def Waits (t : Tokenizer) : Prop :=
  t.state = .afterDoctypeName ∧ t.ahead = [] ∧ ∀ e ∈ t.out, e.2.isSilent = true

theorem Waits.emit (h : t.Waits) {token : Token} (htoken : token.isSilent = true) :
    (t.emit token).Waits :=
  ⟨h.1, h.2.1, List.forall_mem_cons.2 ⟨htoken, h.2.2⟩⟩

theorem isSilent_flush (h : ∀ e ∈ t.out, e.2.isSilent = true) :
    ∀ e ∈ t.flush.out, e.2.isSilent = true := by
  unfold flush
  split
  · exact h
  · exact List.forall_mem_cons.2 ⟨rfl, h⟩

theorem Waits.flush (h : t.Waits) : t.flush.Waits :=
  ⟨by rw [flush_eq, h.1], by rw [flush_eq, h.2.1], isSilent_flush h.2.2⟩

theorem InStep.putReference (h : InStep quiet t.Waits before t u) (cs : List Char) :
    InStep quiet (t.putReference cs).Waits before (t.putReference cs) (u.putReference cs) := by
  have hattr : u.inAttrValue = t.inAttrValue := by rw [inAttrValue, inAttrValue, h.state]
  unfold Tokenizer.putReference
  rw [hattr]
  split
  · exact h.pushValue cs
  · clear hattr
    induction cs generalizing t u with
    | nil => exact h
    | cons c cs ih => exact ih ((h.emitChar c).mono id fun hwaits => hwaits.emit rfl) ‹_›

/-- Characters are read again. -/
theorem InStep.readAgain (h : InStep quiet t.Waits before t u) {cs : List Char}
    (hcs : quiet → '&' ∉ cs) :
    let v := if cs.isEmpty then t else (cs.foldl take t).flush
    InStep quiet v.Waits before v (if cs.isEmpty then u else (cs.foldl take u).flush) := by
  cases cs with
  | nil => exact h
  | cons c cs =>
    have htake : Trails quiet False before (t.take c) (u.take c) := by
      rcases h.trails.take And.left fun hq hc => hcs hq (hc ▸ List.mem_cons_self) with h | h
      · exact h.trails
      · exact h.1
    have hrest := htake.foldl_take fun hq hmem => hcs hq (List.mem_cons_of_mem c hmem)
    have hflushed := hrest.flushed
    rw [← hflushed.flush_right] at hflushed
    exact hflushed.mono id False.elim

theorem InStep.endReference (h : InStep quiet t.Waits before t u) (e : Reference.Ended)
    {quiet' : Prop} (he : quiet' → '&' ∉ e.again) :
    InStep quiet' (t.endReference e).Waits before (t.endReference e) (u.endReference e) := by
  have hnone : InStep quiet' t.Waits before { t with reference := none }
      { u with reference := none } :=
    { h with reference := rfl, quiet := fun _ => rfl, mark := nofun }
  refine InStep.readAgain (InStep.putReference ?_ e.chars) he
  split
  · refine (hnone.emit .flaw).mono id fun hwaits => ?_
    exact Waits.emit (t := { t with reference := none }) hwaits rfl
  · exact hnone

theorem Trails.takeAhead (h : Trails False t.Waits before t u) :
    InStep False t.takeAhead.Waits before t.takeAhead u.takeAhead := by
  have hahead : u.ahead = t.ahead := by rw [h.flushed.ahead, flush_eq]
  unfold Tokenizer.takeAhead
  rw [hahead]
  cases hcs : t.ahead with
  | nil =>
    have hnone : { t with ahead := [] } = t := by rw [← hcs]
    have hnone' : { u with ahead := [] } = u := by rw [← hcs, ← hahead]
    rw [hnone, hnone', List.reverse_nil, List.foldl_nil, List.foldl_nil, h.flushed.flush_right]
    exact h.flushed.mono id Waits.flush
  | cons c cs =>
    -- No keyword is waited for any longer.
    have hstrict : Trails False False before { t with ahead := [] } { u with ahead := [] } := by
      have hflushed : InStep False False before t.flush u :=
        h.flushed.mono id fun hwaits => by simp [Waits, hcs] at hwaits
      refine ⟨?_, fun hrun => { h.mayRun hrun with }⟩
      have hout := hflushed.out
      rw [spoken_flush] at hout
      rw [flush_eq] at hflushed ⊢
      exact { hflushed with ahead := rfl, out := by rw [spoken_flush]; exact hout }
    have hflushed : ∀ cs : List Char, InStep False False before
        (cs.foldl Tokenizer.take { t with ahead := [] }).flush
        (cs.foldl Tokenizer.take { u with ahead := [] }) :=
      fun _ => (hstrict.foldl_take False.elim).flushed
    have hflushed := hflushed (c :: cs).reverse
    rw [← hflushed.flush_right] at hflushed
    exact hflushed.mono id False.elim

theorem InStep.takeAhead (h : InStep quiet t.Waits before t u) :
    InStep False t.takeAhead.Waits before t.takeAhead u.takeAhead :=
  (h.mono False.elim id).trails.takeAhead

/-! ### Steps -/

/-- Between two characters the tokenizer follows the exact one. -/
structure Follows (free : Prop) (before : List Token) (t u : Tokenizer) : Prop where
  trails : Trails False free before t u
  reference : t.run ≠ [] → t.reference = none

theorem Follows.mono (h : Follows free before t u) {free' : Prop} (hfree : free → free') :
    Follows free' before t u :=
  ⟨⟨h.trails.flushed.mono id hfree, h.trails.mayRun⟩, h.reference⟩

theorem InStep.follows (h : InStep quiet free before t u) : Follows free before t u where
  trails := (h.mono False.elim id).trails
  reference hrun := absurd h.run hrun

/-- Where no keyword is waited for, both agree about carriage returns. -/
theorem InStep.follows_strict (h : InStep quiet False before t u) : Follows t.Waits before t u :=
  h.follows.mono False.elim

theorem Trails.take_follows (h : Trails False free before t u)
    (hfree : free → t.state = .afterDoctypeName) (href : t.reference = none) (c : Char) :
    Follows (t.take c).Waits before (t.take c) (u.take c) := by
  rcases h.take hfree False.elim with h | ⟨h, hsame⟩
  · exact h.follows_strict
  · exact ⟨⟨h.flushed.mono id False.elim, h.mayRun⟩, fun _ => hsame.trans href⟩

section

variable {inAttr : Bool} {r : Reference} {c : Char}
  (hmark : ∀ m value, r = .digits (some m) value → m ≠ '&')
include hmark

/-- A number is not marked by an ampersand. -/
theorem mark_of_read {r' : Reference} (h : r.read inAttr c = .more r') :
    ∀ m value, r' = .digits (some m) value → m ≠ '&' := by
  have hname : ∀ read best, Reference.readName inAttr read best c = .more r' →
      ∀ m value, r' ≠ .digits (some m) value := by
    intro read best h
    unfold Reference.readName at h
    grind
  have hdigit : ∀ hex value, (∀ m, hex = some m → m ≠ '&') →
      Reference.readDigit hex value c = .more r' →
        ∀ m value, r' = .digits (some m) value → m ≠ '&' := by
    intro hex value hhex h
    unfold Reference.readDigit at h
    grind
  cases r with
  | start => grind [Reference.read]
  | number => grind [Reference.read]
  | digits hex value => exact hdigit hex value (fun m hm => hmark m value (hm ▸ rfl)) h
  | name read best => exact fun m value hm => absurd hm (hname read best h m value)
  | unknown read => grind [Reference.read]

/-- What is read again before a character that is still unread holds no ampersand. -/
theorem not_mem_again_of_read {e : Reference.Ended} (h : r.read inAttr c = .ended e)
    (hunread : e.unread = true) : '&' ∉ e.again := by
  have hname : ∀ read best,
      Reference.readName inAttr read best c = .ended e → e.unread = false := by
    intro read best h
    unfold Reference.readName Reference.endName at h
    grind
  have hdigit : ∀ hex value, (∀ m, hex = some m → m ≠ '&') →
      Reference.readDigit hex value c = .ended e → '&' ∉ e.again := by
    intro hex value hhex h
    unfold Reference.readDigit Reference.endBareNumber Reference.endNumber at h
    cases hex <;> grind
  cases r with
  | start => grind [Reference.read]
  | number => grind [Reference.read]
  | digits hex value => exact hdigit hex value (fun m hm => hmark m value (hm ▸ rfl)) h
  | name read best => grind [Reference.read]
  | unknown read => grind [Reference.read]

end

theorem InStep.readReference (h : InStep quiet t.Waits before t u) {r : Reference}
    (hr : t.reference = some r) (c : Char) :
    Follows (t.readReference r c).Waits before (t.readReference r c) (u.readReference r c) := by
  have hattr : u.inAttrValue = t.inAttrValue := by rw [inAttrValue, inAttrValue, h.state]
  have hmark : ∀ m value, r = .digits (some m) value → m ≠ '&' := fun m value hm =>
    h.mark m value (hm ▸ hr)
  unfold Tokenizer.readReference
  rw [hattr]
  cases hread : r.read t.inAttrValue c with
  | more r' =>
    have hmore : InStep False t.Waits before { t with reference := some r' }
        { u with reference := some r' } :=
      { h with
        reference := rfl
        quiet := False.elim
        mark := fun m value hm => mark_of_read hmark hread m value (Option.some.inj hm) }
    exact hmore.follows
  | ended e =>
    have hend := h.endReference e (not_mem_again_of_read hmark hread)
    dsimp only
    split
    · next hunread =>
      exact (hend.mono False.elim id).trails.take_follows And.left (hend.quiet hunread) c
    · exact hend.follows

theorem InStep.readMarkup (h : InStep quiet False before t u) (foreign : Bool) (c : Char) :
    Follows (t.readMarkup foreign c).Waits before (t.readMarkup foreign c)
      (u.readMarkup foreign c) := by
  have hnext : InStep quiet False before { t with ahead := c :: t.ahead }
      { u with ahead := c :: t.ahead } := { h with ahead := rfl }
  unfold Tokenizer.readMarkup
  dsimp only
  rw [h.ahead]
  split_ifs
  · exact InStep.follows_strict { h with ahead := rfl, comment := rfl, state := rfl }
  · exact hnext.follows_strict
  · exact InStep.follows_strict { h with ahead := rfl, state := rfl }
  · exact hnext.follows_strict
  · exact InStep.follows_strict { h with ahead := rfl, held := rfl, state := rfl }
  · exact hnext.follows_strict
  · exact (hnext.mono id False.elim).takeAhead.follows

/-- Where a keyword is waited for, a line feed counts for nothing. -/
theorem readKeyword_break (hstate : t.state = .afterDoctypeName) (hahead : t.ahead = [])
    (hrun : t.run = []) : ∃ line alone,
    t.readKeyword '\n' = { t with line, alone, afterReturn := false } := by
  unfold readKeyword
  by_cases hafter : t.afterReturn = true
  · exact ⟨t.line, t.alone, by simp [hafter]⟩
  · obtain ⟨line, alone, htake⟩ :=
      take_break (t := { t with afterReturn := false, ahead := [] }) hstate
    have hpublic : begins ['\n'].reverse "public" true = false := by decide
    have hsystem : begins ['\n'].reverse "system" true = false := by decide
    refine ⟨line, alone, ?_⟩
    simp only [hafter, hahead, hpublic, hsystem, Bool.false_and, Bool.false_eq_true, if_false]
    have hflush : Tokenizer.flush { t with afterReturn := false, ahead := [] } =
        { t with afterReturn := false, ahead := [] } := flush_of_run_nil hrun
    rw [hflush] at htake
    show (Tokenizer.take { t with afterReturn := false, ahead := [] } '\n').flush = _
    rw [htake]
    exact flush_of_run_nil hrun

theorem InStep.readKeyword (h : InStep quiet t.Waits before t u)
    (hstate : t.state = .afterDoctypeName) (c : Char) :
    Follows (t.readKeyword c).Waits before (t.readKeyword c) (u.readKeyword c) := by
  by_cases hbreak : c = '\n' ∧ t.ahead = []
  · obtain ⟨rfl, hahead⟩ := hbreak
    obtain ⟨line, alone, ht⟩ := readKeyword_break hstate hahead h.run
    obtain ⟨line', alone', hu⟩ :=
      readKeyword_break (h.state.trans hstate) (h.ahead.trans hahead) h.run_exact
    rw [ht, hu]
    exact InStep.follows_strict { h with afterReturn := .inl rfl }
  · have hsame : (u.afterReturn && c == '\n') = (t.afterReturn && c == '\n') := by
      have hafter := h.afterReturn
      unfold Waits at hafter
      grind
    have hnext : InStep quiet False before { t with ahead := c :: t.ahead, afterReturn := false }
        { u with ahead := c :: t.ahead, afterReturn := false } :=
      { h with ahead := rfl, afterReturn := .inl rfl }
    unfold Tokenizer.readKeyword
    dsimp only
    rw [hsame, h.ahead]
    split_ifs
    · exact InStep.follows_strict { h with ahead := rfl, afterReturn := .inl rfl }
    · exact InStep.follows_strict { hnext with ahead := rfl, state := rfl }
    · exact hnext.follows_strict
    · exact InStep.follows_strict { hnext with ahead := rfl, state := rfl }
    · exact hnext.follows_strict
    · exact (hnext.mono id False.elim).takeAhead.follows

theorem InStep.readBeforeAttrValue (h : InStep quiet False before t u) (href : t.reference = none)
    (c : Char) :
    Follows (t.readBeforeAttrValue c).Waits before (t.readBeforeAttrValue c)
      (u.readBeforeAttrValue c) := by
  unfold Tokenizer.readBeforeAttrValue
  split_ifs
  · exact h.follows_strict
  · exact (h.goto _).follows_strict
  · exact (h.goto _).follows_strict
  · exact (h.emitTag _).follows_strict
  · have hnext := (h.mono False.elim id).goto (.attrValue .bare)
    exact hnext.trails.take_follows False.elim href c

namespace Follows

/-- **The tokenizer follows the exact one** from one character to the next. Whether the tree builder
stands in foreign content makes a difference only after the start of markup. -/
theorem step (h : Follows t.Waits before t u) {foreign foreign' : Bool}
    (hforeign : t.state = .markup → foreign' = foreign) (c : Char) :
    Follows (t.step foreign c).Waits before (t.step foreign c) (u.step foreign' c) := by
  have hstate : u.state = t.state := by rw [h.trails.flushed.state, flush_eq]
  have href : u.reference = t.reference := by rw [h.trails.flushed.reference, flush_eq]
  have hrun : t.state.isText = false → InStep False t.Waits before t u := fun htext =>
    h.trails.inStep (by_contra fun hne => by simp [(h.trails.mayRun hne).state] at htext)
  have hstrict : t.state.isText = false → t.state ≠ .afterDoctypeName →
      InStep False False before t u := fun htext hname =>
    (hrun htext).mono id fun hwaits => hname hwaits.1
  unfold Tokenizer.step
  rw [hstate, href]
  split
  · next r hr =>
    have hempty : t.run = [] := by_contra fun hne => by simp [h.reference hne] at hr
    exact (h.trails.inStep hempty).readReference hr c
  · next hmarkup =>
    have hin := hstrict (by rw [hmarkup]; rfl) (by simp [hmarkup])
    rw [hforeign hmarkup]
    exact hin.readMarkup foreign c
  · next hname => exact (hrun (by rw [hname]; rfl)).readKeyword hname c
  · next hnone hvalue =>
    exact (hstrict (by rw [hvalue]; rfl) (by simp [hvalue])).readBeforeAttrValue hnone c
  · next hnone _ _ _ => exact h.trails.take_follows And.left hnone c

/-- What has been handed over is taken; the run is still to come. -/
theorem taken (h : Follows free before t u) :
    Follows free (t.run.reverse.map fun c => .chars [c]) { t with out := [] }
      { u with out := [] } := by
  have hflushed := h.trails.flushed
  refine ⟨⟨?_, fun hrun => { h.trails.mayRun hrun with }⟩, h.reference⟩
  rw [flush_eq] at hflushed ⊢
  exact { hflushed with out := by rw [spoken_flush]; simp }

theorem goto (h : Follows False before t u) {s : State} (hs : s.isText = true) :
    Follows False before (t.goto s) (u.goto s) := by
  have hflushed := h.trails.flushed
  have hout := hflushed.out
  rw [spoken_flush] at hout
  refine ⟨⟨?_, fun hrun => { h.trails.mayRun hrun with state := hs }⟩, h.reference⟩
  rw [flush_eq] at hflushed ⊢
  exact { hflushed with state := rfl, out := by rw [spoken_flush]; exact hout }

/-- The end of a piece of the source ends the run. -/
theorem pause (h : Follows t.Waits before t u) (hout : ∀ e ∈ t.out, e.2.isSilent = true) :
    Follows t.pause.Waits before t.pause u := by
  have hflushed := h.trails.flushed
  suffices hafter : u.afterReturn = t.pause.afterReturn ∨ t.pause.Waits from
    InStep.follows { hflushed with afterReturn := hafter }
  by_cases hwaits : t.Waits
  · exact .inr hwaits.flush
  · have hname : (t.state == .afterDoctypeName && t.ahead.isEmpty) = false := by
      unfold Waits at hwaits
      grind
    have hafter := hflushed.afterReturn.resolve_right hwaits
    rw [flush_eq] at hafter
    exact .inl (by simp [Tokenizer.pause, hname, hafter])

/-- Where both agree about carriage returns, the exact one can pause too. -/
theorem pause_pause (h : Follows False before t u) : Follows False before t.pause u.pause := by
  have hflushed := h.trails.flushed
  have hafter := hflushed.afterReturn.resolve_right id
  have hstate := hflushed.state
  have hahead := hflushed.ahead
  rw [flush_eq] at hafter hstate hahead
  have hpause : InStep False False before t.pause
      { u.flush with alone := false, afterReturn := t.pause.afterReturn } := by
    rw [hflushed.flush_right]
    exact { hflushed with afterReturn := .inl rfl }
  unfold Tokenizer.pause at hpause ⊢
  rw [hstate, hahead, hafter]
  exact hpause.follows

end Follows

/-- **In the end both have said the same.** -/
theorem Follows.finish (h : Follows t.Waits before t u) :
    spoken t.finish.out = before ++ spoken u.finish.out := by
  have href : u.reference = t.reference := by rw [h.trails.flushed.reference, flush_eq]
  have hend : ∀ {v w : Tokenizer}, Trails False v.Waits before v w →
      spoken ((v.takeAhead.flush.close).emit .eof).out =
        before ++ spoken ((w.takeAhead.flush.close).emit .eof).out := fun h =>
    (h.takeAhead.flush.close.emit .eof).out
  unfold Tokenizer.finish
  rw [href]
  cases hr : t.reference with
  | none => exact hend h.trails
  | some r =>
    have hempty : t.run = [] := by_contra fun hne => by simp [h.reference hne] at hr
    have hin := h.trails.inStep hempty
    have hattr : u.inAttrValue = t.inAttrValue := by rw [inAttrValue, inAttrValue, hin.state]
    dsimp only
    rw [hattr]
    exact hend (hin.endReference (r.close t.inAttrValue) False.elim).trails

end Tokenizer

end HtmlWalk.Html
