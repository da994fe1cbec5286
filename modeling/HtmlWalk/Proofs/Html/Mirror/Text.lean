import HtmlWalk.Proofs.Html.Mirror.Rules

/-!
# Characters in two parts

It makes no difference to the document whether the builder puts some characters somewhere at once or
in two parts. At the end of an element that is `Builder.putText_append`. In the body the formatting
elements that were closed by force are opened before the first part; before the second part there
are none left (`Builder.reopenFormatting_idem`), hence `Builder.charsInBody_append`. Characters that
were kept in a table come in as many parts as they were kept in, hence
`Builder.Mirrors.placeTableText`.
-/

namespace HtmlWalk.Html.Builder

/-! ## Builders that mirror each other under some names -/

/-- The second builder is the first one with some other names for the nodes, and with characters in
smaller parts. -/
def Mirrored (b b' : Builder) : Prop := ∃ f, b.Mirrors f b'

namespace Mirrored

variable {b b' b'' : Builder}

protected theorem trans (h : b.Mirrored b') (h' : b'.Mirrored b'') : b.Mirrored b'' :=
  let ⟨_, hf⟩ := h
  let ⟨_, hg⟩ := h'
  ⟨_, hf.trans hg⟩

/-- The first builder mirrors itself. -/
theorem left (h : b.Mirrored b') : b.Mirrored b :=
  let ⟨_, hf⟩ := h
  ⟨_, hf.left⟩

theorem fit (h : b.Mirrored b') : b.Fit :=
  let ⟨_, hf⟩ := h
  hf.fit

end Mirrored

variable {b : Builder}

/-! ## At the end of an element -/

/-- **Characters can be put in two parts.** -/
theorem putText_append (h : b.Mirrored b) (x y : List Char) :
    (b.putText (x ++ y)).Mirrored ((b.putText x).putText y) := by
  obtain ⟨f, h⟩ := h
  obtain ⟨-, hwithin⟩ := h.targetIn h.current_lt
  have htarget : (b.putText x).targetIn (b.putText x).current = b.targetIn b.current := by
    rw [putText_eq]
    rfl
  obtain ⟨g, hg, hecho⟩ := Echo.cut h.echo.fit hwithin (String.ofList x) (String.ofList y)
  have hboth : (b.putText x).putText y =
      (b.emit ((b.targetIn b.current).edit (.text (String.ofList x)))).emit
        ((b.targetIn b.current).edit (.text (String.ofList y))) := by
    rw [putText_eq _ y, htarget, putText_eq]
  rw [hboth]
  refine ⟨g, (h.left.putText (x ++ y)).congr (fun i hi => ?_) ?_ ?_⟩
  · refine hg i ?_
    rwa [putText_eq, size_edits_emit] at hi
  · rw [putText_eq, String.ofList_append]
    exact hecho
  · rw [putText_eq]
    rfl

/-! ## In the body -/

/-- The last formatting element needs no opening again. -/
def IsSettled (b : Builder) : Prop := ∀ entry ∈ b.formatting.head?, b.isSettled entry = true

theorem reopenFormatting_of_isSettled (h : b.IsSettled) : b.reopenFormatting = b := by
  unfold reopenFormatting
  unfold IsSettled at h
  cases hlist : b.formatting with
  | nil =>
    simp only [List.takeWhile_nil, List.dropWhile_nil, List.foldr_nil]
    rw [← hlist]
  | cons entry rest =>
    have hentry := h entry (by rw [hlist]; rfl)
    simp only [List.takeWhile_cons, List.dropWhile_cons, hentry, Bool.not_true, Bool.false_eq_true,
      if_false, List.foldr_nil]
    rw [← hlist]

/-- The element that was opened last is open. -/
theorem IsSettled.reopen (h : b.IsSettled) (entry : Format) :
    (Builder.reopen entry b).IsSettled := by
  cases entry with
  | marker => exact h
  | element id tag =>
    intro entry hentry
    obtain rfl := Option.some.inj hentry
    simp [isSettled, isOpen, opens, Builder.reopen, insert, insertOpen, nextOpen]

theorem isSettled_reopenFormatting (b : Builder) : b.reopenFormatting.IsSettled := by
  unfold reopenFormatting
  generalize b.formatting.takeWhile (!b.isSettled ·) = lost
  induction lost with
  | nil =>
    intro entry hentry
    have hhead := List.head?_dropWhile_not (!b.isSettled ·) b.formatting
    rw [show (b.formatting.dropWhile (!b.isSettled ·)).head? = some entry from hentry] at hhead
    have hsettled : b.isSettled entry = true := by simpa using hhead
    cases entry with
    | marker => rfl
    | element id tag => exact hsettled
  | cons entry lost ih => exact ih.reopen entry

/-- Formatting elements are opened again only once. -/
theorem reopenFormatting_charsInBody (b : Builder) (run : List Char) :
    (b.charsInBody run).reopenFormatting = b.charsInBody run := by
  refine reopenFormatting_of_isSettled ?_
  have h := b.isSettled_reopenFormatting
  unfold charsInBody noFramesetAfter
  split
  all_goals
    rw [putText_eq]
    intro entry hentry
    have hsettled := h entry hentry
    cases entry with
    | marker => rfl
    | element id tag => exact hsettled

/-- What rules out a frameset does not decide where characters go. -/
theorem noFramesetAfter_append (b : Builder) (x y : List Char) :
    (b.noFramesetAfter (x ++ y)).putText x =
      ((b.noFramesetAfter x).putText x).noFramesetAfter y := by
  have happend : hasInk (x ++ y) = (hasInk x || hasInk y) := List.any_append
  unfold noFramesetAfter
  rw [happend]
  simp only [putText_eq]
  cases hasInk x <;> cases hasInk y <;> rfl

/-- **Characters in the body can be dealt with in two parts.** -/
theorem charsInBody_append (h : b.Mirrored b) (x y : List Char) :
    (b.charsInBody (x ++ y)).Mirrored ((b.charsInBody x).charsInBody y) := by
  obtain ⟨f, h⟩ := h
  have hopen : (b.reopenFormatting.noFramesetAfter (x ++ y)).Mirrored
      (b.reopenFormatting.noFramesetAfter (x ++ y)) :=
    ⟨_, (h.reopenFormatting.noFramesetAfter (x ++ y)).left⟩
  have hparts := putText_append hopen x y
  rw [noFramesetAfter_append] at hparts
  have hsecond : (b.charsInBody x).charsInBody y =
      ((b.charsInBody x).noFramesetAfter y).putText y := by
    rw [charsInBody, reopenFormatting_charsInBody]
  rw [hsecond]
  exact hparts

/-! ## In a table -/

/-- Characters that were kept are dealt with in the parts in which they were kept. -/
theorem foldr_recut {k : Builder → List Char → Builder}
    (hk : ∀ {b b' : Builder}, b.Mirrored b' → ∀ run, (k b run).Mirrored (k b' run))
    (happend : ∀ {b : Builder}, b.Mirrored b → ∀ x y, (k b (x ++ y)).Mirrored (k (k b x) y))
    {runs runs' : List (List Char)} (hruns : Recut runs runs') {b b' : Builder}
    (h : b.Mirrored b') :
    (runs.foldr (fun run b => k b run) b).Mirrored (runs'.foldr (fun run b => k b run) b') := by
  have hself : ∀ runs : List (List Char), (runs.foldr (fun run b => k b run) b).Mirrored
      (runs.foldr (fun run b => k b run) b) := by
    intro runs
    induction runs with
    | nil => exact h.left
    | cons run runs ih => exact hk ih run
  induction hruns with
  | nil => exact h
  | whole run hruns ih => exact hk ih run
  | part x y hruns ih => exact (happend (hself _) x y).trans (hk ih y)

theorem Mirrors.setTableText {f : Nat → Nat} {b b' : Builder} (h : Mirrors f b b')
    {runs runs' : List (List Char)} (hruns : Recut runs runs') :
    Mirrors f { b with tableText := runs } { b' with tableText := runs' } :=
  { h with tableText := hruns, fit := { h.fit with } }

theorem Mirrors.setFostering {f : Nat → Nat} {b b' : Builder} (h : Mirrors f b b')
    (fostering : Bool) : Mirrors f { b with fostering } { b' with fostering } :=
  { h with fostering := rfl, fit := { h.fit with } }

/-- **The characters that were kept in a table can be placed in more parts.** -/
theorem Mirrors.placeTableText {f : Nat → Nat} {b b' : Builder} (h : Mirrors f b b') :
    b.placeTableText.Mirrored b'.placeTableText := by
  have hempty := h.setTableText .nil
  unfold Builder.placeTableText
  simp only [List.any_reverse, h.tableText.any_hasInk, List.foldl_reverse]
  split
  · obtain ⟨g, hg⟩ := foldr_recut (k := Builder.charsInBody)
      (fun ⟨_, h⟩ run => ⟨_, h.charsInBody run⟩) charsInBody_append h.tableText
      ⟨_, hempty.setFostering true⟩
    exact ⟨g, hg.setFostering false⟩
  · exact foldr_recut (k := Builder.putText) (fun ⟨_, h⟩ run => ⟨_, h.putText run⟩) putText_append
      h.tableText ⟨_, hempty⟩

end HtmlWalk.Html.Builder
