import Mathlib.Data.List.TakeWhile
import HtmlWalk.Proofs.Html.Settling

/-!
# How characters are dealt with

Before the body characters pass through the insertion modes, each of which leaves them to the next
one, until a mode takes them. What happens on the way does not depend on the characters. The mode
that takes them does so in one of a few ways (`Writing`), and it takes the next characters in the
same way. So it makes no difference in how many parts the characters come:

**Theorem (`Builder.chars_append`, `Builder.space_append`).** A piece of characters is dealt with
like two pieces, the one after the other.
-/

namespace HtmlWalk.Html.Builder

/-! ## Ways to take characters -/

/-- A way to take characters. -/
inductive Writing
  /-- They count for nothing. -/
  | drop
  /-- They go to the end of the innermost element. -/
  | put
  /-- The rules of the body hold. -/
  | body
  /-- The rules of the body hold, and what is out of place in a table goes before the table. -/
  | foster
  /-- The rules of foreign content hold. -/
  | foreign
  /-- They are kept until it is known where they go. -/
  | keep

/-- Take characters. -/
def write (b : Builder) (run : List Char) : Writing → Builder
  | .drop => b
  | .put => b.putText run
  | .body => b.charsInBody run
  | .foster => { { b with fostering := true }.charsInBody run with fostering := false }
  | .foreign => (b.noFramesetAfter run).putText run
  | .keep => { b with tableText := run :: b.tableText }

variable {b c d : Builder}

/-! ## What characters change -/

/-- The innermost element stays what it is, or a formatting element is opened in it. -/
theorem stack_reopenFormatting (b : Builder) : b.reopenFormatting.stack = b.stack ∨
    ∃ entry ∈ b.formatting, ∃ tag ∈ entry.tag?, ∃ o rest,
      b.reopenFormatting.stack = o :: rest ∧ o.name = { tag := tag.name } := by
  have hlost : ∀ entry ∈ b.formatting.takeWhile (!b.isSettled ·),
      entry ∈ b.formatting ∧ b.isSettled entry = false := fun entry hentry =>
    ⟨(List.takeWhile_prefix _).subset hentry, by simpa using List.mem_takeWhile_imp hentry⟩
  unfold reopenFormatting
  generalize b.formatting.takeWhile (!b.isSettled ·) = lost at hlost ⊢
  cases lost with
  | nil => exact .inl rfl
  | cons entry lost =>
    obtain ⟨hmem, hsettled⟩ := hlost entry List.mem_cons_self
    cases entry with
    | marker => cases hsettled
    | element id tag => exact .inr ⟨_, hmem, tag, rfl, _, _, rfl, rfl⟩

theorem stack_charsInBody (b : Builder) (run : List Char) :
    (b.charsInBody run).stack = b.reopenFormatting.stack := by
  unfold charsInBody
  rw [putText_eq]
  unfold noFramesetAfter
  split <;> rfl

/-- Whether a piece is foreign depends on the elements that are open. -/
theorem isForeign_congr (hfragment : c.fragment = b.fragment) (hroot : c.root = b.root)
    (hstack : c.stack = b.stack) (p : Piece) : c.isForeign p = b.isForeign p := by
  have hdeciding : c.deciding = b.deciding := by
    rw [deciding, deciding, current, current, hfragment, hroot, hstack]
  unfold isForeign
  rw [hdeciding]

theorem isForeign_of_stack {o : Open} {rest : List Open} (hstack : c.stack = o :: rest)
    (ho : o.name.space = .html) (p : Piece) : c.isForeign p = false := by
  have hdeciding : c.deciding = o := by
    rw [deciding, current, hstack, List.isEmpty_cons, Bool.and_false]
    rfl
  simp [isForeign, hdeciding, ho]

/-- What is not foreign does not become foreign. -/
theorem isForeign_charsInBody {p : Piece} (h : b.isForeign p = false) (run : List Char) :
    (b.charsInBody run).isForeign p = false := by
  have hadds := adds_charsInBody b run
  have hstack := b.stack_charsInBody run
  rcases b.stack_reopenFormatting with hsame | ⟨_, -, tag, -, o, rest, hopen, ho⟩
  · rw [← h]
    exact isForeign_congr (by rw [hadds]) (by rw [hadds]) (hstack.trans hsame) p
  · exact isForeign_of_stack (hstack.trans hopen) (by rw [ho]) p

/-- What is no part of a table does not become one. -/
theorem isTableFrame_charsInBody (hfit : b.Fit) (h : b.current.name.isTableFrame = false)
    (run : List Char) : (b.charsInBody run).current.name.isTableFrame = false := by
  have hadds := adds_charsInBody b run
  have hstack := b.stack_charsInBody run
  rcases b.stack_reopenFormatting with hsame | ⟨entry, hentry, tag, htag, o, rest, hopen, ho⟩
  · have hcurrent : (b.charsInBody run).current = b.current := by
      rw [current, current, hstack, hsame, hadds]
    rw [hcurrent, h]
  · have hcurrent : (b.charsInBody run).current = o := by
      rw [current, hstack, hopen, List.headD_cons]
    cases entry with
    | marker => cases htag
    | element id t =>
      obtain rfl := Option.some.inj htag
      have hall : ∀ name ∈ allFormattingTags, Name.isTableFrame { tag := name } = false := by decide
      rw [hcurrent, ho]
      exact hall t.name (hfit.formatting id t hentry).2

/-! ## In two parts -/

/-- **Characters can be taken in two parts.** -/
theorem write_append (h : b.Mirrored b) (x y : List Char) (w : Writing) :
    (b.write (x ++ y) w).Mirrored ((b.write x w).write y w) := by
  cases w with
  | drop => exact h
  | put => exact putText_append h x y
  | body => exact charsInBody_append h x y
  | foster =>
    obtain ⟨f, h⟩ := h
    obtain ⟨g, hg⟩ := charsInBody_append ⟨f, h.setFostering true⟩ x y
    have hfirst : { ({ b with fostering := true }.charsInBody x) with fostering := true } =
        { b with fostering := true }.charsInBody x := by
      rw [adds_charsInBody { b with fostering := true } x]
    have hparts := hg.setFostering false
    rw [← hfirst] at hparts
    exact ⟨g, hparts⟩
  | foreign =>
    obtain ⟨f, h⟩ := h
    have hparts := putText_append ⟨_, (h.noFramesetAfter (x ++ y)).left⟩ x y
    rwa [noFramesetAfter_append] at hparts
  | keep =>
    obtain ⟨f, h⟩ := h
    exact ⟨f, h.setTableText (.part x y (h.tableText.whole x))⟩

theorem dropBreak_write (b : Builder) (run : List Char) (w : Writing) :
    (b.write run w).dropBreak = b.dropBreak := by
  cases w with
  | drop | keep => rfl
  | put => exact (adds_putText b run).dropBreak
  | body => exact (adds_charsInBody b run).dropBreak
  | foster => exact (adds_charsInBody { b with fostering := true } run).dropBreak
  | foreign => exact ((adds_noFramesetAfter b run).trans (adds_putText _ run)).dropBreak

/-! ## The mode that takes characters -/

/-- The builder takes pieces of that kind in this way, now and afterwards. -/
structure Takes (kind : List Char → Piece) (w : Writing) (b : Builder) : Prop where
  first : ∀ x, b.once (kind x) = .done (b.write x w)
  next : ∀ x y, (b.write x w).once (kind y) = .done ((b.write x w).write y w)
  /-- Whether white space is treated apart does not change. -/
  splitsText : ∀ x, (b.write x w).splitsText = b.splitsText

theorem once_of_not_foreign {p : Piece} (h : b.isForeign p = false) : b.once p = b.byMode p := by
  rw [once, h]
  rfl

theorem splitsText_congr (hmode : c.mode = b.mode)
    (hforeign : c.isForeign (.chars []) = b.isForeign (.chars [])) :
    c.splitsText = b.splitsText := by
  rw [Builder.splitsText, Builder.splitsText, hmode, hforeign]

section

variable {k : List Char → Piece}
  (hkind : ∀ (c : Builder) x, c.isForeign (k x) = c.isForeign (.chars []))

theorem takes_drop (h : ∀ x, b.once (k x) = .done b) : Takes k .drop b :=
  ⟨h, fun _ y => h y, fun _ => rfl⟩

include hkind

/-- The rules of a mode put characters to the end of the innermost element. -/
theorem takes_put (hforeign : b.isForeign (.chars []) = false)
    (hmode : ∀ c : Builder, c.mode = b.mode → ∀ x, c.byMode (k x) = .done (c.putText x)) :
    Takes k .put b := by
  have hsame : ∀ x, (b.putText x).mode = b.mode ∧
      (b.putText x).isForeign (.chars []) = b.isForeign (.chars []) := by
    intro x
    rw [putText_eq]
    exact ⟨rfl, rfl⟩
  refine ⟨fun x => ?_, fun x y => ?_, fun x => splitsText_congr (hsame x).1 (hsame x).2⟩
  · rw [once_of_not_foreign ((hkind b x).trans hforeign)]
    exact hmode b rfl x
  · rw [write, once_of_not_foreign ((hkind _ y).trans ((hsame x).2.trans hforeign))]
    exact hmode _ (hsame x).1 y

/-- The rules of a mode deal with characters as in the body. -/
theorem takes_body (hforeign : b.isForeign (.chars []) = false)
    (hmode : ∀ c : Builder, c.mode = b.mode → ∀ x, c.byMode (k x) = .done (c.charsInBody x)) :
    Takes k .body b := by
  have hsame : ∀ x, (b.charsInBody x).mode = b.mode ∧
      (b.charsInBody x).isForeign (.chars []) = false := fun x =>
    ⟨by rw [adds_charsInBody b x], isForeign_charsInBody hforeign x⟩
  refine ⟨fun x => ?_, fun x y => ?_, fun x => ?_⟩
  · rw [once_of_not_foreign ((hkind b x).trans hforeign)]
    exact hmode b rfl x
  · rw [write, once_of_not_foreign ((hkind _ y).trans (hsame x).2)]
    exact hmode _ (hsame x).1 y
  · exact splitsText_congr (hsame x).1 ((hsame x).2.trans hforeign.symm)

end

/-- Foreign content takes characters. -/
theorem takes_foreign (h : b.isForeign (.chars []) = true) : Takes .chars .foreign b := by
  have hfirst : ∀ c : Builder, c.isForeign (.chars []) = true → ∀ x,
      c.once (.chars x) = .done (c.write x .foreign) := by
    intro c hc x
    rw [once, show c.isForeign (.chars x) = true from hc]
    rfl
  have hsame : ∀ x, (b.write x .foreign).mode = b.mode ∧
      (b.write x .foreign).isForeign (.chars []) = b.isForeign (.chars []) := by
    intro x
    rw [write, putText_eq]
    unfold noFramesetAfter
    split <;> exact ⟨rfl, rfl⟩
  exact ⟨hfirst b h, fun x => hfirst _ ((hsame x).2.trans h),
    fun x => splitsText_congr (hsame x).1 (hsame x).2⟩

/-- What is out of place in a table goes before the table, and so do the next characters. -/
theorem takes_foster (hfit : b.Fit) (hforeign : b.isForeign (.chars []) = false)
    (hcurrent : b.current.name.isTableFrame = false)
    (hmode : ∀ c : Builder, c.mode = b.mode → ∀ x,
      c.byMode (.chars x) = c.charsInTable (.chars x)) :
    Takes .chars .foster b := by
  have hfirst : ∀ c : Builder, c.mode = b.mode → c.isForeign (.chars []) = false →
      c.current.name.isTableFrame = false → ∀ x, c.once (.chars x) = .done (c.write x .foster) := by
    intro c hc hforeign hcurrent x
    rw [once_of_not_foreign (p := .chars x) hforeign, hmode c hc x, charsInTable, hcurrent]
    rfl
  have hsame : ∀ x, (b.write x .foster).mode = b.mode ∧
      (b.write x .foster).isForeign (.chars []) = false := fun x =>
    ⟨by rw [write, adds_charsInBody { b with fostering := true } x],
      isForeign_charsInBody (b := { b with fostering := true }) (p := .chars []) hforeign x⟩
  refine ⟨hfirst b rfl hforeign hcurrent, fun x => hfirst _ (hsame x).1 (hsame x).2 ?_, fun x => ?_⟩
  · exact isTableFrame_charsInBody (b := { b with fostering := true }) { hfit with } hcurrent x
  · exact splitsText_congr (hsame x).1 ((hsame x).2.trans hforeign.symm)

/-- Characters between the parts of a table are kept. -/
theorem takes_keep (hforeign : b.isForeign (.chars []) = false) (hmode : b.mode = .inTableText) :
    Takes .chars .keep b := by
  have hfirst : ∀ c : Builder, c.mode = .inTableText → c.isForeign (.chars []) = false → ∀ x,
      c.once (.chars x) = .done (c.write x .keep) := by
    intro c hc hforeign x
    rw [once_of_not_foreign (p := .chars x) hforeign, byMode, hc]
    rfl
  exact ⟨hfirst b hmode hforeign, fun x => hfirst _ hmode hforeign, fun _ => rfl⟩

/-- A mode leaves characters to another one. -/
structure Passes (b c : Builder) : Prop where
  once : ∀ x, b.once (.chars x) = .again c
  splitsText : b.splitsText = false → c.splitsText = false
  dropBreak : c.dropBreak = b.dropBreak

theorem passes_of_byMode (hforeign : b.isForeign (.chars []) = false)
    (hbyMode : ∀ x, b.byMode (.chars x) = .again c)
    (hsplits : b.splitsText = false → c.splitsText = false) (hdrop : c.dropBreak = b.dropBreak) :
    b.Passes c where
  once x := by rw [once_of_not_foreign (p := .chars x) hforeign, hbyMode]
  splitsText := hsplits
  dropBreak := hdrop

/-- A mode takes characters, or it leaves them to another one. -/
theorem takes_or_passes (hfit : b.Fit) : (∃ w, Takes .chars w b) ∨ ∃ c, b.Passes c := by
  cases hforeign : b.isForeign (.chars [])
  case true => exact .inl ⟨_, takes_foreign hforeign⟩
  have hdrop : (∀ x, b.byMode (.chars x) = .done b) → ∃ w, Takes .chars w b := fun h =>
    ⟨_, takes_drop fun x => by rw [once_of_not_foreign (p := .chars x) hforeign, h]⟩
  have htable : (∀ c : Builder, c.mode = b.mode → ∀ x,
      c.byMode (.chars x) = c.charsInTable (.chars x)) →
      (∃ w, Takes .chars w b) ∨ ∃ c, b.Passes c := by
    intro hmode
    cases hcurrent : b.current.name.isTableFrame with
    | false => exact .inl ⟨_, takes_foster hfit hforeign hcurrent hmode⟩
    | true =>
      refine .inr ⟨{ b with resume := b.mode, mode := .inTableText },
        passes_of_byMode hforeign (fun x => ?_) (fun _ => rfl) rfl⟩
      rw [hmode b rfl x, charsInTable, hcurrent]
      rfl
  have hsplit : b.splitsText = true → ∀ c : Builder, (∀ x, b.byMode (.chars x) = .again c) →
      c.dropBreak = b.dropBreak → b.Passes c :=
    fun hb c hc hdrop => passes_of_byMode hforeign hc (by simp [hb]) hdrop
  cases hmode : b.mode with
  | beforeHead =>
    exact .inr ⟨beforeHead.open_ b { name := "head" },
      hsplit (by simp [splitsText, hmode, hforeign])
      _ (fun x => by rw [byMode, hmode]; rfl)
      (adds_insertOpen b { tag := "head" } []).dropBreak⟩
  | inHead =>
    exact .inr ⟨b.pop.goto .afterHead, hsplit (by simp [splitsText, hmode, hforeign])
      _ (fun x => by rw [byMode, hmode]; rfl) rfl⟩
  | inHeadNoscript =>
    exact .inr ⟨b.pop.goto .inHead, hsplit (by simp [splitsText, hmode, hforeign])
      _ (fun x => by rw [byMode, hmode]; rfl) rfl⟩
  | afterHead =>
    exact .inr ⟨(b.insertImplied "body").goto .inBody,
      hsplit (by simp [splitsText, hmode, hforeign])
      _ (fun x => by rw [byMode, hmode]; rfl)
      (adds_insertOpen b { tag := "body" } []).dropBreak⟩
  | text | inSelect | inSelectInTable =>
    exact .inl ⟨_, takes_put (fun _ _ => rfl) hforeign fun c hc x => by rw [byMode, hc, hmode]; rfl⟩
  | inBody | inCaption | inCell | inTemplate =>
    exact .inl ⟨_, takes_body (fun _ _ => rfl) hforeign fun c hc x => by
      rw [byMode, hc, hmode]
      rfl⟩
  | inTableText => exact .inl ⟨_, takes_keep hforeign hmode⟩
  | inTable | inTableBody | inRow =>
    exact htable fun c hc x => by rw [byMode, hc, hmode]; rfl
  | inColumnGroup =>
    have hbyMode : ∀ x, b.byMode (.chars x) = inColumnGroup.leave b := fun x => by
      rw [byMode, hmode]
      rfl
    cases hcurrent : b.currentIs "colgroup" with
    | false =>
      exact .inl (hdrop fun x => by rw [hbyMode, inColumnGroup.leave, hcurrent]; rfl)
    | true =>
      exact .inr ⟨b.pop.goto .inTable, hsplit (by simp [splitsText, hmode, hforeign])
        _ (fun x => by rw [hbyMode, inColumnGroup.leave, hcurrent]; rfl) rfl⟩
  | afterBody | afterAfterBody =>
    exact .inr ⟨b.goto .inBody, hsplit (by simp [splitsText, hmode, hforeign])
      _ (fun x => by rw [byMode, hmode]; rfl) rfl⟩
  | inFrameset | afterFrameset | afterAfterFrameset =>
    exact .inl (hdrop fun x => by rw [byMode, hmode]; rfl)

/-- **Some mode takes characters.** What happens until then does not depend on them. -/
theorem exists_takes (h : b.Mirrored b) : ∃ c w,
    (∀ x, Settles (.chars x) b (c.write x w, none)) ∧ Takes .chars w c ∧ c.Mirrored c ∧
    (b.splitsText = false → c.splitsText = false) ∧ c.dropBreak = b.dropBreak := by
  generalize hn : b.toil (.chars []) = n
  induction n using Nat.strong_induction_on generalizing b with
  | _ n ih =>
    have hlowers := lowers_once h (.chars [])
    obtain ⟨f, h⟩ := h
    rcases takes_or_passes h.fit with ⟨w, htakes⟩ | ⟨c, hpasses⟩
    · exact ⟨b, w, fun x => .done (htakes.first x), htakes, ⟨_, h.left⟩, id, rfl⟩
    · obtain ⟨g, honce⟩ := h.left.once (.chars [])
      rw [hpasses.once] at honce hlowers
      cases honce with
      | again hc =>
        obtain ⟨d, w, hd, htakes, hmirrored, hsplits, hdrop⟩ := ih _ (hn ▸ hlowers) ⟨g, hc⟩ rfl
        exact ⟨d, w, fun x => .again (hpasses.once x) (hd x), htakes, hmirrored,
          fun hb => hsplits (hpasses.splitsText hb), hdrop.trans hpasses.dropBreak⟩

/-- Where white space is treated apart, it is taken at once. -/
theorem exists_takes_space (h : b.splitsText = true) : ∃ w, Takes .space w b := by
  have hforeign : b.isForeign (.chars []) = false := by
    unfold splitsText at h
    split at h <;> simp_all
  have hput := takes_put (b := b) (k := .space) (fun _ _ => rfl) hforeign
  have hbody := takes_body (b := b) (k := .space) (fun _ _ => rfl) hforeign
  cases hmode : b.mode with
  | beforeHead =>
    refine ⟨_, takes_drop fun x => ?_⟩
    rw [once_of_not_foreign (p := .space x) hforeign, byMode, hmode]
    rfl
  | inHead | inHeadNoscript | afterHead | inColumnGroup | inFrameset | afterFrameset =>
    exact ⟨_, hput fun c hc x => by rw [byMode, hc, hmode]; rfl⟩
  | afterBody | afterAfterBody | afterAfterFrameset =>
    exact ⟨_, hbody fun c hc x => by rw [byMode, hc, hmode]; rfl⟩
  | _ => simp [splitsText, hmode] at h

/-! ## Pieces of characters -/

theorem piece_of_once {p : Piece} (h : b.once p = .done c) : b.piece p = (c, none) := by
  have hfuel : 9 * (b.stack.length + 1) = 9 * b.stack.length + 8 + 1 := by omega
  rw [piece, hfuel, pieceWithin, h]

section

variable (h : b.Mirrored b)
include h

/-- **White space can come in two pieces.** -/
theorem space_append (hsplits : b.splitsText = true) (x y : List Char) :
    (b.piece (.space (x ++ y))).1.Mirrored ((b.piece (.space x)).1.piece (.space y)).1 := by
  obtain ⟨w, htakes⟩ := exists_takes_space hsplits
  rw [piece_of_once (htakes.first (x ++ y)), piece_of_once (htakes.first x),
    piece_of_once (htakes.next x y)]
  exact write_append h x y w

/-- The outcome for a piece of characters. -/
theorem exists_piece_chars : ∃ c w, (∀ x, b.piece (.chars x) = (c.write x w, none)) ∧
    Takes .chars w c ∧ c.Mirrored c ∧ (b.splitsText = false → c.splitsText = false) ∧
    c.dropBreak = b.dropBreak := by
  obtain ⟨c, w, hsettles, hc⟩ := exists_takes h
  exact ⟨c, w, fun x => (hsettles x).piece_eq h, hc⟩

/-- **Characters can come in two pieces.** -/
theorem chars_append (x y : List Char) :
    (b.piece (.chars (x ++ y))).1.Mirrored ((b.piece (.chars x)).1.piece (.chars y)).1 := by
  obtain ⟨c, w, hpiece, htakes, hc, -⟩ := exists_piece_chars h
  rw [hpiece, hpiece, piece_of_once (htakes.next x y)]
  exact write_append hc x y w

/-- Where white space is not treated apart, it is not after other characters either. -/
theorem splitsText_chars (hsplits : b.splitsText = false) (x : List Char) :
    (b.piece (.chars x)).1.splitsText = false := by
  obtain ⟨c, w, hpiece, htakes, -, hc, -⟩ := exists_piece_chars h
  rw [hpiece, htakes.splitsText, hc hsplits]

theorem dropBreak_chars (x : List Char) : (b.piece (.chars x)).1.dropBreak = b.dropBreak := by
  obtain ⟨c, w, hpiece, -, -, -, hc⟩ := exists_piece_chars h
  rw [hpiece, dropBreak_write, hc]

end

/-- Where white space is treated apart, it is so after white space. -/
theorem splitsText_space (hsplits : b.splitsText = true) (x : List Char) :
    (b.piece (.space x)).1.splitsText = true := by
  obtain ⟨w, htakes⟩ := exists_takes_space hsplits
  rw [piece_of_once (htakes.first x), htakes.splitsText, hsplits]

theorem dropBreak_space (hsplits : b.splitsText = true) (x : List Char) :
    (b.piece (.space x)).1.dropBreak = b.dropBreak := by
  obtain ⟨w, htakes⟩ := exists_takes_space hsplits
  rw [piece_of_once (htakes.first x), dropBreak_write]

end HtmlWalk.Html.Builder
