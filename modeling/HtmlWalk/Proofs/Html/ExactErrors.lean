import HtmlWalk.Node.Equality
import HtmlWalk.Proofs.Html.Erasure
import HtmlWalk.Proofs.Html.Mirror.Session

/-!
# Exact errors

With exact errors the tokenizer hands over every character by itself. The parse shadows the same
patient session as without them, so it makes the same document.

**Theorem (`parse_exactErrors`).** Exact errors change nothing but source lines.

Source lines they do change. A run of characters is placed on the line of its end, less the line
breaks in what is put into the text node; where white space is treated apart, the first piece of the
run is placed as if the rest of the run had not been read (`parse_exactErrors_ne`).
-/

namespace HtmlWalk

namespace Html

variable {s s' i : Session} {behind behind' : List Char}

/-- Sessions that shadow the same patient session make the same document. -/
theorem Session.Shadows.trees_eq (h : Shadows s.tokenizer.Waits behind s i)
    (h' : Shadows s'.tokenizer.Waits behind' s' i) :
    (Tracked.ofEdits s.finish).trees false .document =
        (Tracked.ofEdits s'.finish).trees false .document ∧
      (Tracked.ofEdits s.finish).mode = (Tracked.ofEdits s'.finish).mode := by
  obtain ⟨stage, hfinish, hstage⟩ := h.finish
  obtain ⟨stage', hfinish', hstage'⟩ := h'.finish
  obtain ⟨f, hecho⟩ := hstage.echo
  obtain ⟨f', hecho'⟩ := hstage'.echo
  rw [hfinish, hfinish']
  exact ⟨hecho.trees.symm.trans hecho'.trees, hecho.mode.symm.trans hecho'.mode⟩

/-- The documents of such sessions are the same without source lines. -/
theorem Session.Shadows.documentOf_eq (h : Shadows s.tokenizer.Waits behind s i)
    (h' : Shadows s'.tokenizer.Waits behind' s' i) (options : ParseOptions) :
    documentOf { options with sourceLines := false } s =
      documentOf { options with sourceLines := false } s' := by
  obtain ⟨htrees, hmode⟩ := h.trees_eq h'
  unfold documentOf documentTrees
  dsimp only
  rw [hmode, htrees]

theorem Session.Shadows.fragmentTrees_eq (h : Shadows s.tokenizer.Waits behind s i)
    (h' : Shadows s'.tokenizer.Waits behind' s' i) (options : ParseOptions) :
    fragmentTrees { options with sourceLines := false } (Tracked.ofEdits s.finish) =
      fragmentTrees { options with sourceLines := false } (Tracked.ofEdits s'.finish) := by
  unfold fragmentTrees documentTrees
  dsimp only
  rw [(h.trees_eq h').1]

/-- Documents that are the same without source lines are the same once the lines are erased. -/
theorem eraseLines_documentOf_congr {options : ParseOptions}
    (h : documentOf { options with sourceLines := false } s =
      documentOf { options with sourceLines := false } s') :
    (documentOf options s).eraseLines = (documentOf options s').eraseLines := by
  obtain ⟨sourceLines, scripting, exactErrors⟩ := options
  cases sourceLines with
  | false => exact congrArg Node.eraseLines h
  | true =>
    have herase := @eraseLines_documentOf ⟨true, scripting, exactErrors⟩
    exact (herase s).trans (h.trans (herase s').symm)

theorem eraseLines_fragment_congr {options : ParseOptions} {t t' : Tracked}
    (h : fragmentTrees { options with sourceLines := false } t =
      fragmentTrees { options with sourceLines := false } t') :
    (Node.fragment (Tree.toNodesAll (fragmentTrees options t))).eraseLines =
      (Node.fragment (Tree.toNodesAll (fragmentTrees options t'))).eraseLines := by
  simp only [Node.eraseLines, Node.eraseLinesAll_eq_map, Tree.map_eraseLines_toNodesAll,
    Tree.eraseLinesAll_eq_map]
  suffices htrees : (fragmentTrees options t).map Tree.eraseLines =
      (fragmentTrees options t').map Tree.eraseLines by rw [htrees]
  obtain ⟨sourceLines, scripting, exactErrors⟩ := options
  cases sourceLines with
  | false => exact congrArg (List.map Tree.eraseLines) h
  | true =>
    have htrees := @map_eraseLines_fragmentTrees ⟨true, scripting, exactErrors⟩
    exact (htrees t).trans (h.trans (htrees t').symm)

/-- The whole source is one piece. -/
theorem Session.shadows_feed_document (options : ParseOptions) (source : List Char) :
    ∃ behind, Shadows ((document options).feed source).tokenizer.Waits behind
      ((document options).feed source) (source.foldl trickle (document options).patient) :=
  (shadows_document options).feed fun _ => rfl

theorem Session.shadows_feed_fragment (options : ParseOptions) (source : List Char) :
    ∃ behind, Shadows ((fragment options).feed source).tokenizer.Waits behind
      ((fragment options).feed source) (source.foldl trickle (fragment options).patient) :=
  (shadows_fragment options).feed fun _ => rfl

end Html

open Html

/-- **Exact errors change nothing but source lines.** Documents and fragments are the same once the
lines are erased, and they are the same at once where no lines are asked for. -/
theorem parse_exactErrors (source : String) (options : ParseOptions) (exactErrors : Bool) :
    (parse source { options with exactErrors }).eraseLines = (parse source options).eraseLines ∧
    (parseFragment source { options with exactErrors }).eraseLines =
      (parseFragment source options).eraseLines ∧
    parse source { options with exactErrors, sourceLines := false } =
      parse source { options with sourceLines := false } ∧
    parseFragment source { options with exactErrors, sourceLines := false } =
      parseFragment source { options with sourceLines := false } := by
  obtain ⟨_, hdocument⟩ := Session.shadows_feed_document options source.toList
  obtain ⟨_, hdocument'⟩ :=
    Session.shadows_feed_document { options with exactErrors } source.toList
  obtain ⟨_, hfragment⟩ := Session.shadows_feed_fragment options source.toList
  obtain ⟨_, hfragment'⟩ :=
    Session.shadows_feed_fragment { options with exactErrors } source.toList
  -- The patient sessions are the same, for they are exact in any case.
  have hparse := hdocument'.documentOf_eq hdocument options
  have htrees := hfragment'.fragmentTrees_eq hfragment options
  refine ⟨eraseLines_documentOf_congr hparse, ?_, hparse, ?_⟩
  · exact eraseLines_fragment_congr htrees
  · exact congrArg (fun trees => Node.fragment (Tree.toNodesAll trees)) htrees

theorem parse_exactErrors_ne : parse "a\nb" { sourceLines := true, exactErrors := true } ≠
    parse "a\nb" { sourceLines := true } := by
  decide +kernel

end HtmlWalk
