import HtmlWalk.Proofs.Html.Coverage
import HtmlWalk.Proofs.Html.Linked
import HtmlWalk.Proofs.Html.SessionLines

/-!
# The table of lines

Lines are recorded while a document is built, so at every moment there is a table of them: which
nodes have a line, and which.

**Theorem (`Tracked.ofEdits_table`).** If lines count from one in a sequence of edits, then a line
that is in the table stays as it is, whatever is done to its node; all lines are from one to the
highest that has been reported; only elements, comments and texts have any; and the line of a text
is decided by the characters with which it came up.

An edit either leaves the table as it is or adds the line of the node that it makes
(`Tracked.TableStep`). It is the same lookup that finds a text when it comes up and when it grows,
and it tells the two apart by the table alone. So this step needs both invariants: that every text
which is there has a line, and that nothing has a line which is not there.
-/

namespace HtmlWalk.Html

/-! ## What edits say -/

/-- The characters that an edit puts somewhere. -/
def Edit.characters? : Edit → Option String
  | append _ (.text value) | insertBefore _ (.text value) | foster _ _ (.text value) => some value
  | _ => none

/-- The lines that edits report, in order. -/
def reportedLines (es : List Edit) : List Nat := es.filterMap Edit.line?

/-- The line that was reported last, one before any report. -/
def currentLine (es : List Edit) : Nat := (reportedLines es).getLast?.getD 1

/-- The highest line that was reported, one before any report. -/
def highestLine (es : List Edit) : Nat := (reportedLines es).max?.getD 1

theorem reportedLines_concat (es : List Edit) (e : Edit) :
    reportedLines (es ++ [e]) = reportedLines es ++ e.line?.toList := by
  rw [reportedLines, List.filterMap_append]
  cases e <;> rfl

theorem currentLine_concat (es : List Edit) (e : Edit) :
    currentLine (es ++ [e]) = e.line?.getD (currentLine es) := by
  rw [currentLine, reportedLines_concat]
  cases e.line? with
  | none => simp [currentLine]
  | some n => simp

theorem le_highestLine {es : List Edit} {n : Nat} :
    n ≤ highestLine es ↔ reportedLines es = [] ∧ n ≤ 1 ∨ ∃ m ∈ reportedLines es, n ≤ m := by
  rw [highestLine]
  cases h : (reportedLines es).max? with
  | none =>
    rw [List.max?_eq_none_iff] at h
    simp [h]
  | some m =>
    obtain ⟨hm, hmax⟩ := List.max?_eq_some_iff.1 h
    have hne : reportedLines es ≠ [] := List.ne_nil_of_mem hm
    simp only [hne, false_and, false_or, Option.getD_some]
    exact ⟨fun hn => ⟨m, hm, hn⟩, fun ⟨k, hk, hn⟩ => Nat.le_trans hn (hmax k hk)⟩

theorem currentLine_le_highestLine (es : List Edit) : currentLine es ≤ highestLine es := by
  rw [le_highestLine, currentLine]
  cases h : (reportedLines es).getLast? with
  | none => exact .inl ⟨List.getLast?_eq_none_iff.1 h, Nat.le_refl 1⟩
  | some m => exact .inr ⟨m, List.mem_of_getLast? h, Nat.le_refl m⟩

theorem highestLine_le_concat {es : List Edit} {e : Edit} (he : ∀ n, e = .line n → 1 ≤ n) :
    highestLine es ≤ highestLine (es ++ [e]) := by
  rw [le_highestLine, reportedLines_concat]
  rcases le_highestLine.1 (Nat.le_refl (highestLine es)) with ⟨hnil, hone⟩ | ⟨m, hm, hle⟩
  · cases hn : e.line? with
    | none => exact .inl ⟨by rw [hnil]; rfl, hone⟩
    | some n => exact .inr ⟨n, by simp, Nat.le_trans hone (he n (Edit.line?_eq_some_iff.1 hn))⟩
  · exact .inr ⟨m, List.mem_append_left _ hm, hle⟩

/-! ## One edit -/

namespace Dom

variable {d d' : Dom} {place : Place} {sibling : NodeId} {value : String}

theorem Rearranges.kind?_size (h : d.Rearranges d') : d'.kind? d.nodes.size = none := by
  rw [h.kind?, kind?_eq_none_of_size_le (Nat.le_refl _)]

theorem text?_updateList_make (d : Dom) (p : Place) (f : Array NodeId → Array NodeId)
    (value : String) (parent : Option Place) :
    ((d.updateList p f).make (.text value) parent).text? d.nodes.size = some value := by
  simp [text?, content?, slot?_make, size_updateList]

/-- A text that comes up at the end of a place has just these characters. -/
theorem text?_append_of_kind? (h : (d.append place (.text value)).kind? d.nodes.size = some .text) :
    (d.append place (.text value)).text? d.nodes.size = some value := by
  have hnew : (d.appendText place value).kind? d.nodes.size = some .text →
      (d.appendText place value).text? d.nodes.size = some value := by
    unfold appendText
    dsimp only
    split
    · exact fun _ => text?_updateList_make d place _ value _
    · intro hskip
      rw [(Rearranges.refl d).skip.kind?_size] at hskip
      cases hskip
  revert h
  rw [append]
  split
  · split
    · intro h
      rw [(Rearranges.extendText d _ value).skip.kind?_size] at h
      cases h
    · exact hnew
  · exact hnew

/-- A text that comes up before a node has just these characters. -/
theorem text?_insertBefore_of_kind?
    (h : (d.insertBefore sibling (.text value)).kind? d.nodes.size = some .text) :
    (d.insertBefore sibling (.text value)).text? d.nodes.size = some value := by
  revert h
  unfold insertBefore
  split
  · intro h
    rw [(Rearranges.refl d).skip.kind?_size] at h
    cases h
  · dsimp only
    split
    · split
      · intro h
        rw [(Rearranges.extendText d _ value).skip.kind?_size] at h
        cases h
      · exact fun _ => text?_updateList_make d _ _ value _
    · exact fun _ => text?_updateList_make d _ _ value _

end Dom

namespace Tracked

variable {t : Tracked} {id : NodeId}

/-- Only elements, comments and texts have lines. -/
def OnlyLocated (t : Tracked) : Prop :=
  ∀ j n, t.line? j = some n →
    t.dom.kind? j = some .element ∨ t.dom.kind? j = some .comment ∨ t.dom.kind? j = some .text

/-- A name that has not been given yet has no line. -/
theorem OnlyLocated.line?_size (h : t.OnlyLocated) : t.line? t.dom.nodes.size = none := by
  cases hn : t.line? t.dom.nodes.size with
  | none => rfl
  | some n =>
    have hk := h _ n hn
    rw [Dom.kind?_eq_none_of_size_le (Nat.le_refl _)] at hk
    simp at hk

/-- Where every text has a line, nothing is left to record. -/
theorem Covers.recordText_eq (h : t.Covers) (id : NodeId) : t.recordText id = t := by
  unfold Tracked.recordText
  cases hvalue : t.dom.text? id with
  | none => rfl
  | some value =>
    have htext : t.dom.kind? id = some .text := Dom.isSome_text?_iff.1 (by rw [hvalue]; rfl)
    exact if_pos (h.covered htext nofun)

theorem Covers.recordLast_eq (h : t.Covers) (place : Place) : t.recordLast place = t := by
  unfold Tracked.recordLast
  split
  · exact h.recordText_eq _
  · rfl

theorem Covers.recordBefore_eq (h : t.Covers) (sibling : NodeId) : t.recordBefore sibling = t := by
  unfold Tracked.recordBefore
  rw [parentOf_eq]
  dsimp only
  split
  · rfl
  · split
    · split
      · exact h.recordText_eq _
      · rfl
    · rfl

/-- A text that has no line yet gets the one on which its characters begin. -/
theorem recordText_of_text? {value : String} (h : t.dom.text? id = some value)
    (hnone : t.line? id = none) :
    t.recordText id = t.recordSpanning id (lineBreaks value.toList) := by
  unfold Tracked.recordText
  rw [h, hnone]
  rfl

/-- What an edit that writes these characters does to the table: it leaves it as it is, or it adds
the line of the node that it makes. -/
inductive TableStep (t : Tracked) (written : Option String) (t' : Tracked) : Prop
  /-- The edit makes no node, or one that has no line. -/
  | keeps (k : Option Kind) (hk : k = none ∨ k = some .doctype) (makes : ∀ j, t'.dom.kind? j =
      if j = t.dom.nodes.size then k else t.dom.kind? j) (lines : ∀ j, t'.line? j = t.line? j)
  /-- The edit makes a node that starts so many line breaks before the line that has been read. A
  text starts with what is written, so the breaks are those in there. -/
  | records (k : Kind) (breaks : Nat) (hk : k = .element ∨ k = .comment ∨ k = .text)
      (makes : ∀ j, t'.dom.kind? j =
        if j = t.dom.nodes.size then some k else t.dom.kind? j)
      (lines : ∀ j, t'.line? j =
        if t.dom.nodes.size = j then some (max (t.line - breaks) 1) else t.line? j)
      (text : k = .text → ∃ value, written = some value ∧
        t'.dom.text? t.dom.nodes.size = some value ∧ breaks = lineBreaks value.toList)

namespace TableStep

variable {t' : Tracked} {written : Option String} {k : Option Kind}

theorem of_makes (hk : k = none ∨ k = some .doctype) (hlines : t'.lines = t.lines)
    (h : t.dom.Makes k t'.dom) : t.TableStep written t' :=
  .keeps k hk h.kind? fun j => by rw [line?, line?, hlines]

theorem of_kind? (hlines : t'.lines = t.lines) (h : ∀ j, t'.dom.kind? j = t.dom.kind? j) :
    t.TableStep written t' := by
  refine .keeps none (.inl rfl) (fun j => ?_) fun j => by rw [line?, line?, hlines]
  rw [h]
  split
  · next hj => rw [hj, Dom.kind?_eq_none_of_size_le (Nat.le_refl _)]
  · rfl

/-- A node that was made and is recorded. -/
theorem recordAt {k : Kind} {breaks n : Nat} (hk : k = .element ∨ k = .comment ∨ k = .text)
    (hlines : t'.lines = t.lines) (h : t.dom.Makes (some k) t'.dom)
    (hn : n = max (t.line - breaks) 1)
    (htext : k = .text → ∃ value, written = some value ∧
      t'.dom.text? t.dom.nodes.size = some value ∧ breaks = lineBreaks value.toList) :
    t.TableStep written (t'.recordAt t.dom.nodes.size n) := by
  refine .records k breaks hk h.kind? (fun j => ?_) htext
  rw [line?_recordAt, hn, line?, line?, hlines]

/-- A text that came up and is recorded. -/
theorem recordText {value : String} (ho : t.OnlyLocated) (hline : t'.line = t.line)
    (hlines : t'.lines = t.lines) (h : t.dom.Makes (some .text) t'.dom)
    (htext : t'.dom.text? t.dom.nodes.size = some value) :
    t.TableStep (some value) (t'.recordText t.dom.nodes.size) := by
  have hnone : t'.line? t.dom.nodes.size = none := by
    rw [line?, hlines]
    exact ho.line?_size
  rw [recordText_of_text? htext hnone, recordSpanning, hline]
  exact recordAt (.inr (.inr rfl)) hlines h rfl fun _ => ⟨value, rfl, htext, rfl⟩

theorem append (hc : t.Covers) (ho : t.OnlyLocated) (place : Place) (item : Item) :
    t.TableStep (Edit.append place item).characters? (t.append place item) := by
  cases item with
  | node id => exact of_kind? rfl (Dom.Rearranges.append_node t.dom place id).kind?
  | text value =>
    rcases t.dom.append_text_cases place value with hsame | ⟨hmakes, hlast⟩
    · have hedit : (t.edit (.append place (.text value))).Covers := hc.edit_of_rearranges hsame
      rw [Tracked.append, hedit.recordLast_eq]
      exact of_kind? rfl hsame.kind?
    · rw [append_text_eq hlast]
      exact recordText ho rfl rfl hmakes
        (Dom.text?_append_of_kind? ((hmakes.kind? _).trans (if_pos rfl)))

theorem insertBefore (hc : t.Covers) (ho : t.OnlyLocated) (sibling : NodeId) (item : Item) :
    t.TableStep (Edit.insertBefore sibling item).characters? (t.insertBefore sibling item) := by
  cases item with
  | node id => exact of_kind? rfl (Dom.Rearranges.insertBefore_node t.dom sibling id).kind?
  | text value =>
    rcases t.dom.insertBefore_text_cases sibling value with hsame | ⟨hmakes, place, i, hpos, hat⟩
    · have hedit : (t.edit (.insertBefore sibling (.text value))).Covers :=
        hc.edit_of_rearranges hsame
      rw [Tracked.insertBefore, hedit.recordBefore_eq]
      exact of_kind? rfl hsame.kind?
    · rw [insertBefore_text_eq hpos hat]
      exact recordText ho rfl rfl hmakes
        (Dom.text?_insertBefore_of_kind? ((hmakes.kind? _).trans (if_pos rfl)))

/-- **One edit.** -/
theorem apply (hc : t.Covers) (ho : t.OnlyLocated) (e : Edit) :
    t.TableStep e.characters? (t.apply e) := by
  have hline : t.line = max (t.line - 0) 1 := (Nat.max_eq_left (hc 0).line).symm
  cases e with
  | line n => exact of_kind? rfl (Dom.Rearranges.refl t.dom).skip.kind?
  | mode m => exact of_kind? rfl (Dom.Rearranges.refl t.dom).skip.kind?
  | doctype d =>
    exact of_makes (.inr rfl) rfl (Dom.makes_updateList_make t.dom .document
      (·.push t.dom.nodes.size) (.doctype d) (some .document))
  | element name attrs =>
    exact recordAt (.inl rfl) rfl (t.dom.makes_make (.element name attrs) none) hline nofun
  | comment data =>
    exact recordAt (.inr (.inl rfl)) rfl (t.dom.makes_make (.comment data) none) rfl nofun
  | instruction target data =>
    exact of_makes (.inl rfl) rfl (t.dom.makes_make (.instruction target data) none)
  | append place item => exact append hc ho place item
  | insertBefore sibling item => exact insertBefore hc ho sibling item
  | foster table below item =>
    have hchars : ∀ place, (Edit.foster table below item).characters? =
        (Edit.append place item).characters? := by
      intro place
      cases item <;> rfl
    have hchars' : (Edit.foster table below item).characters? =
        (Edit.insertBefore table item).characters? := by
      cases item <;> rfl
    rw [Tracked.apply, Tracked.foster, parentOf_eq]
    dsimp only
    split
    · rw [hchars']
      exact insertBefore hc ho table item
    · rw [hchars (.children below)]
      exact append hc ho (.children below) item
  | addAttrs target attrs => exact of_kind? rfl (Dom.Rearranges.addAttrs _ _ _).skip.kind?
  | detach target =>
    refine of_kind? rfl (Dom.Rearranges.skip ?_).kind?
    split
    · exact (Dom.Rearranges.refl t.dom).unlink target
    · exact .refl t.dom
  | moveChildren source target =>
    exact of_kind? rfl (Dom.Rearranges.moveChildren _ _ _).skip.kind?

end TableStep

/-! ## Sequences of edits -/

theorem ofEdits_concat (es : List Edit) (e : Edit) :
    ofEdits (es ++ [e]) = (ofEdits es).apply e := by
  rw [ofEdits, List.foldl_append]
  rfl

theorem line_ofEdits (es : List Edit) : (ofEdits es).line = currentLine es := by
  induction es using List.reverseRecOn with
  | nil => rfl
  | append_singleton es e ih => rw [ofEdits_concat, line_apply, ih, currentLine_concat]

theorem size_dom_ofEdits (es : List Edit) : (ofEdits es).dom.nodes.size = es.length := by
  rw [dom_ofEdits, Dom.size_ofEdits]

/-- The edits that come before an edit count lines from one if all do. -/
theorem one_le_of_concat {es : List Edit} {e : Edit} (h : ∀ n, .line n ∈ es ++ [e] → 1 ≤ n) :
    (∀ n, .line n ∈ es → 1 ≤ n) ∧ ∀ n, e = .line n → 1 ≤ n :=
  ⟨fun n hn => h n (List.mem_append_left _ hn), fun n hn => h n (by simp [hn])⟩

theorem onlyLocated_ofEdits {es : List Edit} (hes : ∀ n, .line n ∈ es → 1 ≤ n) :
    (ofEdits es).OnlyLocated := by
  induction es using List.reverseRecOn with
  | nil =>
    intro j n hn
    simp [ofEdits, line?] at hn
  | append_singleton es e ih =>
    obtain ⟨hbefore, he⟩ := one_le_of_concat hes
    have ho := ih hbefore
    intro j n hn
    rw [ofEdits_concat] at hn ⊢
    have hsize : j = (ofEdits es).dom.nodes.size → (ofEdits es).line? j = none := by
      rintro rfl
      exact ho.line?_size
    cases TableStep.apply (ofEdits_covers hbefore) ho e with
    | keeps k hk makes lines =>
      rw [lines] at hn
      have hj : j ≠ (ofEdits es).dom.nodes.size := fun hj => by simp [hsize hj] at hn
      rw [makes, if_neg hj]
      exact ho j n hn
    | records k breaks hk makes lines text =>
      rw [makes]
      by_cases hj : j = (ofEdits es).dom.nodes.size
      · rw [if_pos hj]
        simpa using hk
      · rw [lines, if_neg (Ne.symm hj)] at hn
        rw [if_neg hj]
        exact ho j n hn

/-- The step that an edit makes, after edits that count lines from one. -/
theorem tableStep_concat {es : List Edit} (hes : ∀ n, .line n ∈ es → 1 ≤ n) (e : Edit) :
    (ofEdits es).TableStep e.characters? (ofEdits (es ++ [e])) := by
  rw [ofEdits_concat]
  exact .apply (ofEdits_covers hes) (onlyLocated_ofEdits hes) e

/-- **Lines stay as they are.** -/
theorem line?_concat {es : List Edit} (hes : ∀ n, .line n ∈ es → 1 ≤ n) {e : Edit} {id : NodeId}
    {n : Nat} (h : (ofEdits es).line? id = some n) : (ofEdits (es ++ [e])).line? id = some n := by
  cases tableStep_concat hes e with
  | keeps k hk makes lines => rw [lines, h]
  | records k breaks hk makes lines text =>
    rw [lines, if_neg, h]
    rintro rfl
    rw [(onlyLocated_ofEdits hes).line?_size] at h
    cases h

/-- **Lines stay as they are**, whatever edits follow. -/
theorem line?_append {es later : List Edit} (hes : ∀ n, .line n ∈ es ++ later → 1 ≤ n) {id : NodeId}
    {n : Nat} (h : (ofEdits es).line? id = some n) : (ofEdits (es ++ later)).line? id = some n := by
  induction later using List.reverseRecOn with
  | nil => rwa [List.append_nil]
  | append_singleton later e ih =>
    rw [← List.append_assoc] at hes ⊢
    obtain ⟨hbefore, -⟩ := one_le_of_concat hes
    exact line?_concat hbefore (ih hbefore)

/-- **No line is higher than those reported.** -/
theorem line?_le_highestLine {es : List Edit} (hes : ∀ n, .line n ∈ es → 1 ≤ n) {id : NodeId}
    {n : Nat} (h : (ofEdits es).line? id = some n) : n ≤ highestLine es := by
  induction es using List.reverseRecOn with
  | nil => simp [ofEdits, line?] at h
  | append_singleton es e ih =>
    obtain ⟨hbefore, he⟩ := one_le_of_concat hes
    have hgrows : highestLine es ≤ highestLine (es ++ [e]) := highestLine_le_concat he
    cases tableStep_concat hbefore e with
    | keeps k hk makes lines => exact Nat.le_trans (ih hbefore (by rwa [← lines])) hgrows
    | records k breaks hk makes lines text =>
      rw [lines] at h
      split at h
      · -- The line that was read is one of those reported, or one.
        have hread : (ofEdits es).line ≤ highestLine es :=
          line_ofEdits es ▸ currentLine_le_highestLine es
        have hone : 1 ≤ (ofEdits es).line := (ofEdits_covers hbefore 0).line
        cases h
        omega
      · exact Nat.le_trans (ih hbefore h) hgrows

/-- How a text came up: by an edit that wrote some characters, of which it then consisted, and its
line is where these begin. -/
def BeganWith (es : List Edit) (id : NodeId) (before : List Edit) (e : Edit) (value : String) :
    Prop :=
  before.length = id ∧ e.characters? = some value ∧
    (ofEdits (before ++ [e])).dom.text? id = some value ∧
    (ofEdits es).line? id = some (max (currentLine before - lineBreaks value.toList) 1)

/-- **The line of a text** is decided when it comes up. -/
theorem exists_beganWith {es : List Edit} (hes : ∀ n, .line n ∈ es → 1 ≤ n) {id : NodeId}
    (h : (ofEdits es).dom.kind? id = some .text) :
    ∃ before e after value, es = before ++ e :: after ∧ BeganWith es id before e value := by
  induction es using List.reverseRecOn with
  | nil =>
    rw [Dom.kind?_eq_none_of_size_le (Nat.zero_le id)] at h
    cases h
  | append_singleton es e ih =>
    obtain ⟨hbefore, -⟩ := one_le_of_concat hes
    -- A text that was there before keeps its line; a new one gets it now.
    have hold : (ofEdits es).dom.kind? id = some .text → ∃ before e' after value,
        es ++ [e] = before ++ e' :: after ∧ BeganWith (es ++ [e]) id before e' value := by
      intro hk
      obtain ⟨before, e', after, value, rfl, hlen, hchars, htext, hline⟩ := ih hbefore hk
      refine ⟨before, e', after ++ [e], value, by simp, hlen, hchars, htext, ?_⟩
      exact line?_concat hbefore hline
    cases tableStep_concat hbefore e with
    | keeps k hk makes lines =>
      rw [makes] at h
      split at h
      · rcases hk with rfl | rfl <;> cases h
      · exact hold h
    | records k breaks hk makes lines text =>
      rw [makes] at h
      split at h
      · next hid =>
        obtain ⟨value, hchars, htext, rfl⟩ := text (Option.some.inj h)
        refine ⟨es, e, [], value, rfl, ?_, hchars, hid ▸ htext, ?_⟩
        · rw [hid, size_dom_ofEdits]
        · rw [lines, if_pos hid.symm, line_ofEdits]
      · exact hold h

/-- **The table of lines.** In a sequence of edits that count lines from one: a line that is in the
table at some moment stays there; all lines are from one to the highest that was reported; only
elements, comments and texts have lines; and a text has one, that on which the characters begin with
which it came up. -/
theorem ofEdits_table {es : List Edit} (hes : ∀ n, .line n ∈ es → 1 ≤ n) :
    (∀ earlier later, es = earlier ++ later → ∀ id n, (ofEdits earlier).line? id = some n →
      (ofEdits es).line? id = some n) ∧
    (∀ id n, (ofEdits es).line? id = some n → 1 ≤ n ∧ n ≤ highestLine es) ∧
    (∀ id n, (ofEdits es).line? id = some n → (ofEdits es).dom.kind? id = some .element ∨
      (ofEdits es).dom.kind? id = some .comment ∨ (ofEdits es).dom.kind? id = some .text) ∧
    ∀ id, (ofEdits es).dom.kind? id = some .text →
      ∃ before e after value, es = before ++ e :: after ∧ BeganWith es id before e value := by
  refine ⟨?_, fun id n h => ⟨?_, line?_le_highestLine hes h⟩, onlyLocated_ofEdits hes,
    fun id => exists_beganWith hes⟩
  · rintro earlier later rfl id n
    exact line?_append hes
  · exact (ofEdits_covers hes 0).lines id n h

/-- A text that grows when more of the source has been read, before and after it is moved. -/
def growing : List Edit :=
  [.line 2, .element ⟨.html, "p"⟩ [], .append .document (.node 1),
    .append (.children 1) (.text "\na"), .line 5, .append (.children 1) (.text "b\n"),
    .element ⟨.html, "q"⟩ [],
    .moveChildren (.children 1) (.children 6), .append (.children 6) (.text "c")]

/-- The text stays on the line on which its first characters began. -/
theorem ofEdits_table_growing :
    (∀ n, .line n ∈ growing → 1 ≤ n) ∧ (ofEdits growing).dom.text? 3 = some "\nab\nc" ∧
    (ofEdits (growing.take 4)).line? 3 = some 1 ∧ (ofEdits growing).line? 3 = some 1 ∧
    (ofEdits growing).line? 6 = some 5 ∧ highestLine growing = 5 := by
  have hline : ∀ n, .line n ∈ growing → 1 ≤ n := by
    intro n hn
    simp [growing] at hn
    omega
  have hfirst : (ofEdits (growing.take 4)).line? 3 = some 1 := by decide
  refine ⟨hline, by decide, hfirst, ?_, by decide, by decide⟩
  exact (ofEdits_table hline).1 (growing.take 4) (growing.drop 4) rfl 3 1 hfirst

end Tracked

end HtmlWalk.Html
