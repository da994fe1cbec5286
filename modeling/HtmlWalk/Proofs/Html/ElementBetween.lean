import HtmlWalk.Proofs.Html.LineTable
import HtmlWalk.Proofs.Html.ParsedTrees
import HtmlWalk.Proofs.Html.TextParts

/-!
# An element after some text

The edits of a fragment that consists of some text and an element with some text in it, and the
nodes that they make.

**Theorem (`toNodesAll_elementEdits`).** All characters that are put into the fragment before the
element become one text, and so do all those that are put into the element. The element is on the
line that was reported last before it was made. The line of a text is found from the first token put
into it: from the line of the token the line breaks in its characters are subtracted.
-/

namespace HtmlWalk.Html

/-! ## Text, token by token -/

/-- A token of characters, after the line that it was handed over on. -/
abbrev Chunk := Nat × List Char

/-- The edits that put the characters of some tokens into an element. -/
def writes (id : NodeId) (chunks : List Chunk) : List Edit :=
  chunks.flatMap fun (line, run) =>
    [.line line, .append (.children id) (.text (String.ofList run))]

/-- The characters of some tokens. -/
def written (chunks : List Chunk) : List Char := chunks.flatMap (·.2)

/-- The line of the text that some tokens become. -/
def startLine? (chunks : List Chunk) : Option Nat :=
  chunks.head?.map fun (line, run) => max (line - lineBreaks run) 1

theorem length_writes (id : NodeId) (chunks : List Chunk) :
    (writes id chunks).length = 2 * chunks.length := by
  induction chunks with
  | nil => rfl
  | cons c cs ih =>
    rw [writes, List.flatMap_cons, List.length_append, ← writes, ih, List.length_cons]
    simp only [List.length_cons, List.length_nil]
    omega

/-- The name of the text that some tokens become, if so many edits were made before. -/
def textIds (size : Nat) (chunks : List Chunk) : List NodeId :=
  if chunks.isEmpty then [] else [size + 1]

theorem mem_textIds {size : Nat} {chunks : List Chunk} {j : NodeId} :
    j ∈ textIds size chunks ↔ chunks ≠ [] ∧ j = size + 1 := by
  cases chunks <;> simp [textIds]

namespace Dom

variable {d : Dom} {id : NodeId} {s : Slot}

/-- Tokens of characters are as good as one token. -/
theorem alike_writes_cons (d : Dom) (id : NodeId) (c : Chunk) (cs : List Chunk) :
    Alike (d.skip.append (.children id) (.text (String.ofList (written (c :: cs)))))
      ((writes id (c :: cs)).foldl apply d) := by
  have hrest : ∀ (x : String) (e : Dom), Alike (d.skip.append (.children id) (.text x)) e →
      Alike (d.skip.append (.children id) (.text (x ++ String.ofList (written cs))))
        ((writes id cs).foldl apply e) := by
    induction cs with
    | nil =>
      intro x e h
      rwa [written, List.flatMap_nil, String.ofList_nil, String.append_empty]
    | cons c cs ih =>
      intro x e h
      have hnext := ih _ _ (append_text_append (y := String.ofList c.2) h.skip)
      rwa [String.append_assoc, ← String.ofList_append] at hnext
  have h := hrest (String.ofList c.2) _ (.refl _)
  rwa [← String.ofList_append] at h

/-- **Tokens become one text.** -/
theorem slot?_writes (hs : d.slot? id = some s) (hlast : d.lastText? (.children id) = none)
    (chunks : List Chunk) (j : NodeId) : ((writes id chunks).foldl apply d).slot? j =
      if j ∈ textIds d.nodes.size chunks then
        some { content := .text (String.ofList (written chunks)), parent := some (.children id) }
      else if j = id then
        some { s with children := s.children ++ (textIds d.nodes.size chunks).toArray }
      else d.slot? j := by
  cases chunks with
  | nil =>
    by_cases hj : j = id
    · subst hj
      simpa [textIds, writes] using hs
    · simp [textIds, writes, hj]
  | cons c cs =>
    have hlast' : d.skip.lastText? (.children id) = none := by
      rw [← hlast, lastText?, lastText?, list_skip]
      congr 1
      funext x
      rw [(Alike.skip (.refl d)).text?]
    have hplace : d.skip.hasPlace (.children id) = true := by
      simp [hasPlace, hs]
    have hsize : d.skip.nodes.size = d.nodes.size + 1 := Array.size_push _
    have hids : textIds d.nodes.size (c :: cs) = [d.nodes.size + 1] := rfl
    rw [(alike_writes_cons d id c cs).slot?, append_text, hlast', hids]
    simp [appendText, hplace, slot?_make, size_update, hsize, updateList, slot?_update, hs]

theorem top_writes (d : Dom) (id : NodeId) (chunks : List Chunk) :
    ((writes id chunks).foldl apply d).top = d.top := by
  cases chunks with
  | nil => rfl
  | cons c cs =>
    rw [(alike_writes_cons d id c cs).top, append_text]
    split
    · rfl
    · unfold appendText
      dsimp only
      split <;> rfl

/-- The edits that make an element and put it into another one. -/
def adds (id : NodeId) (line : Nat) (name : Name) (attrs : List Attribute) (size : Nat) :
    List Edit :=
  [.line line, .element name attrs, .append (.children id) (.node (size + 1))]

theorem slot?_adds (hs : d.slot? id = some s) (line : Nat) (name : Name) (attrs : List Attribute)
    (j : NodeId) : ((adds id line name attrs d.nodes.size).foldl apply d).slot? j =
      if j = d.nodes.size + 1 then
        some { content := .element name attrs, parent := some (.children id) }
      else if j = id then some { s with children := s.children.push (d.nodes.size + 1) }
      else d.slot? j := by
  have hlt : id < d.nodes.size := lt_size_of_slot? hs
  have hne : id ≠ d.nodes.size + 1 := Nat.ne_of_lt (Nat.lt_succ_of_lt hlt)
  have hsize : d.skip.nodes.size = d.nodes.size + 1 := Array.size_push _
  have hnew : ∀ k, (d.skip.make (.element name attrs) none).slot? k =
      if k = d.nodes.size + 1 then some { content := .element name attrs } else d.slot? k := by
    intro k
    rw [slot?_make, hsize, slot?_skip]
  have hplace : (d.skip.make (.element name attrs) none).hasPlace (.children id) = true := by
    simp [hasPlace, hnew, hne, hs]
  have hmovable : (d.skip.make (.element name attrs) none).isMovable (d.nodes.size + 1) = true := by
    simp [isMovable, content?, hnew]
  have hparent : (d.skip.make (.element name attrs) none).parent? (d.nodes.size + 1) = none := by
    simp [parent?, hnew]
  simp only [adds, List.foldl_cons, List.foldl_nil, apply, append, hplace, hmovable, hparent,
    Option.isNone_none, Bool.and_self, if_true, slot?_skip, setParent, updateList, slot?_update,
    hnew]
  by_cases hj : j = d.nodes.size + 1
  · simp [hj, Ne.symm hne]
  · by_cases hj' : j = id
    · simp [hj', hne, hs]
    · simp [hj, hj']

end Dom

/-- The edits that every fragment starts with. -/
def rootEdits : List Edit := [.element { tag := "html" } [], .append .document (.node 0)]

/-- The edits of a fragment of some text and an element with some text in it. -/
def elementEdits (before : List Chunk) (line : Nat) (name : Name) (attrs : List Attribute)
    (inside : List Chunk) (last : Nat) : List Edit :=
  let size := 2 + 2 * before.length
  rootEdits ++ writes 0 before ++ Dom.adds 0 line name attrs size ++ writes (size + 1) inside ++
    [.line last]

section Elements

variable (before inside : List Chunk) (line last : Nat) (name : Name) (attrs : List Attribute)

/-- The nodes of the fragment. -/
theorem slot?_elementEdits (j : NodeId) :
    (Dom.ofEdits (elementEdits before line name attrs inside last)).slot? j =
      if j ∈ textIds (2 + 2 * before.length + 3) inside then
        some ⟨.text (String.ofList (written inside)),
          some (.children (2 + 2 * before.length + 1)), #[], #[]⟩
      else if j = 2 + 2 * before.length + 1 then
        some ⟨.element name attrs, some (.children 0),
          (textIds (2 + 2 * before.length + 3) inside).toArray, #[]⟩
      else if j = 0 then
        some ⟨.element { tag := "html" } [], some .document,
          (textIds 2 before).toArray.push (2 + 2 * before.length + 1), #[]⟩
      else if j ∈ textIds 2 before then
        some ⟨.text (String.ofList (written before)), some (.children 0), #[], #[]⟩
      else none := by
  set root := Dom.ofEdits rootEdits with hroot
  set d₁ := (writes 0 before).foldl Dom.apply root with hd₁
  set d₂ := (Dom.adds 0 line name attrs d₁.nodes.size).foldl Dom.apply d₁ with hd₂
  have hsize₁ : d₁.nodes.size = 2 + 2 * before.length := by
    rw [hd₁, Dom.size_foldl_apply, length_writes]
    rfl
  have hsize₂ : d₂.nodes.size = 2 + 2 * before.length + 3 := by
    rw [hd₂, Dom.size_foldl_apply, hsize₁]
    rfl
  have hfold : Dom.ofEdits (elementEdits before line name attrs inside last) =
      ((writes (d₁.nodes.size + 1) inside).foldl Dom.apply d₂).skip := by
    rw [hd₂, hd₁, hsize₁, hroot]
    simp only [elementEdits, Dom.ofEdits, List.foldl_append]
    rfl
  have hroot? : ∀ k, root.slot? k =
      if k = 0 then some ⟨.element { tag := "html" } [], some .document, #[], #[]⟩ else none := by
    intro k
    rcases k with _ | _ | k
    · rfl
    · rfl
    · exact Dom.slot?_of_size_le (Nat.le_add_left 2 k)
  have hslot₁ := Dom.slot?_writes (hroot? 0) rfl before
  have hzero : d₁.slot? 0 =
      some ⟨.element { tag := "html" } [], some .document, (textIds 2 before).toArray, #[]⟩ := by
    rw [hd₁, hslot₁, if_neg (by simp [mem_textIds]), if_pos rfl, Array.empty_append]
    rfl
  have hslot₂ := Dom.slot?_adds hzero line name attrs
  have hid : d₂.slot? (d₁.nodes.size + 1) =
      some ⟨.element name attrs, some (.children 0), #[], #[]⟩ := by
    rw [hd₂, hslot₂, if_pos rfl]
  have hlast : d₂.lastText? (.children (d₁.nodes.size + 1)) = none := by
    simp [Dom.lastText?, Dom.list, hid]
  rw [hfold, Dom.slot?_skip, Dom.slot?_writes hid hlast inside, hd₂, hslot₂, hd₁, hslot₁, hroot?,
    ← hd₁, ← hd₂, hsize₁, hsize₂, show root.nodes.size = 2 from rfl]
  by_cases hinside : j ∈ textIds (2 + 2 * before.length + 3) inside
  · simp only [if_pos hinside]
  by_cases hj : j = 2 + 2 * before.length + 1
  · simp only [if_neg hinside, if_pos hj, Array.empty_append]
  by_cases hj₀ : j = 0
  · simp only [if_neg hinside, if_neg hj, if_pos hj₀]
  · simp only [if_neg hinside, if_neg hj, if_neg hj₀]

theorem top_elementEdits :
    (Dom.ofEdits (elementEdits before line name attrs inside last)).top = #[0] := by
  have hroot : (Dom.ofEdits rootEdits).top = #[0] := rfl
  have hadds : ∀ (d : Dom) (size : Nat),
      ((Dom.adds 0 line name attrs size).foldl Dom.apply d).top = d.top := by
    intro d size
    simp only [Dom.adds, List.foldl_cons, List.foldl_nil, Dom.apply, Dom.append]
    split <;> rfl
  have hline : ∀ d : Dom, ([.line last].foldl Dom.apply d).top = d.top := fun d => rfl
  simp only [elementEdits, Dom.ofEdits, List.foldl_append] at hroot ⊢
  rw [hline, Dom.top_writes, hadds, Dom.top_writes, hroot]

end Elements

/-! ## Lines -/

namespace Tracked

variable {earlier later : List Edit} {line : Nat}

/-- The line of a node that is recorded when it is made. -/
theorem line?_of_recorded {e : Edit} {start : Nat}
    (he : ∀ t : Tracked, t.line = line → t.apply e = (t.edit e).recordAt t.dom.nodes.size start)
    (hes : ∀ n, .line n ∈ earlier ++ .line line :: e :: later → 1 ≤ n) :
    (ofEdits (earlier ++ .line line :: e :: later)).line? (earlier.length + 1) = some start := by
  have hmade : (ofEdits ((earlier ++ [.line line]) ++ [e])).line? (earlier.length + 1) =
      some start := by
    rw [ofEdits_concat, he _ ((line_ofEdits _).trans (currentLine_concat _ _)), line?_recordAt,
      if_pos]
    rw [size_dom_ofEdits, List.length_append]
    rfl
  have hsplit : earlier ++ .line line :: e :: later =
      ((earlier ++ [.line line]) ++ [e]) ++ later := by
    simp
  rw [hsplit] at hes ⊢
  exact line?_append hes hmade

/-- The line of an element is the one that was reported last before it was made. -/
theorem line?_of_element {name : Name} {attrs : List Attribute}
    (hes : ∀ n, .line n ∈ earlier ++ .line line :: .element name attrs :: later → 1 ≤ n) :
    (ofEdits (earlier ++ .line line :: .element name attrs :: later)).line? (earlier.length + 1) =
      some line :=
  line?_of_recorded (fun t ht => by rw [apply, record, edit, ht]) hes

/-- The line of a comment is found from the one that was reported last before it was made. -/
theorem line?_of_comment {data : String}
    (hes : ∀ n, .line n ∈ earlier ++ .line line :: .comment data :: later → 1 ≤ n) :
    (ofEdits (earlier ++ .line line :: .comment data :: later)).line? (earlier.length + 1) =
      some (max (line - lineBreaks data.toList) 1) :=
  line?_of_recorded (fun t ht => by rw [apply, recordSpanning, edit, ht]) hes

/-- The line of a text is found from the first token put into it. -/
theorem line?_of_writes {id : NodeId} {chunks : List Chunk} (hne : chunks ≠ [])
    (hes : ∀ n, .line n ∈ earlier ++ writes id chunks ++ later → 1 ≤ n)
    (hkind : (ofEdits (earlier ++ writes id chunks ++ later)).dom.kind? (earlier.length + 1) =
      some .text) :
    (ofEdits (earlier ++ writes id chunks ++ later)).line? (earlier.length + 1) =
      startLine? chunks := by
  obtain ⟨⟨line, run⟩, cs, rfl⟩ := List.exists_cons_of_ne_nil hne
  obtain ⟨before, e, after, value, hsplit, hlength, hchars, -, hline⟩ := exists_beganWith hes hkind
  have hsame : (earlier ++ [.line line]) ++ .append (.children id) (.text (String.ofList run)) ::
      (writes id cs ++ later) = before ++ e :: after := by
    rw [← hsplit]
    simp [writes]
  obtain ⟨rfl, hrest⟩ := List.append_inj hsame (by rw [hlength]; simp)
  cases hrest
  cases hchars
  rw [hline, currentLine_concat]
  simp [Edit.line?, startLine?]

end Tracked

/-! ## The nodes -/

/-- The text that some tokens become, if there are any. -/
def textNodes (located : Bool) (chunks : List Chunk) : List Node :=
  if chunks.isEmpty then []
  else [.text ⟨String.ofList (written chunks), if located then startLine? chunks else none⟩]

theorem Tracked.tree?_element {t : Tracked} {id : NodeId} {name : Name} {attrs : List Attribute}
    {place : Option Place} {children contents : Array NodeId}
    (hname : name.isHtml "template" = false)
    (h : t.dom.slot? id = some ⟨.element name attrs, place, children, contents⟩) (located : Bool)
    (depth : Nat) : t.tree? located (depth + 1) id =
      some (.element ⟨name.tag, name.space.uri, attrs, if located then t.line? id else none⟩
        (children.toList.filterMap (t.tree? located depth)) none) := by
  simp [tree?, h, hname]

theorem Tracked.toNodesAll_textIds {t : Tracked} {located : Bool} {chunks : List Chunk} {size : Nat}
    {place : Option Place} (h : chunks ≠ [] →
      t.dom.slot? (size + 1) = some ⟨.text (String.ofList (written chunks)), place, #[], #[]⟩ ∧
        t.line? (size + 1) = startLine? chunks) (depth : Nat) :
    Tree.toNodesAll ((textIds size chunks).filterMap (t.tree? located (depth + 1))) =
      textNodes located chunks := by
  cases chunks with
  | nil => rfl
  | cons c cs =>
    obtain ⟨hslot, hline⟩ := h (List.cons_ne_nil c cs)
    simp [textIds, textNodes, tree?, hslot, hline, Tree.toNodesAll, Tree.toNodes]

section Elements

variable {before inside : List Chunk} {line last : Nat} {name : Name} {attrs : List Attribute}

theorem slot?_dom_elementEdits (j : NodeId) :
    (Tracked.ofEdits (elementEdits before line name attrs inside last)).dom.slot? j =
      (Dom.ofEdits (elementEdits before line name attrs inside last)).slot? j :=
  congrArg (·.slot? j) (dom_ofEdits _)

/-- The text before the element. -/
theorem text_before_elementEdits (hne : before ≠ [])
    (hes : ∀ n, .line n ∈ elementEdits before line name attrs inside last → 1 ≤ n) :
    let t := Tracked.ofEdits (elementEdits before line name attrs inside last)
    t.dom.slot? 3 = some ⟨.text (String.ofList (written before)), some (.children 0), #[], #[]⟩ ∧
      t.line? 3 = startLine? before := by
  intro t
  have hlong : 1 ≤ before.length := List.length_pos_of_ne_nil hne
  have hfar : 3 < 2 + 2 * before.length + 1 := by omega
  have hnode : t.dom.slot? 3 =
      some ⟨.text (String.ofList (written before)), some (.children 0), #[], #[]⟩ := by
    rw [slot?_dom_elementEdits, slot?_elementEdits,
      if_neg fun h => (mem_textIds.1 h).2.not_lt (Nat.lt_add_right 3 hfar),
      if_neg (Nat.ne_of_lt hfar), if_neg (Nat.succ_ne_zero 2), if_pos (mem_textIds.2 ⟨hne, rfl⟩)]
  have hcut : elementEdits before line name attrs inside last =
      rootEdits ++ writes 0 before ++ (Dom.adds 0 line name attrs (2 + 2 * before.length) ++
        writes (2 + 2 * before.length + 1) inside ++ [.line last]) := by
    simp [elementEdits]
  have hkind : t.dom.kind? 3 = some .text := Dom.kind?_of_slot? hnode
  refine ⟨hnode, ?_⟩
  simp only [t, hcut] at hkind hes ⊢
  exact Tracked.line?_of_writes hne hes hkind

/-- The text in the element. -/
theorem text_inside_elementEdits (hne : inside ≠ [])
    (hes : ∀ n, .line n ∈ elementEdits before line name attrs inside last → 1 ≤ n) :
    let t := Tracked.ofEdits (elementEdits before line name attrs inside last)
    t.dom.slot? (2 + 2 * before.length + 4) =
      some ⟨.text (String.ofList (written inside)), some (.children (2 + 2 * before.length + 1)),
        #[], #[]⟩ ∧ t.line? (2 + 2 * before.length + 4) = startLine? inside := by
  intro t
  have hnode : t.dom.slot? (2 + 2 * before.length + 4) =
      some ⟨.text (String.ofList (written inside)), some (.children (2 + 2 * before.length + 1)),
        #[], #[]⟩ := by
    rw [slot?_dom_elementEdits, slot?_elementEdits, if_pos (by simp [mem_textIds, hne])]
  have hearlier : (rootEdits ++ writes 0 before ++
      Dom.adds 0 line name attrs (2 + 2 * before.length)).length = 2 + 2 * before.length + 3 := by
    simp only [List.length_append, length_writes]
    rfl
  have hkind : t.dom.kind? (2 + 2 * before.length + 4) = some .text := Dom.kind?_of_slot? hnode
  have hline := Tracked.line?_of_writes hne hes (hearlier ▸ hkind)
  rw [hearlier] at hline
  exact ⟨hnode, hline⟩

/-- The element is on the line that was reported before it was made. -/
theorem line?_elementEdits
    (hes : ∀ n, .line n ∈ elementEdits before line name attrs inside last → 1 ≤ n) :
    (Tracked.ofEdits (elementEdits before line name attrs inside last)).line?
      (2 + 2 * before.length + 1) = some line := by
  have hlength : (rootEdits ++ writes 0 before).length = 2 + 2 * before.length := by
    simp only [List.length_append, length_writes]
    rfl
  have hcut : elementEdits before line name attrs inside last =
      (rootEdits ++ writes 0 before) ++ .line line :: .element name attrs ::
          (.append (.children 0) (.node (2 + 2 * before.length + 1)) ::
            (writes (2 + 2 * before.length + 1) inside ++ [.line last])) := by
    simp [elementEdits, Dom.adds]
  rw [hcut] at hes
  have h := Tracked.line?_of_element hes
  rwa [hlength, ← hcut] at h

/-- **An element after some text.** The tokens before the element become one text, and so do those
in it; the element is on the line that was reported before it was made. -/
theorem toNodesAll_elementEdits (options : ParseOptions) (hname : name.isHtml "template" = false)
    (hes : ∀ n, .line n ∈ elementEdits before line name attrs inside last → 1 ≤ n) :
    Tree.toNodesAll (fragmentTrees options
        (Tracked.ofEdits (elementEdits before line name attrs inside last))) =
      textNodes options.sourceLines before ++
        [.element ⟨name.tag, name.space.uri, attrs, if options.sourceLines then some line else none⟩
          (textNodes options.sourceLines inside)] := by
  set t := Tracked.ofEdits (elementEdits before line name attrs inside last) with ht
  have htop : t.dom.list .document = #[0] :=
    (congrArg Dom.top (dom_ofEdits _)).trans (top_elementEdits _ _ _ _ _ _)
  have hroot : t.dom.slot? 0 = some ⟨.element { tag := "html" } [], some .document,
      (textIds 2 before).toArray.push (2 + 2 * before.length + 1), #[]⟩ := by
    rw [ht, slot?_dom_elementEdits, slot?_elementEdits, if_neg (by simp [mem_textIds]),
      if_neg (Nat.succ_ne_zero _).symm, if_pos rfl]
  have helement : t.dom.slot? (2 + 2 * before.length + 1) = some ⟨.element name attrs,
      some (.children 0), (textIds (2 + 2 * before.length + 3) inside).toArray, #[]⟩ := by
    rw [ht, slot?_dom_elementEdits, slot?_elementEdits, if_neg (by simp [mem_textIds]), if_pos rfl]
  -- There are more nodes than the tree has levels.
  obtain ⟨k, hk⟩ : ∃ k, t.dom.nodes.size = k + 3 := by
    refine ⟨3 + 2 * before.length + 2 * inside.length, ?_⟩
    rw [ht, Tracked.size_dom_ofEdits, elementEdits]
    simp only [List.length_append, length_writes, rootEdits, Dom.adds, List.length_cons,
      List.length_nil]
    omega
  have hbelow : Tree.toNodesAll ((textIds (2 + 2 * before.length + 3) inside).filterMap
      (t.tree? options.sourceLines (k + 1))) = textNodes options.sourceLines inside :=
    Tracked.toNodesAll_textIds (fun hne => text_inside_elementEdits hne hes) k
  have hbeside : Tree.toNodesAll ((textIds 2 before).filterMap
      (t.tree? options.sourceLines (k + 2))) = textNodes options.sourceLines before :=
    Tracked.toNodesAll_textIds (fun hne => text_before_elementEdits hne hes) (k + 1)
  have hline : t.line? (2 + 2 * before.length + 1) = some line := line?_elementEdits hes
  have htree := Tracked.tree?_element hname helement options.sourceLines (k + 1)
  have hwhole := Tracked.tree?_element rfl hroot options.sourceLines (k + 2)
  have htrees : documentTrees options t = (t.tree? options.sourceLines (k + 3) 0).toList := by
    rw [documentTrees, Tracked.trees, htop, hk, hwhole]
    exact List.filterMap_cons_some hwhole
  rw [hwhole] at htrees
  rw [fragmentTrees_of_root htrees rfl]
  simp only [Array.toList_push, List.filterMap_append, List.filterMap_cons, List.filterMap_nil,
    htree, hline, List.append_nil, Tree.toNodesAll_append, hbeside, Tree.toNodesAll, Tree.toNodes,
    hbelow]

end Elements

end HtmlWalk.Html
