import Mathlib.Data.Set.Insert
import HtmlWalk.Proofs.Html.DocumentOrder
import HtmlWalk.Proofs.Html.LineTable

/-!
# Nodes under the root element

A document under construction may have nodes that stand nowhere, or in one that stands nowhere, and
of these nothing becomes. In the document of a fragment there are none (`Dom.Rooted.mem_inOrder`):
every node stands in an element or in the contents of a template, and whoever goes up from there
comes to the root element.

That one comes to the root element is not a matter of links alone, since nodes might stand in each
other's children in a circle. So the invariant (`Dom.Rooted`) ranks the nodes: each has a higher
rank than the element in which it stands. An edit that puts a node somewhere keeps it if the node
stood nowhere before and ranks high enough. Ranks are not part of the document, and whoever makes
the edit may choose others in between (`Dom.Rooted.rerank`).

Nodes stay what they were, but for texts and elements that grow (`Dom.growsAt_apply`).
-/

namespace HtmlWalk.Html

/-! ## What nodes are -/

/-- What a node is may grow: a text gets more characters, an element more attributes. -/
inductive Content.Grows : Content → Content → Prop
  | same (c : Content) : Grows c c
  | text (before after : String) : Grows (.text before) (.text (before ++ after))
  | element (name : Name) (attrs more : List Attribute) :
    Grows (.element name attrs) (.element name (attrs ++ more))

theorem Content.Grows.trans {c c' c'' : Content} (h : c.Grows c') (h' : c'.Grows c'') :
    c.Grows c'' := by
  cases h with
  | same => exact h'
  | text before after =>
    cases h' with
    | same => exact .text before after
    | text _ more =>
      rw [String.append_assoc]
      exact .text before (after ++ more)
  | element name attrs more =>
    cases h' with
    | same => exact .element name attrs more
    | element _ _ more' =>
      rw [List.append_assoc]
      exact .element name attrs (more ++ more')

namespace Dom

variable {d d' d'' : Dom} {id x : NodeId} {p : Place}

/-- The name of an element. -/
def name? (d : Dom) (id : NodeId) : Option Name :=
  match d.content? id with
  | some (.element name _) => some name
  | _ => none

theorem exists_content?_of_name? {name : Name} (h : d.name? x = some name) :
    ∃ attrs, d.content? x = some (.element name attrs) := by
  unfold name? at h
  split at h
  · next hc =>
    obtain rfl := Option.some.inj h
    exact ⟨_, hc⟩
  · cases h

theorem isSome_content?_of_name? {name : Name} (h : d.name? x = some name) :
    (d.content? x).isSome := by
  obtain ⟨attrs, hc⟩ := exists_content?_of_name? h
  rw [hc]
  rfl

theorem isMovable_of_name? {name : Name} (h : d.name? x = some name) : d.isMovable x = true := by
  obtain ⟨attrs, hc⟩ := exists_content?_of_name? h
  rw [isMovable, hc]

theorem isSome_content?_of_isMovable (h : d.isMovable x = true) : (d.content? x).isSome := by
  unfold isMovable at h
  cases hc : d.content? x with
  | none => simp [hc] at h
  | some c => rfl

theorem isSome_content?_of_text? {value : String} (h : d.text? x = some value) :
    (d.content? x).isSome := by
  unfold text? at h
  split at h
  · next hc => simp [hc]
  · cases h

/-- In the second document some characters stand behind those of a text, or they are a new one. -/
def Writes (d d' : Dom) (value : String) : Prop :=
  ∃ x, d'.text? x = some ((d.text? x).getD "" ++ value)

/-- The characters of each edit have been written. -/
def WritesAll (es : List Edit) : Prop :=
  ∀ before e after, es = before ++ e :: after → ∀ value ∈ e.characters?,
    Writes (ofEdits before) ((ofEdits before).apply e) value

/-- A place is among the children of an element, or in the contents of a template. -/
def Holds (d : Dom) (e : NodeId) : Place → Prop
  | .document => False
  | .children id => id = e ∧ (d.name? e).isSome
  | .contents id => id = e ∧ ∃ name ∈ d.name? e, name.isHtml "template" = true

/-- A node is what it was, or it has grown. -/
def GrowsAt (d d' : Dom) (x : NodeId) : Prop :=
  Option.Rel Content.Grows (d.content? x) (d'.content? x)

/-- The second document has the same nodes, some of which may have grown. -/
def Keeps (d d' : Dom) : Prop := ∀ x, GrowsAt d d' x

theorem content?_make (d : Dom) (c : Content) (p : Option Place) (x : NodeId) :
    (d.make c p).content? x = if x = d.nodes.size then some c else d.content? x := by
  simp only [content?, slot?_make]
  split <;> rfl

theorem content?_of_size_le (h : d.nodes.size ≤ x) : d.content? x = none := by
  rw [content?, slot?_of_size_le h]
  rfl

theorem lt_size_of_content? (h : (d.content? x).isSome) : x < d.nodes.size := by
  by_contra hle
  rw [content?_of_size_le (Nat.le_of_not_lt hle)] at h
  cases h

namespace Keeps

protected theorem refl (d : Dom) : Keeps d d := fun x => by
  unfold GrowsAt
  cases d.content? x with
  | none => exact .none
  | some c => exact .some (.same c)

protected theorem trans (h : Keeps d d') (h' : Keeps d' d'') : Keeps d d'' := fun x => by
  have hx := h x
  have hx' := h' x
  unfold GrowsAt at hx hx' ⊢
  generalize d.content? x = c at hx ⊢
  generalize d'.content? x = c' at hx hx'
  generalize d''.content? x = c'' at hx' ⊢
  cases hx with
  | none => exact hx'
  | some hx =>
    cases hx' with
    | some hx' => exact .some (hx.trans hx')

theorem update {k : Slot → Slot} (hk : ∀ s : Slot, s.content.Grows (k s).content) (d : Dom)
    (id : NodeId) : Keeps d (d.update id k) := fun x => by
  simp only [GrowsAt, content?, slot?_update]
  split
  · next hx =>
    subst hx
    cases d.slot? x with
    | none => exact .none
    | some s => exact .some (hk s)
  · exact Keeps.refl d x

theorem update_same {k : Slot → Slot} (hk : ∀ s, (k s).content = s.content) :
    Keeps d (d.update id k) := by
  refine update (fun s => ?_) d id
  rw [hk]
  exact .same s.content

theorem skip (h : Keeps d d') : Keeps d d'.skip := fun x => by
  rw [GrowsAt, content?, content?, slot?_skip]
  exact h x

theorem updateList (h : Keeps d d') (p : Place) (k : Array NodeId → Array NodeId) :
    Keeps d (d'.updateList p k) := by
  cases p with
  | document => exact h
  | children id | contents id => exact h.trans (update_same fun _ => rfl)

theorem setParent (h : Keeps d d') (id : NodeId) (p : Option Place) :
    Keeps d (d'.setParent id p) :=
  h.trans (update_same fun _ => rfl)

theorem unlink (h : Keeps d d') (id : NodeId) : Keeps d (d'.unlink id) := by
  unfold Dom.unlink
  split
  · exact (h.updateList _ _).setParent id none
  · exact h

theorem extendText (d : Dom) (id : NodeId) (value : String) : Keeps d (d.extendText id value) := by
  refine update (fun s => ?_) d id
  split
  · next hs =>
    rw [hs]
    exact .text _ value
  · exact .same s.content

theorem addAttrs (d : Dom) (id : NodeId) (attrs : List Attribute) :
    Keeps d (d.addAttrs id attrs) := by
  refine update (fun s => ?_) d id
  split
  · next hs =>
    rw [hs]
    exact .element _ _ _
  · exact .same s.content

theorem moveChildren (d : Dom) (source target : Place) :
    Keeps d (d.moveChildren source target) := by
  unfold Dom.moveChildren
  have hlists := ((Keeps.refl d).updateList source fun _ => #[]).updateList target
    (· ++ d.list source)
  exact Array.foldl_induction (fun _ e => Keeps d e) hlists fun _ _ he => he.setParent _ _

end Keeps

namespace GrowsAt

variable (h : GrowsAt d d' x)
include h

/-- What is so when a node is what it was, and when it has grown. -/
@[elab_as_elim]
theorem elim {motive : Option Content → Option Content → Prop} (same : ∀ c, motive c c)
    (text : ∀ before after, motive (some (.text before)) (some (.text (before ++ after))))
    (element : ∀ name attrs more,
      motive (some (.element name attrs)) (some (.element name (attrs ++ more)))) :
    motive (d.content? x) (d'.content? x) := by
  unfold GrowsAt at h
  generalize d.content? x = c at h ⊢
  generalize d'.content? x = c' at h ⊢
  cases h with
  | none => exact same none
  | some hgrows =>
    cases hgrows with
    | same => exact same _
    | text before after => exact text before after
    | element name attrs more => exact element name attrs more

theorem text? {value : String} (hx : d.text? x = some value) :
    ∃ more, d'.text? x = some (value ++ more) := by
  unfold GrowsAt at h
  unfold Dom.text? at hx ⊢
  generalize d.content? x = c at hx h
  generalize d'.content? x = c' at h ⊢
  rcases h with hgrows | _
  · cases hgrows with
    | same => exact ⟨"", by simp [hx]⟩
    | text before after => exact ⟨after, by simp_all⟩
    | element => cases hx
  · cases hx

theorem isSome_content? : (d'.content? x).isSome = (d.content? x).isSome :=
  h.elim (fun _ => rfl) (fun _ _ => rfl) fun _ _ _ => rfl

theorem isMovable : d'.isMovable x = d.isMovable x := by
  unfold Dom.isMovable
  exact h.elim (fun _ => rfl) (fun _ _ => rfl) fun _ _ _ => rfl

theorem kind? : d'.kind? x = d.kind? x := by
  unfold Dom.kind?
  exact h.elim (fun _ => rfl) (fun _ _ => rfl) fun _ _ _ => rfl

theorem name? : d'.name? x = d.name? x := by
  unfold Dom.name?
  exact h.elim (fun _ => rfl) (fun _ _ => rfl) fun _ _ _ => rfl

end GrowsAt

theorem Keeps.holds (h : Keeps d d') {e : NodeId} : d'.Holds e p ↔ d.Holds e p := by
  cases p with
  | document => exact Iff.rfl
  | children id | contents id => rw [Holds, Holds, (h e).name?]

variable {e : NodeId}

theorem isSome_content?_of_holds (hp : d.Holds e p) : (d.content? e).isSome := by
  cases p with
  | document => exact hp.elim
  | children id =>
    obtain ⟨name, hname⟩ := Option.isSome_iff_exists.1 hp.2
    exact isSome_content?_of_name? hname
  | contents id =>
    obtain ⟨-, name, hname, -⟩ := hp
    exact isSome_content?_of_name? hname

theorem lt_size_of_holds (hp : d.Holds e p) : e < d.nodes.size :=
  lt_size_of_content? (isSome_content?_of_holds hp)

theorem eq_of_holds {e' : NodeId} (hp : d.Holds e p) (hp' : d.Holds e' p) : e' = e := by
  cases p with
  | document => exact hp.elim
  | children id | contents id => exact hp'.1.symm.trans hp.1

theorem hasPlace_of_holds (hp : d.Holds e p) : d.hasPlace p = true := by
  have hcontent := isSome_content?_of_holds hp
  rw [content?, Option.isSome_map] at hcontent
  cases p with
  | document => rfl
  | children id | contents id =>
    obtain rfl := hp.1
    exact hcontent

theorem within_of_holds (hp : d.Holds e p) : p.Within d.nodes.size := by
  have hlt := lt_size_of_holds hp
  cases p with
  | document => trivial
  | children id | contents id => exact hp.1 ▸ hlt

theorem name?_make {c : Content} (hx : x ≠ d.nodes.size) :
    (d.make c none).name? x = d.name? x := by
  rw [name?, content?_make, if_neg hx]
  rfl

theorem holds_make {c : Content} (he : e ≠ d.nodes.size) :
    (d.make c none).Holds e p ↔ d.Holds e p := by
  cases p with
  | document => exact Iff.rfl
  | children id | contents id => rw [Holds, Holds, name?_make he]

section

variable (hx : x < d.nodes.size)
include hx

theorem Keeps.growsAt_make (h : Keeps d d') (hsize : d'.nodes.size = d.nodes.size) (c : Content)
    (q : Option Place) : GrowsAt d (d'.make c q) x := by
  rw [GrowsAt, content?_make, if_neg (hsize ▸ Nat.ne_of_lt hx)]
  exact h x

/-- A new text is put into a list. -/
theorem growsAt_putText (p : Place) (k : Array NodeId → Array NodeId) (value : String) :
    GrowsAt d ((d.updateList p k).make (.text value) (some p)) x :=
  ((Keeps.refl d).updateList p k).growsAt_make hx (size_updateList ..) _ _

theorem growsAt_append (p : Place) (item : Item) : GrowsAt d (d.append p item) x := by
  cases item with
  | node id =>
    rw [append]
    split
    · exact (((Keeps.refl d).updateList p _).setParent id _).skip x
    · exact (Keeps.refl d).skip x
  | text value =>
    have hnew : GrowsAt d (d.appendText p value) x := by
      unfold appendText
      dsimp only
      split
      · exact growsAt_putText hx p _ value
      · exact (Keeps.refl d).skip x
    rw [append]
    split
    · split
      · exact (Keeps.extendText d _ value).skip x
      · exact hnew
    · exact hnew

theorem growsAt_insertBefore (sibling : NodeId) (item : Item) :
    GrowsAt d (d.insertBefore sibling item) x := by
  unfold insertBefore
  split
  · exact (Keeps.refl d).skip x
  · split
    · split
      · exact ((((Keeps.refl d).unlink _).updateList _ _).setParent _ _).skip x
      · exact (Keeps.refl d).skip x
    · split
      · split
        · exact (Keeps.extendText d _ _).skip x
        · exact growsAt_putText hx _ _ _
      · exact growsAt_putText hx _ _ _

end

/-- What has been made is never unmade, whatever the edit. -/
theorem growsAt_apply (e : Edit) (hx : x < d.nodes.size) : GrowsAt d (d.apply e) x := by
  cases e with
  | line n | mode m => exact (Keeps.refl d).skip x
  | doctype dt => exact ((Keeps.refl d).updateList .document _).growsAt_make hx rfl _ _
  | element | comment | instruction => exact (Keeps.refl d).growsAt_make hx rfl _ _
  | append p item => exact growsAt_append hx p item
  | insertBefore sibling item => exact growsAt_insertBefore hx sibling item
  | foster table below item =>
    rw [apply, foster]
    split
    · exact growsAt_insertBefore hx table item
    · exact growsAt_append hx _ item
  | addAttrs target attrs => exact (Keeps.addAttrs d target attrs).skip x
  | detach target =>
    rw [apply]
    split
    · exact ((Keeps.refl d).unlink target).skip x
    · exact (Keeps.refl d).skip x
  | moveChildren source target => exact (Keeps.moveChildren d source target).skip x

theorem isMovable_apply (h : d.isMovable x = true) (e : Edit) : (d.apply e).isMovable x = true := by
  rw [(growsAt_apply e (lt_size_of_content? (isSome_content?_of_isMovable h))).isMovable, h]

theorem Holds.apply {id : NodeId} (h : d.Holds id p) (e : Edit) : (d.apply e).Holds id p := by
  have hname := (growsAt_apply e (lt_size_of_holds h)).name?
  cases p with
  | document => exact h.elim
  | children _ | contents _ =>
    rw [Holds, hname]
    exact h

theorem holds_apply_element (d : Dom) (name : Name) (attrs : List Attribute) :
    (d.apply (.element name attrs)).Holds d.nodes.size (.children d.nodes.size) :=
  ⟨rfl, by simp [Dom.apply, name?, content?_make]⟩

theorem writesAll_nil : WritesAll [] := fun before e after hes => by simp at hes

theorem WritesAll.concat {es : List Edit} (h : WritesAll es) {e : Edit}
    (he : ∀ value ∈ e.characters?, Writes (ofEdits es) ((ofEdits es).apply e) value) :
    WritesAll (es ++ [e]) := by
  intro before e' after hes
  obtain rfl | ⟨after, last, rfl⟩ := after.eq_nil_or_concat
  · obtain ⟨rfl, hlast⟩ := List.append_inj' hes rfl
    obtain rfl := List.singleton_inj.1 hlast
    exact he
  · rw [List.concat_eq_append, ← List.cons_append, ← List.append_assoc] at hes
    exact h before e' after (List.append_inj' hes rfl).1

/-- A text only grows at its end. -/
theorem text?_ofEdits_append {es : List Edit} {value : String}
    (h : (ofEdits es).text? x = some value) (later : List Edit) :
    ∃ more, (ofEdits (es ++ later)).text? x = some (value ++ more) := by
  induction later using List.reverseRecOn with
  | nil => exact ⟨"", by simpa using h⟩
  | append_singleton later e ih =>
    obtain ⟨more, hmore⟩ := ih
    have hlt := lt_size_of_content? (isSome_content?_of_text? hmore)
    obtain ⟨more', hmore'⟩ := (growsAt_apply e hlt).text? hmore
    refine ⟨more ++ more', ?_⟩
    rw [← List.append_assoc, ofEdits_concat, hmore', String.append_assoc]

/-! ## The invariant -/

/-- Every node stands under the root element, except for the loose ones, which stand nowhere. The
rank of a node is greater than that of the element in which it stands, so no node is below
itself. -/
structure Rooted (rank : NodeId → Nat) (loose : Set NodeId) (d : Dom) : Prop where
  linked : d.Linked
  /-- Only the root element stands in the document itself. -/
  top : d.top = #[0]
  root : d.name? 0 = some { tag := "html" }
  /-- Something becomes of every node. -/
  shown : ∀ x, (d.content? x).isSome → (d.kind? x).isSome
  ranked : ∀ e p x, d.Holds e p → x ∈ d.list p → rank e < rank x
  stands : ∀ x, (d.content? x).isSome → x ≠ 0 → x ∉ loose → ∃ e p, d.Holds e p ∧ x ∈ d.list p
  loose : ∀ x ∈ loose, d.parent? x = none

theorem mem_insertIdxIfInBounds {xs : Array NodeId} {i : Nat} (hi : i ≤ xs.size) {y : NodeId} :
    y ∈ xs.insertIdxIfInBounds i x ↔ y ∈ xs ∨ y = x := by
  obtain ⟨xs⟩ := xs
  rw [List.insertIdxIfInBounds_toArray, List.mem_toArray, List.mem_toArray,
    (List.perm_insertIdx x xs hi).mem_iff, List.mem_cons, or_comm]

/-- A node that was made and put somewhere is loose no longer. -/
theorem insert_empty_sdiff (x : NodeId) : insert x (∅ : Set NodeId) \ {x} = ∅ :=
  Set.eq_empty_of_forall_notMem fun _ hy => hy.2 (hy.1.resolve_right id)

/-- In the beginning there is the root element alone. -/
theorem rooted_root (rank : NodeId → Nat) :
    (ofEdits [.element { tag := "html" } [], .append .document (.node 0)]).Rooted rank ∅ := by
  have hcontent : ∀ x, ((ofEdits [.element { tag := "html" } [],
      .append .document (.node 0)]).content? x).isSome → x = 0
    | 0, _ => rfl
    | 1, hx => by cases hx
    | x + 2, hx => by
      rw [content?_of_size_le] at hx
      · cases hx
      · rw [size_ofEdits]
        exact Nat.le_add_left 2 x
  exact {
    linked := (Linked.empty.apply (e := .element { tag := "html" } []) trivial).apply
      (e := .append .document (.node 0)) ⟨trivial, Nat.zero_lt_one⟩
    top := rfl
    root := rfl
    shown := fun x hx => by
      rw [hcontent x hx]
      rfl
    ranked := fun e p x hp hx => by
      obtain rfl := hcontent e (isSome_content?_of_holds hp)
      cases p with
      | document => exact hp.elim
      | children id | contents id =>
        rw [hp.1] at hx
        exact absurd hx (Array.not_mem_empty x)
    stands := fun x hx hroot => absurd (hcontent x hx) hroot
    loose := nofun }

namespace Rooted

variable {rank : NodeId → Nat} {loose : Set NodeId} {e : NodeId}

section

variable (h : d.Rooted rank loose)
include h

/-- Other ranks do as well if they are in the same order. -/
theorem rerank {rank' : NodeId → Nat}
    (hrank : ∀ e x, e < d.nodes.size → x < d.nodes.size → rank e < rank x → rank' e < rank' x) :
    d.Rooted rank' loose :=
  { h with ranked := fun e p x hp hx =>
      hrank e x (lt_size_of_holds hp) (h.linked.lt_size hx) (h.ranked e p x hp hx) }

/-- Nodes are neither made nor moved. -/
theorem keep (hkeeps : Keeps d d') (hlinked : d'.Linked) (hlist : ∀ p, d'.list p = d.list p)
    (hparent : ∀ x, d'.parent? x = d.parent? x) : d'.Rooted rank loose where
  linked := hlinked
  top := (hlist .document).trans h.top
  root := by rw [(hkeeps _).name?, h.root]
  shown x hx := by
    rw [(hkeeps _).kind?]
    exact h.shown x ((hkeeps x).isSome_content? ▸ hx)
  ranked e p x hp hx := h.ranked e p x (hkeeps.holds.1 hp) (hlist p ▸ hx)
  stands x hx hne hloose := by
    obtain ⟨e, p, hp, hmem⟩ := h.stands x ((hkeeps x).isSome_content? ▸ hx) hne hloose
    exact ⟨e, p, hkeeps.holds.2 hp, hlist p ▸ hmem⟩
  loose x hx := (hparent x).trans (h.loose x hx)

/-- A node is made, which stands nowhere yet. -/
theorem make {c : Content} (hc : c.kind?.isSome) :
    (d.make c none).Rooted rank (insert d.nodes.size loose) := by
  have hold : ∀ x, x ≠ d.nodes.size → (d.make c none).content? x = d.content? x := fun x hx => by
    rw [content?_make, if_neg hx]
  have hroot : 0 ≠ d.nodes.size := Nat.ne_of_lt (h.linked.lt_size (p := .document)
    (by rw [list, h.top]; simp))
  exact {
    linked := h.linked.make_none c
    top := h.top
    root := by rw [name?_make hroot, h.root]
    shown := fun x hx => by
      rw [kind?_make]
      split
      · exact hc
      · next hne => exact h.shown x (hold x hne ▸ hx)
    ranked := fun e p x hp hx => by
      rw [list_make] at hx
      have hwithin := h.linked.within x p (h.linked.parent? p x hx)
      have he : e ≠ d.nodes.size := by
        cases p with
        | document => exact hp.elim
        | children id | contents id => exact hp.1 ▸ Nat.ne_of_lt hwithin
      exact h.ranked e p x ((holds_make he).1 hp) hx
    stands := fun x hx hne hloose => by
      obtain ⟨hsize, hloose⟩ := not_or.1 hloose
      obtain ⟨e, p, hp, hmem⟩ := h.stands x (hold x hsize ▸ hx) hne hloose
      exact ⟨e, p, (holds_make (Nat.ne_of_lt (lt_size_of_holds hp))).2 hp, by rwa [list_make]⟩
    loose := fun x hx => by
      rw [parent?_make]
      split
      · rfl
      · next hne => exact h.loose x (hx.resolve_left hne) }

/-- A loose node is put into an element. -/
theorem put {x : NodeId} (hkeeps : Keeps d d') (hlinked : d'.Linked) (hp : d.Holds e p)
    (hrank : rank e < rank x)
    (hlist : ∀ q y, y ∈ d'.list q ↔ y ∈ d.list q ∨ q = p ∧ y = x)
    (htop : d'.top = d.top)
    (hparent : ∀ y, y ≠ x → d'.parent? y = d.parent? y) : d'.Rooted rank (loose \ {x}) where
  linked := hlinked
  top := htop.trans h.top
  root := by rw [(hkeeps _).name?, h.root]
  shown y hy := by
    rw [(hkeeps _).kind?]
    exact h.shown y ((hkeeps y).isSome_content? ▸ hy)
  ranked e' q y hq hy := by
    have hq := hkeeps.holds.1 hq
    rcases (hlist q y).1 hy with hy | ⟨rfl, rfl⟩
    · exact h.ranked e' q y hq hy
    · rwa [eq_of_holds hp hq]
  stands y hy hne hloose := by
    by_cases hyx : y = x
    · exact ⟨e, p, hkeeps.holds.2 hp, (hlist p y).2 (.inr ⟨rfl, hyx⟩)⟩
    · obtain ⟨e', q, hq, hmem⟩ := h.stands y ((hkeeps y).isSome_content? ▸ hy) hne fun hy =>
        hloose ⟨hy, hyx⟩
      exact ⟨e', q, hkeeps.holds.2 hq, (hlist q y).2 (.inl hmem)⟩
  loose y hy := (hparent y hy.2).trans (h.loose y hy.1)

omit h in
/-- A node is added to the list of a place. -/
theorem mem_list_put (hp : d.Holds e p) {x : NodeId} {k : Array NodeId → Array NodeId}
    (hk : ∀ y, y ∈ k (d.list p) ↔ y ∈ d.list p ∨ y = x) (q : Place) (y : NodeId) :
    y ∈ (d.updateList p k).list q ↔ y ∈ d.list q ∨ q = p ∧ y = x := by
  rw [list_updateList_eq]
  by_cases hq : q = p
  · subst hq
    rw [if_pos ⟨rfl, hasPlace_of_holds hp⟩, hk]
    simp
  · simp [hq]

omit h in
theorem top_put (hp : d.Holds e p) (k : Array NodeId → Array NodeId) :
    (d.updateList p k).top = d.top := by
  cases p with
  | document => exact hp.elim
  | children id | contents id => rfl

/-! ### Edits -/

theorem place {x : NodeId} (hp : d.Holds e p) (hrank : rank e < rank x)
    {k : Array NodeId → Array NodeId} (hk : ∀ y, y ∈ k (d.list p) ↔ y ∈ d.list p ∨ y = x)
    (hlinked : ((d.updateList p k).setParent x (some p)).skip.Linked) :
    ((d.updateList p k).setParent x (some p)).skip.Rooted rank (loose \ {x}) := by
  refine h.put (((Keeps.refl d).updateList p k).setParent x _).skip hlinked hp hrank
    (fun q y => ?_) (top_put hp k) fun y hy => ?_
  · rw [list_skip, list_setParent, mem_list_put hp hk]
  · rw [parent?_skip, parent?_setParent, if_neg hy, parent?_updateList]

/-- A loose node is put at the end of a place. -/
theorem append {x : NodeId} (hx : x ∈ loose) (hmovable : d.isMovable x = true)
    (hp : d.Holds e p) (hrank : rank e < rank x) :
    (d.append p (.node x)).Rooted rank (loose \ {x}) := by
  have heq : d.append p (.node x) =
      ((d.updateList p (·.push x)).setParent x (some p)).skip := by
    rw [Dom.append, hasPlace_of_holds hp, hmovable, h.loose x hx]
    rfl
  have hlinked := h.linked.append (within_of_holds hp) (.node x)
  rw [heq] at hlinked ⊢
  exact h.place hp hrank (fun y => Array.mem_push) hlinked

theorem position? {x : NodeId} (hx : x ∈ d.list p) :
    ∃ i ≤ (d.list p).size, d.position? x = some (p, i) := by
  cases hi : (d.list p).idxOf? x with
  | none => exact absurd hx (by simpa using hi)
  | some i =>
    obtain ⟨hlt, -⟩ := idxOf?_eq_some_iff.1 hi
    exact ⟨i, Nat.le_of_lt hlt, position?_eq_some_iff.2 ⟨h.linked.parent? p x hx, hi⟩⟩

/-- A loose node is put right before another one. -/
theorem insertBefore {x sibling : NodeId} (hx : x ∈ loose) (hmovable : d.isMovable x = true)
    (hp : d.Holds e p) (hsibling : sibling ∈ d.list p) (hrank : rank e < rank x) :
    (d.insertBefore sibling (.node x)).Rooted rank (loose \ {x}) := by
  obtain ⟨i, hi, hpos⟩ := h.position? hsibling
  have hunlink : d.unlink x = d := by
    rw [Dom.unlink, Dom.position?, h.loose x hx]
    rfl
  have heq : d.insertBefore sibling (.node x) =
      ((d.updateList p (·.insertIdxIfInBounds i x)).setParent x (some p)).skip := by
    rw [Dom.insertBefore, hpos]
    dsimp only
    rw [if_pos hmovable, hunlink]
  have hlinked := h.linked.insertBefore sibling (.node x)
  rw [heq] at hlinked ⊢
  exact h.place hp hrank (fun y => mem_insertIdxIfInBounds hi) hlinked

/-- A loose node is put right before a table. -/
theorem foster {x table : NodeId} (hx : x ∈ loose) (hmovable : d.isMovable x = true)
    (hcontent : (d.content? table).isSome) (hroot : table ≠ 0) (htable : table ∉ loose)
    (hrank : rank table ≤ rank x) (below : NodeId) :
    (d.foster table below (.node x)).Rooted rank (loose \ {x}) := by
  obtain ⟨e, p, hp, hmem⟩ := h.stands table hcontent hroot htable
  rw [Dom.foster, h.linked.parent? p table hmem]
  exact h.insertBefore hx hmovable hp hmem (Nat.lt_of_lt_of_le (h.ranked e p table hp hmem) hrank)

/-- A node is taken out of its place. -/
theorem unlink {x : NodeId} (hroot : x ≠ 0) (hcontent : (d.content? x).isSome) :
    (d.unlink x).Rooted rank (insert x loose) := by
  have hkeeps := (Keeps.refl d).unlink x
  have hparent : (d.unlink x).parent? x = none := by
    by_cases hx : x ∈ loose
    · rw [Dom.unlink, Dom.position?, h.loose x hx]
      exact h.loose x hx
    · obtain ⟨e, p, -, hmem⟩ := h.stands x hcontent hroot hx
      obtain ⟨i, -, hpos⟩ := h.position? hmem
      rw [Dom.unlink, hpos]
      dsimp only
      rw [parent?_setParent, if_pos rfl, Option.bind_fun_none]
  exact {
    linked := (h.linked.unlink x).1
    top := by
      have htop := h.linked.list_unlink x .document
      rw [list, list, h.top, List.erase_of_not_mem (by simpa using hroot)] at htop
      exact Array.toList_inj.1 htop
    root := by rw [(hkeeps _).name?, h.root]
    shown := fun y hy => by
      rw [(hkeeps _).kind?]
      exact h.shown y ((hkeeps y).isSome_content? ▸ hy)
    ranked := fun e p y hp hy =>
      h.ranked e p y (hkeeps.holds.1 hp) (h.linked.mem_list_unlink.1 hy).2
    stands := fun y hy hne hloose => by
      obtain ⟨hyx, hloose⟩ := not_or.1 hloose
      obtain ⟨e, p, hp, hmem⟩ := h.stands y ((hkeeps y).isSome_content? ▸ hy) hne hloose
      exact ⟨e, p, hkeeps.holds.2 hp, h.linked.mem_list_unlink.2 ⟨hyx, hmem⟩⟩
    loose := fun y hy => by
      by_cases hyx : y = x
      · rw [hyx, hparent]
      · rw [parent?_unlink hyx]
        exact h.loose y (hy.resolve_left hyx) }

/-- All children of an element are given to another one. -/
theorem moveChildren {source target : NodeId} (htarget : d.Holds target (.children target))
    (hrank : ∀ x ∈ d.list (.children source), rank target < rank x) :
    (d.moveChildren (.children source) (.children target)).Rooted rank loose := by
  have hkeeps := Keeps.moveChildren d (.children source) (.children target)
  have hlist : ∀ q y, y ∈ (d.moveChildren (.children source) (.children target)).list q ↔
      q ≠ .children source ∧ y ∈ d.list q ∨
        q = .children target ∧ y ∈ d.list (.children source) := by
    intro q y
    have hplace : (d.updateList (.children source) fun _ => #[]).hasPlace (.children target) =
        true := (isSome_slot?_updateList ..).trans (hasPlace_of_holds htarget)
    unfold Dom.moveChildren
    rw [← Array.foldl_toList, Linked.list_foldl_setParent, list_updateList_eq]
    by_cases hq : q = .children target
    · rw [if_pos ⟨hq, hplace⟩, Array.mem_append, Linked.mem_list_clear, hq]
      simp
    · rw [if_neg fun hand => hq hand.1, Linked.mem_list_clear]
      simp [hq]
  exact {
    linked := h.linked.moveChildren (within_of_holds htarget)
    top := by
      rcases Linked.list_moveChildren d (.children source) (.children target) .document with
        htop | ⟨hq, -⟩
      · exact htop.trans h.top
      · cases hq
    root := by rw [(hkeeps _).name?, h.root]
    shown := fun y hy => by
      rw [(hkeeps _).kind?]
      exact h.shown y ((hkeeps y).isSome_content? ▸ hy)
    ranked := fun e p y hp hy => by
      have hp := hkeeps.holds.1 hp
      rcases (hlist p y).1 hy with ⟨-, hmem⟩ | ⟨rfl, hmem⟩
      · exact h.ranked e p y hp hmem
      · rw [eq_of_holds htarget hp]
        exact hrank y hmem
    stands := fun y hy hroot hloose => by
      obtain ⟨e, p, hp, hmem⟩ := h.stands y ((hkeeps y).isSome_content? ▸ hy) hroot hloose
      by_cases heq : p = .children source
      · exact ⟨target, .children target, hkeeps.holds.2 htarget,
          (hlist _ y).2 (.inr ⟨rfl, heq ▸ hmem⟩)⟩
      · exact ⟨e, p, hkeeps.holds.2 hp, (hlist p y).2 (.inl ⟨heq, hmem⟩)⟩
    loose := fun y hy => by
      rw [h.linked.parent?_moveChildren, if_neg (h.linked.notMem (h.loose y hy) _)]
      exact h.loose y hy }

theorem skip : d.skip.Rooted rank loose :=
  h.keep (Keeps.refl d).skip h.linked.skip (list_skip d) (parent?_skip d)

theorem detach {x : NodeId} (hroot : x ≠ 0) (hmovable : d.isMovable x = true) :
    (d.apply (.detach x)).Rooted rank (insert x loose) := by
  rw [apply, if_pos hmovable]
  exact (h.unlink hroot (isSome_content?_of_isMovable hmovable)).skip

end

/-- A new element is put around a node, in whose place nothing is left. Then the element is
loose. -/
theorem wrap (h : d.Rooted rank loose) {x : NodeId} (hloose : loose ⊆ {x}) (hroot : x ≠ 0)
    (hmovable : d.isMovable x = true) (hrank : rank d.nodes.size < rank x) (name : Name)
    (attrs : List Attribute) :
    (((d.apply (.element name attrs)).apply (.detach x)).apply
      (.append (.children d.nodes.size) (.node x))).Rooted rank {d.nodes.size} := by
  have hx := lt_size_of_content? (isSome_content?_of_isMovable hmovable)
  have hmade : (d.apply (.element name attrs)).Rooted rank (insert d.nodes.size loose) :=
    h.make (c := .element name attrs) rfl
  have hmovable := isMovable_apply hmovable (.element name attrs)
  have hput := (hmade.detach hroot hmovable).append (.inl rfl) (isMovable_apply hmovable _)
    ((holds_apply_element d name attrs).apply _) hrank
  have hset : insert x (insert d.nodes.size loose) \ {x} = {d.nodes.size} := by
    ext y
    constructor
    · rintro ⟨rfl | hy | hy, hne⟩
      · exact absurd rfl hne
      · exact hy
      · exact absurd (hloose hy) hne
    · rintro rfl
      exact ⟨.inr (.inl rfl), Nat.ne_of_gt hx⟩
  rwa [hset] at hput

/-- A new element takes the place of the children of another one, which become its own. -/
theorem fill (h : d.Rooted rank ∅) (he : d.Holds e (.children e))
    (hrank : rank e < rank d.nodes.size)
    (hchildren : ∀ x ∈ d.list (.children e), rank d.nodes.size < rank x) (name : Name)
    (attrs : List Attribute) :
    (((d.apply (.element name attrs)).apply
      (.moveChildren (.children e) (.children d.nodes.size))).apply
        (.append (.children e) (.node d.nodes.size))).Rooted rank ∅ := by
  have hmade : (d.apply (.element name attrs)).Rooted rank (insert d.nodes.size ∅) :=
    h.make (c := .element name attrs) rfl
  have habove : ∀ x ∈ (d.apply (.element name attrs)).list (.children e),
      rank d.nodes.size < rank x := fun x hx => by
    rw [apply, list_make] at hx
    exact hchildren x hx
  have hmoved := (hmade.moveChildren (holds_apply_element d name attrs) habove).skip
  have hmovable : (d.apply (.element name attrs)).isMovable d.nodes.size = true := by
    simp [apply, isMovable, content?_make]
  have hput := hmoved.append (.inl rfl) (x := d.nodes.size) (p := .children e) (e := e)
    (isMovable_apply hmovable (.moveChildren (.children e) (.children d.nodes.size)))
    ((he.apply _).apply (.moveChildren (.children e) (.children d.nodes.size))) hrank
  rwa [insert_empty_sdiff] at hput

/-! ### Characters -/

theorem writes_extendText (hx : (d.text? x).isSome) (value : String) :
    Writes d (d.extendText x value).skip value := by
  refine ⟨x, ?_⟩
  unfold text? content? at hx ⊢
  rw [slot?_skip, Dom.extendText, slot?_update, if_pos rfl]
  cases hs : d.slot? x with
  | none => simp [hs] at hx
  | some s =>
    rw [hs] at hx
    cases hc : s.content <;> simp_all

theorem writes_make (hsize : d'.nodes.size = d.nodes.size) (value : String) (p : Option Place) :
    Writes d (d'.make (.text value) p) value := by
  have hnone : d.text? d.nodes.size = none := by
    rw [text?, content?_of_size_le (Nat.le_refl _)]
  refine ⟨d.nodes.size, ?_⟩
  rw [hnone, text?, content?_make, if_pos hsize.symm]
  simp

section

variable (h : d.Rooted rank ∅)
include h

/-- A text is made and put into an element. -/
theorem newText (hp : d.Holds e p) (hrank : rank e < rank d.nodes.size)
    {k : Array NodeId → Array NodeId}
    (hk : ∀ y, y ∈ k (d.list p) ↔ y ∈ d.list p ∨ y = d.nodes.size) (value : String)
    (hlinked : ((d.updateList p k).make (.text value) (some p)).Linked) :
    ((d.updateList p k).make (.text value) (some p)).Rooted rank ∅ := by
  have hmade := h.make (c := .text value) rfl
  have hkeeps : Keeps (d.make (.text value) none)
      ((d.updateList p k).make (.text value) (some p)) := by
    intro x
    rw [GrowsAt, content?_make, content?_make, size_updateList]
    split
    · exact .some (.same _)
    · exact (Keeps.refl d).updateList p k x
  have hput := hmade.put hkeeps hlinked
    ((holds_make (Nat.ne_of_lt (lt_size_of_holds hp))).2 hp) hrank (fun q y => ?_)
    (top_put hp k) fun y hy => ?_
  · rwa [insert_empty_sdiff] at hput
  · rw [list_make, list_make, mem_list_put hp hk]
  · rw [parent?_make, parent?_make, size_updateList, if_neg hy, if_neg hy, parent?_updateList]

theorem extendText (id : NodeId) (value : String) : (d.extendText id value).skip.Rooted rank ∅ := by
  refine h.keep (Keeps.extendText d id value).skip (h.linked.extendText id value).skip
    (fun p => ?_) fun x => ?_
  · rw [list_skip, Dom.extendText, list_update] <;> intro s <;> split <;> rfl
  · rw [parent?_skip, Dom.extendText, parent?_update]
    intro s
    split <;> rfl

/-- Characters are put at the end of a place. -/
theorem appendText (hp : d.Holds e p) (hrank : rank e < rank d.nodes.size) (value : String) :
    (d.append p (.text value)).Rooted rank ∅ ∧ Writes d (d.append p (.text value)) value := by
  have hlinked := h.linked.append (within_of_holds hp) (.text value)
  have hnew : d.appendText p value =
      (d.updateList p (·.push d.nodes.size)).make (.text value) (some p) := by
    rw [Dom.appendText, if_pos (hasPlace_of_holds hp)]
  rw [Dom.append] at hlinked ⊢
  rw [hnew] at hlinked ⊢
  split at hlinked
  · split at hlinked
    · next last _ hlast =>
      rw [if_pos hlast]
      exact ⟨h.extendText last value, writes_extendText hlast value⟩
    · next last _ hlast =>
      rw [if_neg hlast]
      exact ⟨h.newText hp hrank (fun y => Array.mem_push) value hlinked,
        writes_make (size_updateList ..) _ _⟩
  · exact ⟨h.newText hp hrank (fun y => Array.mem_push) value hlinked,
      writes_make (size_updateList ..) _ _⟩

/-- Characters are put right before a table. -/
theorem fosterText {table : NodeId} (hcontent : (d.content? table).isSome) (hroot : table ≠ 0)
    (hrank : rank table ≤ rank d.nodes.size) (below : NodeId) (value : String) :
    (d.foster table below (.text value)).Rooted rank ∅ ∧
      Writes d (d.foster table below (.text value)) value := by
  obtain ⟨e, p, hp, hmem⟩ := h.stands table hcontent hroot id
  have hrank := Nat.lt_of_lt_of_le (h.ranked e p table hp hmem) hrank
  obtain ⟨i, hi, hpos⟩ := h.position? hmem
  have hlinked := h.linked.insertBefore table (.text value)
  rw [Dom.foster, h.linked.parent? p table hmem, if_pos (Option.isSome_some)]
  rw [Dom.insertBefore, hpos] at hlinked ⊢
  dsimp only at hlinked ⊢
  split at hlinked
  · split at hlinked
    · next before _ hbefore =>
      rw [if_pos hbefore]
      exact ⟨h.extendText before value, writes_extendText hbefore value⟩
    · next before _ hbefore =>
      rw [if_neg hbefore]
      exact ⟨h.newText hp hrank (fun y => mem_insertIdxIfInBounds hi) value hlinked,
        writes_make (size_updateList ..) _ _⟩
  · exact ⟨h.newText hp hrank (fun y => mem_insertIdxIfInBounds hi) value hlinked,
      writes_make (size_updateList ..) _ _⟩

end

/-! ### In document order -/

theorem mem_below_of_holds (hp : d.Holds e p) (hx : x ∈ d.list p) : x ∈ d.below e := by
  cases p with
  | document => exact hp.elim
  | children id =>
    obtain ⟨rfl, hname⟩ := hp
    obtain ⟨name, hname⟩ := Option.isSome_iff_exists.1 hname
    obtain ⟨attrs, hc⟩ := exists_content?_of_name? hname
    rw [below, hc]
    exact List.mem_append_left _ (Array.mem_toList_iff.2 hx)
  | contents id =>
    obtain ⟨rfl, name, hname, htemplate⟩ := hp
    obtain ⟨attrs, hc⟩ := exists_content?_of_name? hname
    rw [below, hc]
    dsimp only
    rw [if_pos htemplate]
    exact List.mem_append_right _ (Array.mem_toList_iff.2 hx)

/-- **Every node but the root element is listed below it**, if none is loose. -/
theorem mem_inOrder (h : d.Rooted rank ∅) (hx : (d.content? x).isSome) (hroot : x ≠ 0) :
    x ∈ d.inOrder (.children 0) := by
  have htop : (0 : NodeId) ∈ d.top := by simp [h.top]
  have hleads : d.Leads [0] (.children 0) := ⟨[], rfl, .top htop⟩
  refine (h.linked.mem_inOrder hleads).2 ?_
  induction hn : rank x using Nat.strong_induction_on generalizing x with
  | _ n ih =>
    obtain ⟨e, p, hp, hmem⟩ := h.stands x hx hroot id
    by_cases he : e = 0
    · subst he
      obtain rfl : p = .children 0 := by
        cases p with
        | document => exact hp.elim
        | children id => rw [hp.1]
        | contents id =>
          obtain ⟨-, name, hname, htemplate⟩ := hp
          obtain rfl := Option.some.inj (h.root.symm.trans hname)
          cases htemplate
      exact ⟨x, hmem, .refl⟩
    · obtain ⟨root, hroot, hbelow⟩ :=
        ih (rank e) (hn ▸ h.ranked e p x hp hmem) (isSome_content?_of_holds hp) he rfl
      exact ⟨root, hroot, hbelow.tail (mem_below_of_holds hp hmem)⟩

end Rooted

end Dom

end HtmlWalk.Html
