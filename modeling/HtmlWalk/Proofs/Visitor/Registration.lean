import Mathlib.Data.List.Induction
import HtmlWalk.Proofs.Walk.Record

/-!
# Putting a visitor together

A visitor is the result of a sequence of *registrations*. Each kind has two *slots*, one for each
side of the walk over the children, and a registration may write some of them.

**Theorem (`ofRegistrations_registered`).** The last registration that writes a slot decides what is
in it; clearing a slot counts as writing it. With entries that are not accepted it is the other way
round: the first of them is reported, and no later registration changes that. A walk with such a
visitor fails with the report before any callback is called.

What a registration writes (`Registration.writes?`) and what is wrong with it
(`Registration.problem?`) is said without reference to the visitor. One step lemma for each of the
parts of a visitor says that a registration changes the part accordingly, and the statements about
sequences are inductions from the end.
-/

namespace HtmlWalk

variable {σ ε : Type}

/-! ## Registrations -/

/-- One step of putting a visitor together. -/
inductive Registration (σ ε : Type)
  /-- Set one callback. -/
  | on (phase : Phase) (k : Kind) (f : Callback σ ε)
  /-- Set one callback through the shorthand for a kind. -/
  | shorthand (k : Kind) (f : Callback σ ε)
  /-- Replace both callbacks for a kind. -/
  | hooks (k : Kind) (h : Hooks σ ε)
  /-- Enter something under a key. -/
  | entry (key : String) (e : Entry σ ε)
  /-- Say whether the walk goes below the root. -/
  | visitChildNodes (descends : Bool)

/-- The keys under which callbacks can be entered. -/
def knownKeys : List String :=
  ["Document", "DocumentFragment", "DocumentType", "Element", "CommentNode", "TextNode"]

namespace Registration

/-- The visitor after one more registration. -/
def apply (v : Visitor σ ε) : Registration σ ε → Visitor σ ε
  | on phase k f => v.on phase k f
  | shorthand .document f => v.document f
  | shorthand .fragment f => v.fragment f
  | shorthand .doctype f => v.doctype f
  | shorthand .element f => v.element f
  | shorthand .comment f => v.comment f
  | shorthand .text f => v.text f
  | hooks k h => v.setHooks k h
  | entry key e => v.enter key e
  | visitChildNodes descends => v.visitChildNodes descends

/-- What a registration writes into a slot, if it writes that slot at all. -/
def writes? (phase : Phase) (k : Kind) : Registration σ ε → Option (Option (Callback σ ε))
  | on p l f => if p = phase ∧ l = k then some (some f) else none
  | shorthand l f => if .enter = phase ∧ l = k then some (some f) else none
  | hooks l h => if l = k then some (h.get? phase) else none
  | entry key (.hooks h) => if key = k.visitorKey then some (h.get? phase) else none
  | entry _ (.value _) => none
  | visitChildNodes _ => none

/-- Whether the walk goes below the root, if the registration says so. -/
def descends? : Registration σ ε → Option Bool
  | visitChildNodes descends => some descends
  | _ => none

/-- What is wrong with a registration: an unknown key, whatever is entered under it, or else that it
is no callback. -/
def problem? : Registration σ ε → Option InvalidEntry
  | entry key e =>
    if key ∈ knownKeys then
      match e with
      | .hooks _ => none
      | .value type => some (.nonFunction key type)
    else some (.unknownKind key)
  | _ => none

end Registration

/-- The visitor that a sequence of registrations makes of the one without callbacks. -/
def Visitor.ofRegistrations (rs : List (Registration σ ε)) : Visitor σ ε :=
  rs.foldl Registration.apply .empty

/-! ## Entries -/

theorem mem_knownKeys_iff {key : String} : key ∈ knownKeys ↔ ∃ k : Kind, k.visitorKey = key := by
  have hkeys : knownKeys = Kind.enterOrder.map Kind.visitorKey := rfl
  rw [hkeys, List.mem_map]
  exact exists_congr fun k => and_iff_right k.mem_enterOrder

namespace Visitor

theorem enter_of_unknown (v : Visitor σ ε) {key : String} (h : key ∉ knownKeys)
    (e : Entry σ ε) : v.enter key e = { v with invalid := v.invalid ++ [.unknownKind key] } := by
  have hnone : Kind.ofVisitorKey? key = none := by
    rw [Option.eq_none_iff_forall_ne_some]
    intro k hk
    exact h (mem_knownKeys_iff.2 ⟨k, (Kind.ofVisitorKey?_eq_some_iff.1 hk).symm⟩)
  unfold enter
  rw [hnone]

theorem enter_hooks (v : Visitor σ ε) (k : Kind) (h : Hooks σ ε) :
    v.enter k.visitorKey (.hooks h) = v.setHooks k h := by
  unfold enter
  rw [Kind.ofVisitorKey?_visitorKey]

theorem enter_value (v : Visitor σ ε) (k : Kind) (type : String) :
    v.enter k.visitorKey (.value type) =
      { v with invalid := v.invalid ++ [.nonFunction k.visitorKey type] } := by
  unfold enter
  rw [Kind.ofVisitorKey?_visitorKey]

end Visitor

/-! ## One registration -/

namespace Registration

theorem apply_shorthand (v : Visitor σ ε) (k : Kind) (f : Callback σ ε) :
    (shorthand k f).apply v = v.on .enter k f := by
  cases k <;> rfl

theorem problem?_of_unknown {key : String} (h : key ∉ knownKeys) (e : Entry σ ε) :
    (entry key e).problem? = some (.unknownKind key) :=
  if_neg h

theorem problem?_of_known {key : String} (h : key ∈ knownKeys) (e : Entry σ ε) :
    (entry key e).problem? = match e with
      | .hooks _ => none
      | .value type => some (.nonFunction key type) :=
  if_pos h

theorem callback?_apply (v : Visitor σ ε) (r : Registration σ ε) (phase : Phase) (k : Kind) :
    (r.apply v).callback? phase k = (r.writes? phase k).getD (v.callback? phase k) := by
  cases r with
  | on p l f =>
    rw [apply, Visitor.callback?_on, writes?]
    grind
  | shorthand l f =>
    rw [apply_shorthand, Visitor.callback?_on, writes?]
    grind
  | hooks l h =>
    rw [apply, Visitor.callback?_setHooks, writes?]
    grind
  | entry key e =>
    rw [apply]
    by_cases hkey : key ∈ knownKeys
    · obtain ⟨l, rfl⟩ := mem_knownKeys_iff.1 hkey
      cases e with
      | hooks h =>
        simp only [Visitor.enter_hooks, Visitor.callback?_setHooks, writes?, Kind.visitorKey_inj]
        grind
      | value type =>
        rw [Visitor.enter_value]
        rfl
    · have hne : key ≠ k.visitorKey := fun h => hkey (mem_knownKeys_iff.2 ⟨k, h.symm⟩)
      rw [Visitor.enter_of_unknown v hkey]
      cases e with
      | hooks h => rw [writes?, if_neg hne]; rfl
      | value type => rfl
  | visitChildNodes descends => rfl

theorem descends_apply (v : Visitor σ ε) (r : Registration σ ε) :
    (r.apply v).descends = r.descends?.getD v.descends := by
  cases r with
  | shorthand k f => rw [apply_shorthand]; rfl
  | entry key e =>
    by_cases hkey : key ∈ knownKeys
    · obtain ⟨l, rfl⟩ := mem_knownKeys_iff.1 hkey
      cases e with
      | hooks h => rw [apply, Visitor.enter_hooks]; rfl
      | value type => rw [apply, Visitor.enter_value]; rfl
    · rw [apply, Visitor.enter_of_unknown v hkey]; rfl
  | _ => rfl

/-- A registration that is not accepted is noted behind those before it. -/
theorem invalid_apply (v : Visitor σ ε) (r : Registration σ ε) :
    (r.apply v).invalid = v.invalid ++ r.problem?.toList := by
  cases r with
  | shorthand k f => rw [apply_shorthand]; exact (List.append_nil _).symm
  | entry key e =>
    rw [apply]
    by_cases hkey : key ∈ knownKeys
    · rw [problem?_of_known hkey]
      obtain ⟨l, rfl⟩ := mem_knownKeys_iff.1 hkey
      cases e with
      | hooks h => rw [Visitor.enter_hooks]; exact (List.append_nil _).symm
      | value type => rw [Visitor.enter_value]; rfl
    · rw [problem?_of_unknown hkey, Visitor.enter_of_unknown v hkey]
      rfl
  | _ => exact (List.append_nil _).symm

end Registration

/-! ## Sequences of registrations -/

namespace Visitor

theorem isEmpty_iff {v : Visitor σ ε} :
    v.isEmpty = true ↔ ∀ phase k, v.callback? phase k = none := by
  simp only [isEmpty, List.all_eq_true, Hooks.isEmpty, Bool.and_eq_true, Option.isNone_iff_eq_none]
  constructor
  · rintro h (_ | _) k
    · exact (h k k.mem_enterOrder).1
    · exact (h k k.mem_enterOrder).2
  · exact fun h k _ => ⟨h .enter k, h .leave k⟩

theorem ofRegistrations_concat (rs : List (Registration σ ε)) (r : Registration σ ε) :
    ofRegistrations (rs ++ [r]) = r.apply (ofRegistrations rs) := by
  simp only [ofRegistrations, List.foldl_append, List.foldl_cons, List.foldl_nil]

/-- The last registration that writes a slot decides what is in it. -/
theorem callback?_ofRegistrations (rs : List (Registration σ ε)) (phase : Phase) (k : Kind) :
    (ofRegistrations rs).callback? phase k =
      (rs.reverse.findSome? (·.writes? phase k)).getD none := by
  induction rs using List.reverseRecOn with
  | nil => cases phase <;> rfl
  | append_singleton rs r ih =>
    rw [ofRegistrations_concat, Registration.callback?_apply, ih, List.reverse_concat,
      List.findSome?_cons]
    cases r.writes? phase k <;> rfl

theorem descends_ofRegistrations (rs : List (Registration σ ε)) :
    (ofRegistrations rs).descends = (rs.reverse.findSome? (·.descends?)).getD true := by
  induction rs using List.reverseRecOn with
  | nil => rfl
  | append_singleton rs r ih =>
    rw [ofRegistrations_concat, Registration.descends_apply, ih, List.reverse_concat,
      List.findSome?_cons]
    cases r.descends? <;> rfl

/-- The registrations that are not accepted are noted in order. -/
theorem invalid_ofRegistrations (rs : List (Registration σ ε)) :
    (ofRegistrations rs).invalid = rs.filterMap (·.problem?) := by
  induction rs using List.reverseRecOn with
  | nil => rfl
  | append_singleton rs r ih =>
    rw [ofRegistrations_concat, Registration.invalid_apply, ih, List.filterMap_append]
    cases h : r.problem? <;> simp [h]

theorem validate_eq_error_iff {v : Visitor σ ε} {e : InvalidEntry} :
    v.validate = .error e ↔ v.invalid.head? = some e := by
  unfold validate
  cases v.invalid <;> simp

theorem validate_eq_ok_iff {v : Visitor σ ε} : v.validate = .ok () ↔ v.invalid = [] := by
  unfold validate
  cases v.invalid <;> simp

/-- The first registration that is not accepted is reported. -/
theorem validate_ofRegistrations_eq_error_iff {rs : List (Registration σ ε)} {e : InvalidEntry} :
    (ofRegistrations rs).validate = .error e ↔ rs.findSome? (·.problem?) = some e := by
  rw [validate_eq_error_iff, invalid_ofRegistrations, List.head?_filterMap]

end Visitor

/-- What a sequence of registrations comes to. -/
structure Registered (rs : List (Registration σ ε)) (v : Visitor σ ε) : Prop where
  /-- A slot holds what the last registration that writes it has written; at first it is unset. -/
  callbacks : ∀ phase k,
    v.callback? phase k = (rs.reverse.findSome? (·.writes? phase k)).getD none
  /-- The visitor is empty exactly if all slots are unset. -/
  empty : v.isEmpty = true ↔ ∀ phase k, v.callback? phase k = none
  /-- The walk goes below the root if the last registration about it says so, or if none does. -/
  descends : v.descends = (rs.reverse.findSome? (·.descends?)).getD true
  /-- The visitor is valid exactly if nothing is wrong with any registration. -/
  valid : v.validate = .ok () ↔ ∀ r ∈ rs, r.problem? = none
  /-- Otherwise it is reported what is wrong with the first one. -/
  report : ∀ e, v.validate = .error e ↔ ∃ before r after,
    rs = before ++ r :: after ∧ r.problem? = some e ∧ ∀ b ∈ before, b.problem? = none
  /-- Later registrations do not change the report. -/
  later : ∀ e more, v.validate = .error e →
    (Visitor.ofRegistrations (rs ++ more)).validate = .error e
  /-- A walk fails with the report, and no callback is called. -/
  fails : ∀ e depth n s, v.validate = .error e →
    v.traverse depth n s = (.error (.invalid e), s) ∧ v.MakesCalls depth n s []

/-- **Registrations.** The last registration that writes a slot decides about it; the first one that
is not accepted is reported. -/
theorem ofRegistrations_registered (rs : List (Registration σ ε)) :
    Registered rs (Visitor.ofRegistrations rs) where
  callbacks := Visitor.callback?_ofRegistrations rs
  empty := Visitor.isEmpty_iff
  descends := Visitor.descends_ofRegistrations rs
  valid := by
    rw [Visitor.validate_eq_ok_iff, Visitor.invalid_ofRegistrations, List.filterMap_eq_nil_iff]
  report e := by
    rw [Visitor.validate_ofRegistrations_eq_error_iff]
    constructor
    · intro h
      obtain ⟨before, r, after, rfl, hr, hbefore⟩ := List.findSome?_eq_some_iff.1 h
      exact ⟨before, r, after, rfl, hr, hbefore⟩
    · rintro ⟨before, r, after, rfl, hr, hbefore⟩
      exact List.findSome?_eq_some_iff.2 ⟨before, r, after, rfl, hr, hbefore⟩
  later e more he := by
    rw [Visitor.validate_ofRegistrations_eq_error_iff] at he ⊢
    rw [List.findSome?_append, he]
    rfl
  fails e depth n s he := by
    constructor
    · rw [Visitor.traverse_of_invalid he]
      rfl
    · have hcalls := makesCalls_record (Visitor.ofRegistrations rs) depth n s
      rwa [Visitor.record_of_invalid he] at hcalls

/-- Of two entries that are not accepted the first is reported, also after one that is accepted. -/
example : (Visitor.ofRegistrations ([.entry "TextNode" (.value "&str"), .entry "Nope" (.hooks {}),
    .entry "TextNode" (.hooks {})] : List (Registration Unit String))).validate =
      .error (.nonFunction "TextNode" "&str") := rfl

end HtmlWalk
