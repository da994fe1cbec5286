import HtmlWalk.Options.Json
import HtmlWalk.Proofs.Json.Skipping

/-!
# Options from objects

**Theorem (`ParseOptions.ofJson_object`).** Options are read off any written object by the names of
its members. Reading succeeds exactly if no option is given twice and only truth values are given
for options; then each option has the value that is given for it, or its default. Two objects that
give the same values for each option give the same options, whatever else is in them and in whatever
order and spelling.

Reading a written object is a fold over its members (`toOption_ofJson`), because each member is
read as far as the blanks after its value (`readMember_source`). The rest is about that fold.
-/

namespace HtmlWalk

open Json

namespace Json

/-- A member of an object with the text that its name spells. -/
structure Member where
  entry : Entry Value
  name : String
  spelled : Spells entry.name name

/-- The truth value of a member, if it has one. -/
def Member.truth (m : Member) : Option Bool := m.entry.value.value.bool?

/-- The truth values of the members of a name, in their order; `none` for another value. -/
def given (members : List Member) (name : String) : List (Option Bool) :=
  (members.filter (·.name == name)).map Member.truth

/-- The truth value that is given for a name, or the default if none is given. -/
def valueOf (members : List Member) (name : String) (default : Bool) : Bool :=
  (given members name).head?.join.getD default

/-- A text that is an object, with the names of its members. -/
structure ObjectText where
  before : Blanks := {}
  inner : Blanks := {}
  members : List Member
  after : Blanks := {}

namespace ObjectText

/-- The object. -/
def object (d : ObjectText) : Value :=
  match d.members with
  | [] => .emptyObject d.inner
  | first :: rest => .object first.entry (rest.map Member.entry)

/-- The text. -/
def text (d : ObjectText) : String :=
  String.ofList (d.before.chars ++ d.object.source ++ d.after.chars)

end ObjectText

end Json

/-! ## The options by their names -/

theorem OptionName.ofKey?_eq_some_iff {key : String} {name : OptionName} :
    ofKey? key = some name ↔ name.key = key := by
  constructor
  · intro h
    exact eq_of_beq (List.find?_some (p := fun name : OptionName => name.key == key) h)
  · rintro rfl
    cases name <;> decide

theorem OptionName.key_inj {a b : OptionName} : a.key = b.key ↔ a = b := by
  constructor
  · intro h
    exact Option.some.inj ((ofKey?_eq_some_iff.2 rfl).symm.trans (ofKey?_eq_some_iff.2 h.symm))
  · rintro rfl
    rfl

theorem OptionName.ne_key_of_ofKey?_eq_none {key : String} (h : ofKey? key = none)
    (option : OptionName) : key ≠ option.key := by
  intro heq
  rw [ofKey?_eq_some_iff.2 heq.symm] at h
  cases h

namespace ParseOptions

/-- An option by its name. -/
def get (o : ParseOptions) : OptionName → Bool
  | .sourceLines => o.sourceLines
  | .scripting => o.scripting
  | .exactErrors => o.exactErrors

theorem get_set (o : ParseOptions) (name : OptionName) (value : Bool) (name' : OptionName) :
    (o.set name value).get name' = if name' = name then value else o.get name' := by
  cases name <;> cases name' <;> rfl

/-- What has been given after another member, if it is accepted. -/
def Given.take (g : Given) (m : Member) : Option Given :=
  match OptionName.ofKey? m.name with
  | none => some g
  | some name =>
    if g.names.contains name then none
    else m.truth.map fun value => ⟨g.options.set name value, name :: g.names⟩

theorem ext_get {o o' : ParseOptions} (h : ∀ option, o.get option = o'.get option) : o = o' := by
  obtain ⟨a, b, c⟩ := o
  obtain ⟨a', b', c'⟩ := o'
  have h₁ : a = a' := h .sourceLines
  have h₂ : b = b' := h .scripting
  have h₃ : c = c' := h .exactErrors
  rw [h₁, h₂, h₃]

/-! ## Reading the members -/

theorem toOption_bind {α β : Type} (x : Except Stop α) (f : α → Except Stop β) :
    (x >>= f).toOption = x.toOption.bind fun a => (f a).toOption := by
  cases x <;> rfl

theorem toOption_ok {α : Type} (a : α) : (Except.ok a : Except Stop α).toOption = some a := rfl

theorem toOption_map {α β : Type} (f : α → β) (x : Except Stop α) :
    (x.map f).toOption = x.toOption.map f := by
  cases x <;> rfl

/-- A member is read as far as the blanks after its value. -/
theorem readMember_source (g : Given) (m : Member) {rest : List Char} (h : Ends rest) :
    (readMember g (m.entry.name.flatMap Piece.source ++ '"' :: (m.entry.between.chars ++
        ':' :: (Value.spacedSource m.entry.value ++ rest)))).toOption =
      (g.take m).map (·, m.entry.value.after.chars ++ rest) := by
  obtain ⟨⟨before, pieces, between, ⟨b, v, a⟩⟩, name, hname⟩ := m
  have hcolon : skipChar ':' (skipBlanks (between.chars ++
      ':' :: (b.chars ++ (v.source ++ (a.chars ++ rest))))) =
        .ok (b.chars ++ (v.source ++ (a.chars ++ rest))) := by
    rw [skipBlanks_blanks, skipBlanks_cons (by decide), skipChar, if_pos rfl]
  simp only [Value.spacedSource, List.append_assoc]
  rw [readMember, hname.readString, toOption_bind]
  simp only [toOption_ok, Option.bind_some, Given.take, Member.truth]
  cases OptionName.ofKey? name with
  | none =>
    simp only [hcolon, toOption_bind, toOption_ok, Option.bind_some,
      Value.skipValue_source b v (h.blanks a)]
    rfl
  | some option =>
    by_cases hgiven : g.names.contains option
    · simp only [hgiven, if_true]
      rfl
    · simp only [hgiven, Bool.false_eq_true, if_false, hcolon, toOption_bind, toOption_ok,
        Option.bind_some, Value.readBool_source]
      cases v.bool? <;> rfl

theorem skipChar_entrySource (e : Entry Value) (rest : List Char) :
    skipChar '"' (skipBlanks (Value.entrySource e ++ rest)) =
      .ok (e.name.flatMap Piece.source ++ '"' :: (e.between.chars ++
        ':' :: (Value.spacedSource e.value ++ rest))) := by
  obtain ⟨before, pieces, between, v⟩ := e
  simp only [Value.entrySource, stringSource, List.append_assoc, List.cons_append,
    List.nil_append, skipBlanks_blanks, skipBlanks_cons (c := '"') (by decide), skipChar, if_true]

theorem readMembers_comma (n : Nat) (g : Given) (cs : List Char) :
    readMembers (n + 1) g (',' :: cs) =
      skipChar '"' (skipBlanks cs) >>= readMember g >>= fun (g, rest) => readMembers n g rest := by
  simp only [readMembers, skipBlanks_cons (c := ',') (by decide)]
  cases skipChar '"' (skipBlanks cs) with
  | error stop => rfl
  | ok rest =>
    simp only [bind, Except.bind]
    cases readMember g rest <;> rfl

theorem readMembers_blanks (n : Nat) (g : Given) (b : Blanks) (cs : List Char) :
    readMembers n g (b.chars ++ cs) = readMembers n g cs := by
  cases n <;> simp only [readMembers, skipBlanks_blanks]

/-- The members after another one are read one by one. -/
theorem readMembers_source (members : List Member) {n : Nat} (hn : members.length < n) (g : Given)
    (rest : List Char) :
    (readMembers n g (Value.entriesSource (members.map Member.entry) ++ '\x7d' :: rest)).toOption =
      (members.foldlM Given.take g).map (·, rest) := by
  induction members generalizing n g with
  | nil =>
    obtain ⟨n, rfl⟩ := Nat.exists_eq_succ_of_ne_zero (Nat.ne_zero_of_lt hn)
    simp only [List.map_nil, Value.entriesSource, List.nil_append, readMembers,
      skipBlanks_cons (c := '\x7d') (by decide)]
    rfl
  | cons m members ih =>
    obtain ⟨n, rfl⟩ := Nat.exists_eq_succ_of_ne_zero (Nat.ne_zero_of_lt hn)
    have hends := Value.ends_entriesSource (members.map Member.entry) rest
    rw [List.map_cons, Value.entriesSource_cons_append, Nat.succ_eq_add_one, readMembers_comma,
      skipChar_entrySource, toOption_bind]
    simp only [bind, Except.bind, readMember_source g m hends]
    rw [List.foldlM_cons]
    cases g.take m with
    | none => rfl
    | some g' =>
      simp only [Option.map_some, Option.bind_some, readMembers_blanks]
      exact ih (Nat.lt_of_succ_lt_succ hn) g'

theorem length_le_entriesSource (members : List (Entry Value)) :
    members.length ≤ (Value.entriesSource members).length := by
  induction members with
  | nil => exact Nat.zero_le _
  | cons member members ih =>
    rw [Value.entriesSource, List.length_append, List.length_cons, List.length_cons]
    omega

theorem readObject_quote (e : Entry Value) (cs : List Char) :
    readObject (Value.entrySource e ++ cs) =
      skipChar '"' (skipBlanks (Value.entrySource e ++ cs)) >>= readMember {} >>=
        fun (g, rest) => readMembers (rest.length + 1) g rest := by
  obtain ⟨before, pieces, between, v⟩ := e
  simp only [readObject, Value.entrySource, stringSource, List.append_assoc, List.cons_append,
    List.nil_append, skipBlanks_blanks, skipBlanks_cons (c := '"') (by decide), skipChar, if_true]
  rfl

theorem readObject_source (d : ObjectText) (rest : List Char) :
    ∃ body, d.object.source ++ rest = '\x7b' :: body ∧
      (readObject body).toOption = (d.members.foldlM Given.take {}).map (·, rest) := by
  obtain ⟨before, inner, _ | ⟨m, members⟩, after⟩ := d
  · refine ⟨inner.chars ++ '\x7d' :: rest, by simp [ObjectText.object, Value.source], ?_⟩
    simp only [readObject, skipBlanks_blanks, skipBlanks_cons (c := '\x7d') (by decide)]
    rfl
  · refine ⟨_, Value.object_source_append _ _ rest, ?_⟩
    have hends := Value.ends_entriesSource (members.map Member.entry) rest
    rw [readObject_quote, skipChar_entrySource, toOption_bind, toOption_bind, toOption_ok,
      Option.bind_some, readMember_source {} m hends]
    show _ = ((m :: members).foldlM Given.take {}).map (·, rest)
    rw [List.foldlM_cons]
    cases Given.take {} m with
    | none => rfl
    | some g =>
      simp only [Option.map_some, Option.bind_some, readMembers_blanks]
      refine readMembers_source members ?_ g rest
      have := length_le_entriesSource (members.map Member.entry)
      rw [List.length_map] at this
      simp only [List.length_append]
      omega

/-- Options are read off an object member by member. -/
theorem toOption_ofJson (d : ObjectText) :
    (ofJson d.text).toOption = (d.members.foldlM Given.take {}).map (·.options) := by
  obtain ⟨body, hbody, hread⟩ := readObject_source d d.after.chars
  have htext : skipBlanks d.text.toList = '\x7b' :: body := by
    rw [ObjectText.text, String.toList_ofList, List.append_assoc, skipBlanks_blanks, hbody,
      skipBlanks_cons (by decide)]
  have hafter : skipBlanks d.after.chars = [] := by
    have h := skipBlanks_blanks d.after []
    rwa [List.append_nil] at h
  rw [ofJson, htext]
  simp only [toOption_bind, toOption_map, hread, Option.map_map, Option.bind_map,
    Function.comp_def, hafter]
  cases d.members.foldlM Given.take {} <;> rfl

/-! ## What the members give -/

variable {members : List Member} {g g' : Given}

theorem given_cons (m : Member) (members : List Member) (name : String) :
    given (m :: members) name =
      if m.name = name then m.truth :: given members name else given members name := by
  by_cases h : m.name = name <;> simp [given, h]

/-- Members are accepted if they give no option twice, or again, and nothing but truth values for
options. -/
def Given.Accepts (g : Given) (members : List Member) : Prop :=
  ∀ option : OptionName,
    (given members option.key).length ≤ (if option ∈ g.names then 0 else 1) ∧
      none ∉ given members option.key

theorem Given.take_of_unknown {m : Member} (h : OptionName.ofKey? m.name = none) (g : Given) :
    g.take m = some g := by
  rw [take, h]

/-- A fold over members comes to an end if they are accepted, and only then. -/
theorem isSome_foldlM_take (members : List Member) (g : Given) :
    (members.foldlM Given.take g).isSome ↔ g.Accepts members := by
  induction members generalizing g with
  | nil => simp [Given.Accepts, given]
  | cons m members ih =>
    rw [List.foldlM_cons]
    cases hkey : OptionName.ofKey? m.name with
    | none =>
      have hne := OptionName.ne_key_of_ofKey?_eq_none hkey
      simp only [g.take_of_unknown hkey, Option.bind_eq_bind, Option.bind_some, ih,
        Given.Accepts, given_cons, hne, if_false]
    | some option =>
      have hname := OptionName.ofKey?_eq_some_iff.1 hkey
      have hgiven (o : OptionName) : given (m :: members) o.key =
          if o = option then m.truth :: given members o.key else given members o.key := by
        simp only [given_cons, ← hname, OptionName.key_inj, eq_comm]
      rw [Given.take, hkey]
      by_cases hmem : option ∈ g.names
      · have hnot : ¬ g.Accepts (m :: members) := fun h => by
          have := (h option).1
          simp [hgiven, hmem] at this
        simpa [hmem] using hnot
      · cases htruth : m.truth with
        | none =>
          have hnot : ¬ g.Accepts (m :: members) := fun h => by
            have := (h option).2
            simp [hgiven, htruth] at this
          simpa [hmem] using hnot
        | some b =>
          simp only [List.contains_iff_mem, hmem, if_false, Option.map_some, Option.bind_eq_bind,
            Option.bind_some, ih]
          refine forall_congr' fun o => ?_
          by_cases ho : o = option
          · subst ho
            simp [hgiven, htruth, hmem]
          · simp [hgiven, ho]

/-- What has been read in the end is what the members give, over what there was before. -/
theorem get_foldlM_take (h : members.foldlM Given.take g = some g') (option : OptionName) :
    g'.options.get option = valueOf members option.key (g.options.get option) := by
  induction members generalizing g with
  | nil =>
    obtain rfl : g = g' := Option.some.inj h
    rfl
  | cons m members ih =>
    have haccepts : g.Accepts (m :: members) := (isSome_foldlM_take _ g).1 (h ▸ rfl)
    rw [List.foldlM_cons, Option.bind_eq_bind, Option.bind_eq_some_iff] at h
    obtain ⟨g₁, htake, h⟩ := h
    rw [ih h]
    rw [Given.take] at htake
    split at htake
    · next hkey =>
      have hne := OptionName.ne_key_of_ofKey?_eq_none hkey option
      cases htake
      rw [valueOf, valueOf, given_cons, if_neg hne]
    · next name hkey =>
      have hname := OptionName.ofKey?_eq_some_iff.1 hkey
      split at htake
      · cases htake
      · obtain ⟨b, htruth, rfl⟩ := Option.map_eq_some_iff.1 htake
        rw [get_set]
        by_cases ho : option = name
        · -- The option is given here, and then not again.
          subst ho
          have hlen := (haccepts option).1
          rw [given_cons, if_pos hname.symm] at hlen
          have hnone : given members option.key = [] := by
            refine List.length_eq_zero_iff.1 ?_
            rw [List.length_cons] at hlen
            split at hlen <;> omega
          simp [valueOf, given_cons, hname.symm, htruth, hnone]
        · have hne : m.name ≠ option.key := by
            rw [← hname]
            exact fun heq => ho (OptionName.key_inj.1 heq.symm)
          rw [if_neg ho, valueOf, valueOf, given_cons, if_neg hne]

/-! ## Reading an object -/

theorem exists_ofJson_iff (d : ObjectText) :
    (∃ o, ofJson d.text = .ok o) ↔
      ∀ option : OptionName,
        (given d.members option.key).length ≤ 1 ∧ none ∉ given d.members option.key := by
  have hok : (∃ o, ofJson d.text = .ok o) ↔ (ofJson d.text).toOption.isSome := by
    cases ofJson d.text <;> simp [Except.toOption]
  rw [hok, toOption_ofJson, Option.isSome_map, isSome_foldlM_take]
  simp [Given.Accepts]

theorem get_ofJson {d : ObjectText} {o : ParseOptions} (h : ofJson d.text = .ok o)
    (option : OptionName) :
    o.get option = valueOf d.members option.key (ParseOptions.get {} option) := by
  have hread := toOption_ofJson d
  rw [h] at hread
  obtain ⟨g, hfold, rfl⟩ := Option.map_eq_some_iff.1 hread.symm
  exact get_foldlM_take hfold option

/-- Members that give the same values for each option are read alike, in any order. -/
theorem toOption_ofJson_congr {d d' : ObjectText}
    (h : ∀ option : OptionName,
      (given d.members option.key).Perm (given d'.members option.key)) :
    (ofJson d.text).toOption = (ofJson d'.text).toOption := by
  have hiff : (∃ o, ofJson d.text = .ok o) ↔ ∃ o, ofJson d'.text = .ok o := by
    simp only [exists_ofJson_iff, (h _).length_eq, (h _).mem_iff]
  cases hd : ofJson d.text with
  | error stop =>
    cases hd' : ofJson d'.text with
    | error stop' => rfl
    | ok o' =>
      obtain ⟨o, ho⟩ := hiff.2 ⟨o', hd'⟩
      rw [hd] at ho
      cases ho
  | ok o =>
    obtain ⟨o', hd'⟩ := hiff.1 ⟨o, hd⟩
    rw [hd']
    refine congrArg some (ext_get fun option => ?_)
    have hlen := ((exists_ofJson_iff d).1 ⟨o, hd⟩ option).1
    have heq : given d.members option.key = given d'.members option.key := by
      have hperm := h option
      match hgiven : given d.members option.key, hlen with
      | [], _ => rw [hgiven] at hperm; exact hperm.nil_eq
      | [t], _ =>
        rw [hgiven] at hperm
        exact (List.perm_singleton.1 hperm.symm).symm
    rw [get_ofJson hd, get_ofJson hd', valueOf, valueOf, heq]

/-- Options are read off an object by the names of its members: each one is given once at most, and
as a truth value; what is not given has its default. Nothing else in the object matters. -/
theorem ofJson_object (d : ObjectText) :
    ((∃ o, ofJson d.text = .ok o) ↔
      ∀ key ∈ ["sourceCodeLocationInfo", "scriptingEnabled", "exactErrors"],
        (given d.members key).length ≤ 1 ∧ none ∉ given d.members key) ∧
    (∀ o, ofJson d.text = .ok o →
      o.sourceLines = valueOf d.members "sourceCodeLocationInfo" false ∧
      o.scripting = valueOf d.members "scriptingEnabled" true ∧
      o.exactErrors = valueOf d.members "exactErrors" false) ∧
    ∀ d' : ObjectText,
      (∀ key ∈ ["sourceCodeLocationInfo", "scriptingEnabled", "exactErrors"],
        (given d.members key).Perm (given d'.members key)) →
      (ofJson d.text).toOption = (ofJson d'.text).toOption := by
  have hkeys (P : String → Prop) : (∀ key ∈ ["sourceCodeLocationInfo", "scriptingEnabled",
      "exactErrors"], P key) ↔ ∀ option : OptionName, P option.key := by
    constructor
    · rintro h (_ | _ | _) <;> exact h _ (by decide)
    · intro h key hkey
      simp only [List.mem_cons, List.not_mem_nil, or_false] at hkey
      obtain rfl | rfl | rfl := hkey
      · exact h .sourceLines
      · exact h .scripting
      · exact h .exactErrors
  refine ⟨?_, fun o ho => ⟨get_ofJson ho .sourceLines, get_ofJson ho .scripting,
    get_ofJson ho .exactErrors⟩, fun d' h => ?_⟩
  · rw [hkeys, exists_ofJson_iff]
  · exact toOption_ofJson_congr ((hkeys _).1 h)

end ParseOptions

end HtmlWalk
