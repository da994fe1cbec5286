import HtmlWalk.Json.Scan
import HtmlWalk.Proofs.Json.Written

/-!
# Scanning what is written

The scanner follows the grammar: on a written string, number or value it stops right after it.
What comes next matters for numbers only, which have no end of their own (`Ends`).

Skipping a value takes so many steps (`Value.steps`), and the fuel is enough because there are fewer
steps than twice as many as characters (`Value.steps_lt`). The induction is on the written value.
The brackets that are open around it are a parameter, so the inside of a list is an instance of the
theorem and not a case of its own.
-/

namespace HtmlWalk.Json

/-! ## Characters from a list -/

theorem forall_mem_of_all (P : Char → Prop) [DecidablePred P] {cs : List Char}
    (h : cs.all (decide <| P ·)) : ∀ c ∈ cs, P c := by
  simpa using h

/-! ## Blanks -/

theorem skipBlanks_blanks (b : Blanks) (cs : List Char) :
    skipBlanks (b.chars ++ cs) = skipBlanks cs :=
  List.dropWhile_append_of_pos fun c hc =>
    forall_mem_of_all (isBlank ·) (by decide) c (b.blank c hc)

theorem skipBlanks_cons {c : Char} (h : isBlank c = false) (cs : List Char) :
    skipBlanks (c :: cs) = c :: cs :=
  List.dropWhile_cons_of_neg (by simp [h])

/-! ## Strings -/

theorem hexDigit?_char (d : HexDigit) : hexDigit? d.char = some d.value.val := by
  have h : ∀ (v : Fin 16) (b : Bool), hexDigit? (HexDigit.char ⟨v, b⟩) = some v.val := by
    decide
  exact h d.value d.capital

theorem codeUnit?_chars (a b c d : HexDigit) :
    codeUnit? a.char b.char c.char d.char = some (HexDigit.codeUnit a b c d) := by
  simp only [codeUnit?, hexDigit?_char]
  rfl

theorem skipString_plain {c : Char} (h : ' ' ≤ c ∧ c ≠ '"' ∧ c ≠ '\\') (cs : List Char) :
    skipString (c :: cs) = skipString cs := by
  rw [skipString.eq_def]
  simp [h, Char.not_lt.2 h.1]

theorem skipString_short (e : ShortEscape) (cs : List Char) :
    skipString ('\\' :: e.mark :: cs) = skipString cs := by
  rw [skipString.eq_def]
  cases e <;> rfl

theorem skipString_unit (a b c d : HexDigit) (cs : List Char) :
    skipString ('\\' :: 'u' :: a.char :: b.char :: c.char :: d.char :: cs) = skipString cs := by
  rw [skipString]
  simp [codeUnit?_chars]

theorem skipString_pieces (pieces : List Piece) (rest : List Char) :
    skipString (pieces.flatMap Piece.source ++ '"' :: rest) = .ok rest := by
  induction pieces with
  | nil => rw [List.flatMap_nil, List.nil_append, skipString]
  | cons piece pieces ih =>
    rw [List.flatMap_cons, List.append_assoc]
    cases piece with
    | plain c h => exact (skipString_plain h _).trans ih
    | short e => exact (skipString_short e _).trans ih
    | unit a b c d => exact (skipString_unit a b c d _).trans ih

theorem readString_plain (read : List Char) {c : Char} (h : ' ' ≤ c ∧ c ≠ '"' ∧ c ≠ '\\')
    (cs : List Char) : readString read (c :: cs) = readString (c :: read) cs := by
  rw [readString.eq_def]
  simp [h, Char.not_lt.2 h.1]

theorem readString_short (read : List Char) (e : ShortEscape) (cs : List Char) :
    readString read ('\\' :: e.mark :: cs) = readString (e.meant :: read) cs := by
  rw [readString.eq_def]
  cases e <;> rfl

theorem readString_unit (read : List Char) (a b c d : HexDigit) (cs : List Char)
    (h : (HexDigit.codeUnit a b c d).isValidChar) :
    readString read ('\\' :: 'u' :: a.char :: b.char :: c.char :: d.char :: cs) =
      readString (Char.ofNat (HexDigit.codeUnit a b c d) :: read) cs := by
  have hlow : isLowUnit (HexDigit.codeUnit a b c d) = false := by
    simp only [Nat.isValidChar] at h
    simp [isLowUnit]
    omega
  have hhigh : isHighUnit (HexDigit.codeUnit a b c d) = false := by
    simp only [Nat.isValidChar] at h
    simp [isHighUnit]
    omega
  rw [readString]
  simp [codeUnit?_chars, hlow, hhigh]

theorem readString_pair (read : List Char) (a b c d e f g h : HexDigit) (cs : List Char)
    (hhigh : isHighUnit (HexDigit.codeUnit a b c d))
    (hlow : isLowUnit (HexDigit.codeUnit e f g h)) :
    readString read ('\\' :: 'u' :: a.char :: b.char :: c.char :: d.char ::
        '\\' :: 'u' :: e.char :: f.char :: g.char :: h.char :: cs) =
      readString (joinUnits (HexDigit.codeUnit a b c d) (HexDigit.codeUnit e f g h) :: read)
        cs := by
  have hnot : isLowUnit (HexDigit.codeUnit a b c d) = false := by
    simp only [isHighUnit, Bool.and_eq_true, decide_eq_true_eq] at hhigh
    simp [isLowUnit]
    omega
  rw [readString]
  simp [codeUnit?_chars, hhigh, hnot, hlow]

theorem codeUnits_of_lt {c : Char} (h : c.toNat < 0x10000) : codeUnits c = [c.toNat] :=
  if_pos h

theorem codeUnits_of_le {c : Char} (h : 0x10000 ≤ c.toNat) :
    codeUnits c = [0xd800 + (c.toNat - 0x10000) / 0x400, 0xdc00 + (c.toNat - 0x10000) % 0x400] :=
  if_neg (Nat.not_lt.2 h)

theorem toNat_valid (c : Char) : c.toNat < 0xd800 ∨ 0xdfff < c.toNat ∧ c.toNat < 0x110000 :=
  c.valid

theorem codeUnits_append_inj {c d : Char} {us vs : List Nat}
    (h : codeUnits c ++ us = codeUnits d ++ vs) : c = d ∧ us = vs := by
  have hc := toNat_valid c
  have hd := toNat_valid d
  have key : c.toNat = d.toNat ∧ us = vs := by
    rcases Nat.lt_or_ge c.toNat 0x10000 with hc' | hc' <;>
    rcases Nat.lt_or_ge d.toNat 0x10000 with hd' | hd' <;>
    simp only [codeUnits_of_lt, codeUnits_of_le, hc', hd', List.cons_append, List.nil_append,
      List.cons.injEq] at h <;>
    refine ⟨?_, ?_⟩ <;> first | exact h.2.2 | exact h.2 | omega
  exact ⟨Char.toNat_inj.1 key.1, key.2⟩

theorem codeUnits_ne_nil (c : Char) : codeUnits c ≠ [] := by
  rw [codeUnits]
  split <;> exact List.cons_ne_nil _ _

theorem joinUnits_codeUnits {c : Char} (h : 0x10000 ≤ c.toNat) :
    joinUnits (0xd800 + (c.toNat - 0x10000) / 0x400) (0xdc00 + (c.toNat - 0x10000) % 0x400) =
      c := by
  have hvalue : (0xd800 + (c.toNat - 0x10000) / 0x400 - 0xd800) * 0x400 +
      (0xdc00 + (c.toNat - 0x10000) % 0x400 - 0xdc00) + 0x10000 = c.toNat := by omega
  rw [joinUnits, hvalue, Char.ofNat_toNat]

theorem isHighUnit_high {c : Char} (h : 0x10000 ≤ c.toNat) :
    isHighUnit (0xd800 + (c.toNat - 0x10000) / 0x400) := by
  have hc := toNat_valid c
  simp only [isHighUnit, Bool.and_eq_true, decide_eq_true_eq]
  omega

theorem isLowUnit_low (c : Char) : isLowUnit (0xdc00 + (c.toNat - 0x10000) % 0x400) := by
  simp only [isLowUnit, Bool.and_eq_true, decide_eq_true_eq]
  omega

theorem codeUnits_append_ne {c : Char} {low : Nat} (hlow : isLowUnit low) (us vs : List Nat) :
    codeUnits c ++ us ≠ low :: vs := by
  intro h
  have hc := toNat_valid c
  simp only [isLowUnit, Bool.and_eq_true, decide_eq_true_eq] at hlow
  rcases Nat.lt_or_ge c.toNat 0x10000 with hc' | hc' <;>
  simp only [codeUnits_of_lt, codeUnits_of_le, hc', List.cons_append, List.cons.injEq] at h <;>
  omega

namespace Piece

theorem units_ne_nil (piece : Piece) : piece.units ≠ [] := by
  cases piece with
  | plain c => exact codeUnits_ne_nil c
  | short e => exact codeUnits_ne_nil e.meant
  | unit a b c d => exact List.cons_ne_nil _ _

/-- A code unit that is the second half of a character comes from an escape of its own. -/
theorem eq_unit_of_isLowUnit {pieces : List Piece} {low : Nat} {us : List Nat}
    (h : pieces.flatMap units = low :: us) (hlow : isLowUnit low) :
    ∃ a b c d pieces', pieces = unit a b c d :: pieces' ∧ HexDigit.codeUnit a b c d = low ∧
      pieces'.flatMap units = us := by
  obtain _ | ⟨piece, pieces⟩ := pieces
  · cases h
  rw [List.flatMap_cons] at h
  cases piece with
  | plain c => exact absurd h (codeUnits_append_ne hlow _ _)
  | short e => exact absurd h (codeUnits_append_ne hlow _ _)
  | unit a b c d =>
    obtain ⟨rfl, rfl⟩ := List.cons.inj h
    exact ⟨a, b, c, d, pieces, rfl, rfl, rfl⟩

/-- The parts that spell a character are read as that character. -/
theorem readString_codeUnits {pieces : List Piece} {c : Char} {us : List Nat}
    (h : pieces.flatMap units = codeUnits c ++ us) :
    ∃ pieces' : List Piece, pieces'.flatMap units = us ∧ ∀ read rest,
      readString read (pieces.flatMap source ++ rest) =
        readString (c :: read) (pieces'.flatMap source ++ rest) := by
  obtain _ | ⟨piece, pieces⟩ := pieces
  · exact absurd (List.append_eq_nil_iff.1 h.symm).1 (codeUnits_ne_nil c)
  rw [List.flatMap_cons] at h
  simp only [List.flatMap_cons, List.append_assoc]
  cases piece with
  | plain d hd =>
    obtain ⟨rfl, hus⟩ : d = c ∧ pieces.flatMap units = us := codeUnits_append_inj h
    exact ⟨pieces, hus, fun read rest => readString_plain read hd _⟩
  | short e =>
    obtain ⟨rfl, hus⟩ : e.meant = c ∧ pieces.flatMap units = us := codeUnits_append_inj h
    exact ⟨pieces, hus, fun read rest => readString_short read e _⟩
  | unit x y z w =>
    rcases Nat.lt_or_ge c.toNat 0x10000 with hc | hc
    · rw [codeUnits_of_lt hc] at h
      obtain ⟨hunit, hus⟩ := List.cons.inj h
      have hvalid : (HexDigit.codeUnit x y z w).isValidChar := hunit ▸ c.valid
      refine ⟨pieces, hus, fun read rest => (readString_unit read x y z w _ hvalid).trans ?_⟩
      rw [hunit, Char.ofNat_toNat]
      rfl
    · -- The character takes two escapes, one for each half.
      rw [codeUnits_of_le hc] at h
      obtain ⟨hhigh, hus⟩ := List.cons.inj h
      obtain ⟨a, b, e, f, pieces, rfl, hlow, hus⟩ := eq_unit_of_isLowUnit hus (isLowUnit_low c)
      refine ⟨pieces, hus, fun read rest => ?_⟩
      refine (readString_pair read x y z w a b e f _ (hhigh ▸ isHighUnit_high hc)
        (hlow ▸ isLowUnit_low c)).trans ?_
      rw [hhigh, hlow, joinUnits_codeUnits hc]
      rfl

theorem readString_spelled {pieces : List Piece} {cs : List Char}
    (h : pieces.flatMap units = cs.flatMap codeUnits) (read rest : List Char) :
    readString read (pieces.flatMap source ++ '"' :: rest) =
      .ok (String.ofList (read.reverse ++ cs), rest) := by
  induction cs generalizing pieces read with
  | nil =>
    obtain _ | ⟨piece, pieces⟩ := pieces
    · rw [List.flatMap_nil, List.nil_append, readString, List.append_nil]
    · exact absurd (List.append_eq_nil_iff.1 h).1 piece.units_ne_nil
  | cons c cs ih =>
    obtain ⟨pieces', hunits, hread⟩ := readString_codeUnits h
    rw [hread, ih hunits, List.reverse_cons, List.append_assoc, List.singleton_append]

end Piece

/-- Reading a string gives the text that it spells. -/
theorem Spells.readString {pieces : List Piece} {text : String} (h : Spells pieces text)
    (rest : List Char) :
    readString [] (pieces.flatMap Piece.source ++ '"' :: rest) = .ok (text, rest) := by
  rw [Piece.readString_spelled h, List.reverse_nil, List.nil_append, String.ofList_toList]

/-! ## Numbers -/

/-- The characters that may come after a value. -/
def enders : List Char := blankChars ++ [',', ']', '\x7d']

/-- A text goes on with something that is not part of a value. -/
def Ends (rest : List Char) : Prop := ∀ c ∈ rest.head?, c ∈ enders

theorem Ends.cons {c : Char} (h : c ∈ enders) (rest : List Char) : Ends (c :: rest) := by
  rintro _ ⟨⟩
  exact h

theorem Ends.blanks {rest : List Char} (h : Ends rest) (b : Blanks) : Ends (b.chars ++ rest) := by
  obtain ⟨_ | ⟨c, cs⟩, hb⟩ := b
  · exact h
  · exact Ends.cons (List.mem_append_left _ (hb c List.mem_cons_self)) _

namespace Digits

theorem isDigit (d : Digits) : ∀ c ∈ d.chars, c.isDigit :=
  fun c hc => forall_mem_of_all (·.isDigit) (by decide) c (d.digit c hc)

theorem first_mem (d : Digits) : d.first ∈ digitChars := d.digit _ List.mem_cons_self

theorem readDigits_chars (d : Digits) {rest : List Char}
    (h : ∀ c ∈ rest.head?, c.isDigit = false) :
    readDigits (d.chars ++ rest) = .ok (d.chars, rest) := by
  have htake : rest.takeWhile Char.isDigit = [] ∧ rest.dropWhile Char.isDigit = rest := by
    cases rest with
    | nil => exact ⟨rfl, rfl⟩
    | cons c rest => simp [h c rfl]
  simp only [readDigits, List.takeWhile_append_of_pos d.isDigit,
    List.dropWhile_append_of_pos d.isDigit, htake, List.append_nil]
  rfl

end Digits

theorem Exponent.readExponent_source (e : Exponent) {rest : List Char} (h : Ends rest) :
    ∃ r, readExponent (e.source ++ rest) = .ok (r, rest) := by
  have hrest : ∀ c ∈ rest.head?, c.isDigit = false :=
    fun c hc => forall_mem_of_all (·.isDigit = false) (by decide) c (h c hc)
  have hd := e.digits.readDigits_chars hrest
  have hmark : (if e.capital then 'E' else 'e') = 'e' ∨
      (if e.capital then 'E' else 'e') = 'E' := by
    cases e.capital <;> simp
  simp only [source, List.cons_append, readExponent.eq_def, if_pos hmark, List.append_assoc]
  cases e.sign with
  | some negative =>
    cases negative <;>
    · simp only [Option.elim, Bool.false_eq_true, if_true, if_false, List.cons_append,
        List.nil_append, hd]
      exact ⟨_, rfl⟩
  | none =>
    -- Without a sign, the digits must not be taken for one.
    have hsign := forall_mem_of_all (fun c => c ≠ '-' ∧ c ≠ '+') (by decide) _ e.digits.first_mem
    simp only [Digits.chars, Option.elim, List.nil_append, List.cons_append] at hd ⊢
    exact ⟨_, by simp [hsign, hd]; rfl⟩

namespace Number

variable {rest : List Char}

theorem readExponent_source (e : Option Exponent) (h : Ends rest) :
    ∃ r, readExponent (e.elim [] Exponent.source ++ rest) = .ok (r, rest) := by
  cases e with
  | some e => exact e.readExponent_source h
  | none =>
    cases rest with
    | nil => exact ⟨_, rfl⟩
    | cons c rest =>
      have hmark := forall_mem_of_all (fun c => ¬ (c = 'e' ∨ c = 'E')) (by decide) c (h c rfl)
      exact ⟨_, if_neg hmark⟩

theorem head_exponent (e : Option Exponent) (h : Ends rest) :
    ∀ c ∈ (e.elim [] Exponent.source ++ rest).head?, c.isDigit = false ∧ c ≠ '.' := by
  cases e with
  | some e =>
    rintro _ ⟨⟩
    cases e.capital <;> decide
  | none =>
    exact fun c hc =>
      forall_mem_of_all (fun c => c.isDigit = false ∧ c ≠ '.') (by decide) c (h c hc)

theorem readFraction_source (f : Option Digits)
    (h : ∀ c ∈ rest.head?, c.isDigit = false ∧ c ≠ '.') :
    ∃ r, readFraction (f.elim [] (fun f => '.' :: f.chars) ++ rest) = .ok (r, rest) := by
  cases f with
  | some d =>
    simp only [Option.elim, List.cons_append, readFraction,
      d.readDigits_chars fun c hc => (h c hc).1]
    exact ⟨_, rfl⟩
  | none =>
    refine ⟨none, ?_⟩
    rw [Option.elim, List.nil_append, readFraction]
    rintro rest' rfl
    exact (h '.' rfl).2 rfl

theorem head_fraction (f : Option Digits) (h : ∀ c ∈ rest.head?, c.isDigit = false ∧ c ≠ '.') :
    ∀ c ∈ (f.elim [] (fun f => '.' :: f.chars) ++ rest).head?, c.isDigit = false := by
  cases f with
  | some d =>
    rintro _ ⟨⟩
    decide
  | none => exact fun c hc => (h c hc).1

theorem readWhole_source (n : Number) (h : ∀ c ∈ rest.head?, c.isDigit = false) :
    readWhole (n.whole.chars ++ rest) = .ok (n.whole.chars, rest) := by
  rw [readWhole, n.whole.readDigits_chars h]
  split
  · next heq =>
    obtain ⟨hfirst, hothers⟩ := List.cons.inj (Prod.mk.inj (Except.ok.inj heq)).1
    rw [n.zeroAlone hfirst] at hothers
    cases hothers
  · rfl

/-- A number is skipped as far as it goes. -/
theorem skipNumber_magnitude (n : Number) (h : Ends rest) :
    skipNumber (n.magnitude ++ rest) = .ok rest := by
  obtain ⟨e, he⟩ := readExponent_source n.exponent h
  have hexponent := head_exponent n.exponent h
  obtain ⟨f, hf⟩ := readFraction_source n.fraction hexponent
  have hw := n.readWhole_source (head_fraction n.fraction hexponent)
  simp only [magnitude, List.append_assoc, skipNumber, hw, hf, he, bind, Except.bind, pure,
    Except.pure]

theorem skipScalar_source (n : Number) (h : Ends rest) :
    skipScalar (n.source ++ rest) = .ok rest := by
  have hskip := n.skipNumber_magnitude h
  rw [source, List.append_assoc]
  cases n.negative with
  | true => exact hskip
  | false =>
    have hfirst := forall_mem_of_all
      (fun c => c ≠ 'n' ∧ c ≠ 't' ∧ c ≠ 'f' ∧ c ≠ '-' ∧ c.isDigit) (by decide) _ n.whole.first_mem
    simpa [magnitude, Digits.chars, skipScalar, hfirst] using hskip

end Number

/-! ## Values -/

namespace Value

/-- The characters with which a value may start. -/
def firsts : Value → List Char
  | null => ['n']
  | bool b => [if b then 't' else 'f']
  | number _ => '-' :: digitChars
  | string _ => ['"']
  | emptyList _ | list _ _ => ['[']
  | emptyObject _ | object _ _ => ['\x7b']

theorem exists_source_eq_cons (v : Value) : ∃ c cs, v.source = c :: cs ∧ c ∈ v.firsts := by
  cases v with
  | number n =>
    rw [source, Number.source]
    cases n.negative with
    | true => exact ⟨_, _, rfl, List.mem_cons_self⟩
    | false => exact ⟨_, _, rfl, List.mem_cons_of_mem _ n.whole.first_mem⟩
  | bool b => cases b <;> exact ⟨_, _, rfl, List.mem_singleton_self _⟩
  | _ => exact ⟨_, _, rfl, List.mem_singleton_self _⟩

theorem first_proper (v : Value) : ∀ c ∈ v.firsts, isBlank c = false ∧ c ≠ ']' := by
  rcases v with _ | (_ | _) | _ <;> rw [firsts] <;>
  exact forall_mem_of_all (fun c => isBlank c = false ∧ c ≠ ']') (by decide)

end Value

theorem skipName_source (before between : Blanks) (name : List Piece) (cs : List Char) :
    skipName (before.chars ++ stringSource name ++ between.chars ++ ':' :: cs) = .ok cs := by
  simp only [skipName, stringSource, List.append_assoc, List.cons_append, List.nil_append,
    skipBlanks_blanks, skipBlanks_cons (c := '"') (by decide),
    skipBlanks_cons (c := ':') (by decide), skipChar, skipString_pieces, if_true, bind, Except.bind]

namespace Value

mutual

/-- The steps in which a value is skipped. -/
def steps : Value → Nat
  | null | bool _ | number _ | string _ | emptyList _ | emptyObject _ => 1
  | list first rest => spacedSteps first + itemsSteps rest + 1
  | object first rest => entrySteps first + entriesSteps rest + 1

/-- The steps for a value and for what follows it. -/
def spacedSteps : Spaced Value → Nat
  | ⟨_, v, _⟩ => v.steps + 1

/-- The steps for the items that follow another one. -/
def itemsSteps : List (Spaced Value) → Nat
  | [] => 0
  | item :: rest => spacedSteps item + itemsSteps rest

/-- The steps for a member. -/
def entrySteps : Entry Value → Nat
  | ⟨_, _, _, v⟩ => spacedSteps v

/-- The steps for the members that follow another one. -/
def entriesSteps : List (Entry Value) → Nat
  | [] => 0
  | member :: rest => entrySteps member + entriesSteps rest

end

theorem list_source_append (first : Spaced Value) (items : List (Spaced Value)) (rest : List Char) :
    (list first items).source ++ rest =
      '[' :: (spacedSource first ++ (itemsSource items ++ ']' :: rest)) := by
  simp [source]

theorem object_source_append (first : Entry Value) (members : List (Entry Value))
    (rest : List Char) :
    (object first members).source ++ rest =
      '\x7b' :: (entrySource first ++ (entriesSource members ++ '\x7d' :: rest)) := by
  simp [source]

theorem itemsSource_cons_append (item : Spaced Value) (items : List (Spaced Value))
    (rest : List Char) :
    itemsSource (item :: items) ++ rest =
      ',' :: (spacedSource item ++ (itemsSource items ++ rest)) := by
  simp [itemsSource]

theorem entriesSource_cons_append (member : Entry Value) (members : List (Entry Value))
    (rest : List Char) :
    entriesSource (member :: members) ++ rest =
      ',' :: (entrySource member ++ (entriesSource members ++ rest)) := by
  simp [entriesSource]

end Value

theorem skipValueIn_blanks (n : Nat) (around : List Bracket) (b : Blanks) (cs : List Char) :
    skipValueIn n around (b.chars ++ cs) = skipValueIn n around cs := by
  cases n <;> simp only [skipValueIn, skipBlanks_blanks]

theorem skipRest_blanks (n : Nat) (bracket : Bracket) (around : List Bracket) (b : Blanks)
    (cs : List Char) :
    skipRest n (bracket :: around) (b.chars ++ cs) = skipRest n (bracket :: around) cs := by
  cases n <;> cases bracket <;> simp only [skipRest, skipBlanks_blanks]

theorem skipValueIn_list (n : Nat) (around : List Bracket) (first : Spaced Value)
    (cs : List Char) :
    skipValueIn (n + 1) around ('[' :: (Value.spacedSource first ++ cs)) =
      skipValueIn n (.list :: around) (Value.spacedSource first ++ cs) := by
  obtain ⟨before, v, after⟩ := first
  obtain ⟨c, source, hsource, hc⟩ := v.exists_source_eq_cons
  obtain ⟨hblank, hclose⟩ := v.first_proper c hc
  simp only [Value.spacedSource, hsource, List.append_assoc, List.cons_append, skipValueIn_blanks]
  rw [skipValueIn]
  simp [skipBlanks_cons (c := '[') (by decide), skipBlanks_blanks, skipBlanks_cons hblank, hclose]

theorem skipValueIn_object (n : Nat) (around : List Bracket) (first : Entry Value)
    (cs : List Char) :
    skipValueIn (n + 1) around ('\x7b' :: (Value.entrySource first ++ cs)) =
      skipValueIn n (.object :: around) (Value.spacedSource first.value ++ cs) := by
  obtain ⟨before, name, between, v⟩ := first
  have hname := skipName_source {} between name (Value.spacedSource v ++ cs)
  simp only [stringSource, List.cons_append, List.nil_append, List.append_assoc] at hname
  rw [skipValueIn]
  simp [Value.entrySource, stringSource, skipBlanks_cons (c := '\x7b') (by decide),
    skipBlanks_blanks, skipBlanks_cons (c := '"') (by decide), hname]

theorem skipRest_comma_list (n : Nat) (around : List Bracket) (cs : List Char) :
    skipRest (n + 1) (.list :: around) (',' :: cs) = skipValueIn n (.list :: around) cs := by
  simp only [skipRest, skipBlanks_cons (c := ',') (by decide)]

theorem skipRest_close_list (n : Nat) (around : List Bracket) (cs : List Char) :
    skipRest (n + 1) (.list :: around) (']' :: cs) = skipRest n around cs := by
  simp only [skipRest, skipBlanks_cons (c := ']') (by decide)]

theorem skipRest_comma_object (n : Nat) (around : List Bracket) (member : Entry Value)
    (cs : List Char) :
    skipRest (n + 1) (.object :: around) (',' :: (Value.entrySource member ++ cs)) =
      skipValueIn n (.object :: around) (Value.spacedSource member.value ++ cs) := by
  obtain ⟨before, name, between, v⟩ := member
  have hname := skipName_source before between name (Value.spacedSource v ++ cs)
  simp only [List.append_assoc] at hname
  rw [skipRest, skipBlanks_cons (by decide)]
  simp only [Value.entrySource, List.append_assoc, List.cons_append, hname]

theorem skipRest_close_object (n : Nat) (around : List Bracket) (cs : List Char) :
    skipRest (n + 1) (.object :: around) ('\x7d' :: cs) = skipRest n around cs := by
  simp only [skipRest, skipBlanks_cons (c := '\x7d') (by decide)]

theorem skipValueIn_scalar (n : Nat) (around : List Bracket) {c : Char} {cs rest : List Char}
    (hc : isBlank c = false ∧ c ≠ '[' ∧ c ≠ '\x7b') (h : skipScalar (c :: cs) = .ok rest) :
    skipValueIn (n + 1) around (c :: cs) = skipRest n around rest := by
  rw [skipValueIn]
  simp [skipBlanks_cons hc.1, hc, h]

namespace Value

theorem ends_itemsSource (items : List (Spaced Value)) (rest : List Char) :
    Ends (itemsSource items ++ ']' :: rest) := by
  cases items <;> exact Ends.cons (by decide) _

theorem ends_entriesSource (members : List (Entry Value)) (rest : List Char) :
    Ends (entriesSource members ++ '\x7d' :: rest) := by
  cases members <;> exact Ends.cons (by decide) _

mutual

/-- A value is skipped as far as it goes. -/
theorem skipValueIn_source : ∀ (v : Value) (n : Nat) (around : List Bracket) {rest : List Char},
    Ends rest → skipValueIn (v.steps + n) around (v.source ++ rest) = skipRest n around rest
  | null, n, around, rest, _ => by
    rw [Nat.add_comm]
    exact skipValueIn_scalar n around (by decide) rfl
  | bool b, n, around, rest, _ => by
    rw [Nat.add_comm]
    cases b <;> exact skipValueIn_scalar n around (by decide) rfl
  | number m, n, around, rest, h => by
    have hscalar := m.skipScalar_source h
    obtain ⟨c, cs, hsource, hc⟩ := (number m).exists_source_eq_cons
    rw [source] at hsource
    rw [firsts] at hc
    rw [hsource] at hscalar
    have hfirst := forall_mem_of_all (fun c => isBlank c = false ∧ c ≠ '[' ∧ c ≠ '\x7b')
      (by decide) c hc
    rw [Nat.add_comm, source, hsource]
    exact skipValueIn_scalar n around hfirst hscalar
  | string pieces, n, around, rest, h => by
    rw [Nat.add_comm, source, stringSource, List.append_assoc]
    exact skipValueIn_scalar n around (by decide) (skipString_pieces pieces rest)
  | emptyList inner, n, around, rest, h => by
    rw [Nat.add_comm, steps, source, skipValueIn]
    simp [skipBlanks_cons (c := '[') (by decide), skipBlanks_blanks,
      skipBlanks_cons (c := ']') (by decide)]
  | emptyObject inner, n, around, rest, h => by
    rw [Nat.add_comm, steps, source, skipValueIn]
    simp [skipBlanks_cons (c := '\x7b') (by decide), skipBlanks_blanks,
      skipBlanks_cons (c := '\x7d') (by decide)]
  | list first items, n, around, rest, _ => by
    have hsteps : (list first items).steps + n =
        spacedSteps first + (itemsSteps items + n) + 1 := by
      rw [steps]
      omega
    rw [hsteps, list_source_append, skipValueIn_list,
      skipValueIn_spaced first _ _ _ (ends_itemsSource items rest), skipRest_items items n around]
  | object ⟨before, name, between, v⟩ members, n, around, rest, _ => by
    have hsteps : (object ⟨before, name, between, v⟩ members).steps + n =
        spacedSteps v + (entriesSteps members + n) + 1 := by
      rw [steps, entrySteps]
      omega
    rw [hsteps, object_source_append, skipValueIn_object,
      skipValueIn_spaced v _ _ _ (ends_entriesSource members rest),
      skipRest_entries members n around]

theorem skipValueIn_spaced : ∀ (v : Spaced Value) (n : Nat) (bracket : Bracket)
    (around : List Bracket) {rest : List Char}, Ends rest →
    skipValueIn (spacedSteps v + n) (bracket :: around) (spacedSource v ++ rest) =
      skipRest (n + 1) (bracket :: around) rest
  | ⟨before, v, after⟩, n, bracket, around, rest, h => by
    rw [spacedSteps, spacedSource, List.append_assoc, List.append_assoc, skipValueIn_blanks,
      Nat.add_assoc, Nat.add_comm 1, skipValueIn_source v _ _ (h.blanks after), skipRest_blanks]

theorem skipRest_items : ∀ (items : List (Spaced Value)) (n : Nat) (around : List Bracket)
    {rest : List Char},
    skipRest (itemsSteps items + n + 1) (.list :: around) (itemsSource items ++ ']' :: rest) =
      skipRest n around rest
  | [], n, around, rest => by
    rw [itemsSteps, Nat.zero_add, itemsSource, List.nil_append, skipRest_close_list]
  | item :: items, n, around, rest => by
    rw [itemsSteps, itemsSource_cons_append, skipRest_comma_list, Nat.add_assoc,
      skipValueIn_spaced item _ _ _ (ends_itemsSource items rest), skipRest_items items n around]

theorem skipRest_entries : ∀ (members : List (Entry Value)) (n : Nat) (around : List Bracket)
    {rest : List Char},
    skipRest (entriesSteps members + n + 1) (.object :: around)
        (entriesSource members ++ '\x7d' :: rest) =
      skipRest n around rest
  | [], n, around, rest => by
    rw [entriesSteps, Nat.zero_add, entriesSource, List.nil_append, skipRest_close_object]
  | ⟨before, name, between, v⟩ :: members, n, around, rest => by
    rw [entriesSteps, entrySteps, entriesSource_cons_append, skipRest_comma_object, Nat.add_assoc,
      skipValueIn_spaced v _ _ _ (ends_entriesSource members rest),
      skipRest_entries members n around]

end

theorem length_source_pos (v : Value) : 0 < v.source.length := by
  obtain ⟨c, cs, hsource, -⟩ := v.exists_source_eq_cons
  rw [hsource]
  exact Nat.succ_pos _

mutual

/-- There are fewer steps than twice as many as characters. -/
theorem steps_lt : ∀ v : Value, v.steps < 2 * v.source.length
  | null => by decide
  | bool b => by cases b <;> decide
  | number n => by
    have := length_source_pos (number n)
    rw [steps]
    omega
  | string pieces => by
    have := length_source_pos (string pieces)
    rw [steps]
    omega
  | emptyList inner => by
    have := length_source_pos (emptyList inner)
    rw [steps]
    omega
  | emptyObject inner => by
    have := length_source_pos (emptyObject inner)
    rw [steps]
    omega
  | list first items => by
    have hfirst := spacedSteps_le first
    have hitems := itemsSteps_le items
    simp only [steps, source, List.length_append, List.length_cons, List.length_nil]
    omega
  | object ⟨before, name, between, v⟩ members => by
    have hv := spacedSteps_le v
    have hmembers := entriesSteps_le members
    simp only [steps, entrySteps, source, entrySource, List.length_append, List.length_cons,
      List.length_nil]
    omega

theorem spacedSteps_le : ∀ v : Spaced Value, spacedSteps v ≤ 2 * (spacedSource v).length
  | ⟨before, v, after⟩ => by
    have hv := steps_lt v
    simp only [spacedSteps, spacedSource, List.length_append]
    omega

theorem itemsSteps_le : ∀ items : List (Spaced Value),
    itemsSteps items ≤ 2 * (itemsSource items).length
  | [] => Nat.zero_le _
  | item :: items => by
    have hitem := spacedSteps_le item
    have hitems := itemsSteps_le items
    simp only [itemsSteps, itemsSource, List.length_append, List.length_cons]
    omega

theorem entriesSteps_le : ∀ members : List (Entry Value),
    entriesSteps members ≤ 2 * (entriesSource members).length
  | [] => Nat.zero_le _
  | ⟨before, name, between, v⟩ :: members => by
    have hv := spacedSteps_le v
    have hmembers := entriesSteps_le members
    simp only [entriesSteps, entrySteps, entriesSource, entrySource, List.length_append,
      List.length_cons]
    omega

end

/-- Skipping stops right after the value. -/
theorem skipValue_source (before : Blanks) (v : Value) {rest : List Char} (h : Ends rest) :
    skipValue (before.chars ++ (v.source ++ rest)) = .ok rest := by
  have hsteps := v.steps_lt
  obtain ⟨n, hn⟩ : ∃ n, 2 * (before.chars ++ (v.source ++ rest)).length + 2 = v.steps + n := by
    refine ⟨2 * (before.chars ++ (v.source ++ rest)).length + 2 - v.steps, ?_⟩
    simp only [List.length_append]
    omega
  rw [skipValue, hn, skipValueIn_blanks, skipValueIn_source v n [] h, skipRest]

/-! ## Truth values -/

/-- The truth value that a value is, if it is one. -/
def bool? : Value → Option Bool
  | bool b => some b
  | _ => none

theorem first_of_bool?_eq_none {v : Value} (h : v.bool? = none) :
    ∀ c ∈ v.firsts, c ≠ 't' ∧ c ≠ 'f' := by
  cases v with
  | bool b => cases h
  | _ =>
    rw [firsts]
    exact forall_mem_of_all (fun c => c ≠ 't' ∧ c ≠ 'f') (by decide)

theorem readBool_bool (before : Blanks) (b : Bool) (rest : List Char) :
    readBool (before.chars ++ ((bool b).source ++ rest)) = .ok (b, rest) := by
  rw [readBool, skipBlanks_blanks]
  cases b <;> rfl

theorem readBool_of_bool?_eq_none (before : Blanks) {v : Value} (h : v.bool? = none)
    (rest : List Char) : ∃ stop, readBool (before.chars ++ (v.source ++ rest)) = .error stop := by
  obtain ⟨c, cs, hsource, hc⟩ := v.exists_source_eq_cons
  have hproper := v.first_proper c hc
  obtain ⟨htrue, hfalse⟩ := first_of_bool?_eq_none h c hc
  rw [readBool, skipBlanks_blanks, hsource, List.cons_append, skipBlanks_cons hproper.1]
  split
  · next heq => exact absurd (List.cons.inj heq).1 htrue
  · next heq => exact absurd (List.cons.inj heq).1 hfalse
  · exact ⟨_, rfl⟩

/-- Asked for a truth value, one reads it where there is one, and stops where there is not. -/
theorem readBool_source (before : Blanks) (v : Value) (rest : List Char) :
    (readBool (before.chars ++ (v.source ++ rest))).toOption = v.bool?.map (·, rest) := by
  cases h : v.bool? with
  | none =>
    obtain ⟨stop, hstop⟩ := readBool_of_bool?_eq_none before h rest
    rw [hstop]
    rfl
  | some b =>
    obtain rfl : v = bool b := by
      cases v with
      | bool b' => rw [Option.some.inj h]
      | _ => cases h
    rw [readBool_bool]
    rfl

end Value

end HtmlWalk.Json
