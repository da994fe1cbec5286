/-!
# Written JSON

Values as they are written, down to the last blank and escape, and the text of each. Every text of
the grammar is the text of such a value, and there are no others, because the parts carry the proofs
that they are well-formed: there is no number with a leading zero and no bare control character.

A string is kept as it is written too. What it spells, if anything, is told by its code units:
`Spells` says that they are those of a text. An escape for half a character spells nothing on its
own, and a string with such an escape may still be written.
-/

namespace HtmlWalk.Json

/-! ## Blanks -/

/-- The characters that are blanks. -/
def blankChars : List Char := [' ', '\n', '\t', '\r']

/-- Blanks between the parts of a text. -/
structure Blanks where
  chars : List Char := []
  blank : ∀ c ∈ chars, c ∈ blankChars := by simp

/-! ## Strings -/

/-- A hexadecimal digit, in lower or upper case. -/
structure HexDigit where
  value : Fin 16
  capital : Bool := false

/-- The character for a digit. -/
def HexDigit.char (d : HexDigit) : Char :=
  (if d.capital then "0123456789ABCDEF" else "0123456789abcdef").toList[d.value.val]!

/-- The code unit that four digits spell. -/
def HexDigit.codeUnit (a b c d : HexDigit) : Nat :=
  ((a.value * 16 + b.value) * 16 + c.value) * 16 + d.value

/-- The escapes of two characters. -/
inductive ShortEscape
  | quote
  | backslash
  | slash
  | backspace
  | formFeed
  | newline
  | carriageReturn
  | tab

namespace ShortEscape

/-- The character after the backslash. -/
def mark : ShortEscape → Char
  | quote => '"'
  | backslash => '\\'
  | slash => '/'
  | backspace => 'b'
  | formFeed => 'f'
  | newline => 'n'
  | carriageReturn => 'r'
  | tab => 't'

/-- The character that is meant. -/
def meant : ShortEscape → Char
  | quote => '"'
  | backslash => '\\'
  | slash => '/'
  | backspace => '\x08'
  | formFeed => '\x0c'
  | newline => '\n'
  | carriageReturn => '\r'
  | tab => '\t'

end ShortEscape

/-- A part of a string: a character that stands for itself, or an escape. -/
inductive Piece
  | plain (c : Char) (proper : ' ' ≤ c ∧ c ≠ '"' ∧ c ≠ '\\')
  | short (escape : ShortEscape)
  | unit (a b c d : HexDigit)

/-- The code units of a character. -/
def codeUnits (c : Char) : List Nat :=
  if c.toNat < 0x10000 then [c.toNat]
  else [0xd800 + (c.toNat - 0x10000) / 0x400, 0xdc00 + (c.toNat - 0x10000) % 0x400]

namespace Piece

/-- A part as it is written. -/
def source : Piece → List Char
  | plain c _ => [c]
  | short escape => ['\\', escape.mark]
  | unit a b c d => ['\\', 'u', a.char, b.char, c.char, d.char]

/-- The code units of a part. -/
def units : Piece → List Nat
  | plain c _ => codeUnits c
  | short escape => codeUnits escape.meant
  | unit a b c d => [HexDigit.codeUnit a b c d]

end Piece

/-- A string between its marks. -/
def stringSource (pieces : List Piece) : List Char :=
  '"' :: pieces.flatMap Piece.source ++ ['"']

/-- A string spells a text if it has the code units of the text. -/
def Spells (pieces : List Piece) (text : String) : Prop :=
  pieces.flatMap Piece.units = text.toList.flatMap codeUnits

/-! ## Numbers -/

/-- The characters that are decimal digits. -/
def digitChars : List Char := "0123456789".toList

/-- Decimal digits, one at least. -/
structure Digits where
  first : Char
  others : List Char := []
  digit : ∀ c ∈ first :: others, c ∈ digitChars

/-- The digits as they are written. -/
def Digits.chars (d : Digits) : List Char := d.first :: d.others

/-- The exponent of a number, with the sign if there is one. -/
structure Exponent where
  capital : Bool
  sign : Option Bool
  digits : Digits

/-- The exponent as it is written. -/
def Exponent.source (e : Exponent) : List Char :=
  (if e.capital then 'E' else 'e') ::
    (e.sign.elim [] fun negative => [if negative then '-' else '+']) ++ e.digits.chars

/-- A number; a zero before the point stands alone. -/
structure Number where
  negative : Bool := false
  whole : Digits
  zeroAlone : whole.first = '0' → whole.others = []
  fraction : Option Digits := none
  exponent : Option Exponent := none

/-- A number without its sign. -/
def Number.magnitude (n : Number) : List Char :=
  n.whole.chars ++ (n.fraction.elim [] fun f => '.' :: f.chars) ++
    n.exponent.elim [] Exponent.source

/-- A number as it is written. -/
def Number.source (n : Number) : List Char :=
  (if n.negative then ['-'] else []) ++ n.magnitude

/-! ## Values -/

/-- A value with the blanks around it. -/
structure Spaced (α : Type) where
  before : Blanks := {}
  value : α
  after : Blanks := {}

/-- A member of an object: its name with the blanks around it, and its value. -/
structure Entry (α : Type) where
  before : Blanks := {}
  name : List Piece
  between : Blanks := {}
  value : Spaced α

/-- A value as it is written. A list or an object that is not empty has a first part. -/
inductive Value
  | null
  | bool (b : Bool)
  | number (n : Number)
  | string (pieces : List Piece)
  | emptyList (inner : Blanks)
  | list (first : Spaced Value) (rest : List (Spaced Value))
  | emptyObject (inner : Blanks)
  | object (first : Entry Value) (rest : List (Entry Value))

namespace Value

mutual

/-- The text of a value. -/
def source : Value → List Char
  | null => "null".toList
  | bool b => (if b then "true" else "false").toList
  | number n => n.source
  | string pieces => stringSource pieces
  | emptyList inner => '[' :: inner.chars ++ [']']
  | list first rest => '[' :: spacedSource first ++ itemsSource rest ++ [']']
  | emptyObject inner => '\x7b' :: inner.chars ++ ['\x7d']
  | object first rest => '\x7b' :: entrySource first ++ entriesSource rest ++ ['\x7d']

/-- The text of a value with the blanks around it. -/
def spacedSource : Spaced Value → List Char
  | ⟨before, v, after⟩ => before.chars ++ v.source ++ after.chars

/-- The text of the items that follow another one. -/
def itemsSource : List (Spaced Value) → List Char
  | [] => []
  | item :: rest => ',' :: spacedSource item ++ itemsSource rest

/-- The text of a member. -/
def entrySource : Entry Value → List Char
  | ⟨before, name, between, v⟩ =>
    before.chars ++ stringSource name ++ between.chars ++ ':' :: spacedSource v

/-- The text of the members that follow another one. -/
def entriesSource : List (Entry Value) → List Char
  | [] => []
  | member :: rest => ',' :: entrySource member ++ entriesSource rest

end

end Value

end HtmlWalk.Json
