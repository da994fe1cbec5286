import HtmlWalk.Html.NamedReferences
import HtmlWalk.Html.Token

/-!
# Character references

What follows an ampersand is read one character at a time. A name is read as long as it can still
become a longer known name, and the longest known name wins; a number is read to its last digit.
What was read in vain is given back and read again as ordinary source.

The characters are taken as they stand in the source: line ends are not counted and not unified
until they are read again.
-/

namespace HtmlWalk.Html

/-! ## Named references -/

/-- What a name stands for. -/
def namedReference? (name : List Char) : Option (List Char) :=
  name.head?.bind fun first =>
    ((namedReferences first).find? (·.1.toList == name)).map (·.2.toList)

/-- Whether some known name starts like this. -/
def startsNamedReference (name : List Char) : Bool :=
  name.head?.any fun first =>
    (namedReferences first).any fun entry => name.isPrefixOf entry.1.toList

/-! ## Numeric references -/

/-- The largest code point. -/
def maxCodePoint : Nat := 0x10ffff

/-- The characters that the numbers 0x80 to 0x9f stand for, as in the Windows code page. -/
def c1Replacements : List Char :=
  ['\u20ac', '\u0081', '\u201a', '\u0192', '\u201e', '\u2026', '\u2020', '\u2021',
    '\u02c6', '\u2030', '\u0160', '\u2039', '\u0152', '\u008d', '\u017d', '\u008f',
    '\u0090', '\u2018', '\u2019', '\u201c', '\u201d', '\u2022', '\u2013', '\u2014',
    '\u02dc', '\u2122', '\u0161', '\u203a', '\u0153', '\u009d', '\u017e', '\u0178']

/-- The character that a number stands for; zero, surrogates and numbers that are too large stand
for the replacement character. -/
def charOfNumber (n : Nat) : Char :=
  if n = 0 then replacement
  else if 0x80 ≤ n ∧ n ≤ 0x9f then c1Replacements.getD (n - 0x80) replacement
  else if n.isValidChar then Char.ofNat n
  else replacement

/-- The value of a digit, if the character is one in this base. -/
def digit? (hex : Bool) (c : Char) : Option Nat :=
  if c.isDigit then some (c.toNat - '0'.toNat)
  else if hex && 'a' ≤ c && c ≤ 'f' then some (c.toNat - 'a'.toNat + 10)
  else if hex && 'A' ≤ c && c ≤ 'F' then some (c.toNat - 'A'.toNat + 10)
  else none

/-! ## Reading a reference -/

/-- How far a reference has been read. -/
inductive Reference
  /-- Just the ampersand. -/
  | start
  /-- The ampersand and a number sign. -/
  | number
  /-- A number: the letter that marks it as hexadecimal, and its value once it has a digit. -/
  | digits (hex : Option Char) (value : Option Nat)
  /-- A name that may become longer, with the longest known name in it and what that stands for. -/
  | name (read : List Char) (best : Option (Nat × List Char))
  /-- Letters and digits that are no known name, the last one first. -/
  | unknown (read : List Char)
deriving DecidableEq

namespace Reference

/-- The end of a reference. -/
structure Ended where
  /-- The characters that the reference stands for: an ampersand if it was none. -/
  chars : List Char
  /-- Whether the source is told to be wrong before these characters. -/
  flaw : Bool := false
  /-- What was read in vain and has to be read again. -/
  again : List Char := []
  /-- Whether the last character is still unread. -/
  unread : Bool := false

/-- The outcome of reading one more character. -/
inductive Outcome
  | more (r : Reference)
  | ended (e : Ended)

/-- The end of a number. -/
def endNumber (value : Nat) (flaw unread : Bool) : Ended :=
  { chars := [charOfNumber value], flaw, unread }

/-- The end of a number sign without digits. -/
def endBareNumber (hex : Option Char) (unread : Bool) : Ended :=
  { chars := ['&'], flaw := true, again := '#' :: hex.toList, unread }

/-- The end of a name that has become known, or of one that can no longer become known. In an
attribute value a name without its semicolon is no reference if a word goes on after it. -/
def endName (inAttr : Bool) (read : List Char) (best : Option (Nat × List Char)) : Ended :=
  match best with
  | none => { chars := ['&'], again := read }
  | some (length, chars) =>
    let after := read.drop length
    let closed := (read.take length).getLast? == some ';'
    let goesOn := after.head?.any fun c => c == '=' || isWordChar c
    if inAttr && !closed && goesOn then { chars := ['&'], again := read }
    else { chars, again := after }

/-- A name read one character further. -/
def readName (inAttr : Bool) (read : List Char) (best : Option (Nat × List Char)) (c : Char) :
    Outcome :=
  let read := read ++ [c]
  if startsNamedReference read then
    match namedReference? read with
    | some chars => .more (.name read (some (read.length, chars)))
    | none => .more (.name read best)
  else if best.isNone && isWordChar c then .more (.unknown read.reverse)
  else .ended (endName inAttr read best)

/-- A number read one character further. -/
def readDigit (hex : Option Char) (value : Option Nat) (c : Char) : Outcome :=
  match digit? hex.isSome c, value with
  | some d, _ =>
    let value := value.getD 0 * (if hex.isSome then 16 else 10) + d
    .more (.digits hex (some (min value (maxCodePoint + 1))))
  | none, none => .ended (endBareNumber hex true)
  | none, some value => .ended (endNumber value (c != ';') (c != ';'))

/-- The reference read one character further. -/
def read (inAttr : Bool) : Reference → Char → Outcome
  | start, c =>
    if isWordChar c then readName inAttr [] none c
    else if c == '#' then .more number
    else .ended { chars := ['&'], unread := true }
  | number, c =>
    if c == 'x' || c == 'X' then .more (.digits (some c) none) else readDigit none none c
  | digits hex value, c => readDigit hex value c
  | name read best, c => readName inAttr read best c
  | unknown read, c =>
    if isWordChar c then .more (.unknown (c :: read))
    else .ended { chars := ['&'], again := (c :: read).reverse }

/-- The reference when the source ends after it. -/
def close (inAttr : Bool) : Reference → Ended
  | start => { chars := ['&'] }
  | number => endBareNumber none false
  | digits hex none => endBareNumber hex false
  | digits _ (some value) => endNumber value true false
  | name read best => endName inAttr read best
  | unknown read => { chars := ['&'], again := read.reverse }

end Reference

end HtmlWalk.Html
