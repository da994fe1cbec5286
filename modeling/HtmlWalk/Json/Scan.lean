import HtmlWalk.Decimal.Shortest
import HtmlWalk.Text.Quoted

/-!
# Scanning JSON

A JSON text is read from left to right, and reading stops at the first problem. There are three
sorts: the text ends where more is needed, it goes on with something that has no place there, or it
goes on with a value of another shape than the one asked for.

Values that nobody asks for are skipped. Skipping checks the form of a value only: a string may
spell out half a character, and a number may be as large as it likes.
-/

namespace HtmlWalk.Json

/-! ## Problems -/

/-- The value that was found where another one was asked for. -/
inductive Found
  | null
  | bool (b : Bool)
  | integer (n : Int)
  | float (negative : Bool) (x : Decimal.Binary64)
  | string (s : String)
  | sequence
  | map
deriving DecidableEq

/-- The value in a message. -/
def Found.describe : Found → String
  | null => "null"
  | bool b => "boolean `" ++ toString b ++ "`"
  | integer n => "integer `" ++ toString n ++ "`"
  | float negative x =>
    "floating point `" ++ (if negative then "-" else "") ++ x.toText ++ "`"
  | string s => "string " ++ Text.quote s
  | sequence => "sequence"
  | map => "map"

/-- Why reading stops. -/
inductive Stop
  /-- The text ends inside a value. -/
  | ended
  /-- The text is not well-formed. -/
  | malformed
  /-- There is another value than the one asked for. -/
  | mismatch (found : Found) (expected : String)
  /-- A member is given twice. -/
  | duplicate (name : String)
deriving DecidableEq

/-- The text of a message about a value of the wrong shape. -/
def Stop.message? : Stop → Option String
  | ended | malformed => none
  | mismatch found expected =>
    some ("invalid type: " ++ found.describe ++ ", expected " ++ expected)
  | duplicate name => some ("duplicate field `" ++ name ++ "`")

/-- What is read from a text, with the rest of the text. -/
abbrev Taken (α : Type) := α × List Char

/-! ## Blanks and words -/

/-- The characters that may stand between the parts of a text. -/
def isBlank (c : Char) : Bool := c == ' ' || c == '\n' || c == '\t' || c == '\r'

/-- The text without the blanks at its start. -/
def skipBlanks (cs : List Char) : List Char := cs.dropWhile isBlank

/-- What is wrong with a text that does not go on as it must. -/
def stopAt : List Char → Stop
  | [] => .ended
  | _ :: _ => .malformed

/-- Skip a character that has to come next. -/
def skipChar (c : Char) : List Char → Except Stop (List Char)
  | [] => .error .ended
  | d :: rest => if d = c then .ok rest else .error .malformed

/-- Skip a word that has to come next. -/
def skipWord : List Char → List Char → Except Stop (List Char)
  | [], cs => .ok cs
  | _ :: _, [] => .error .ended
  | c :: word, d :: rest => if d = c then skipWord word rest else .error .malformed

/-! ## Strings -/

/-- The value of a hexadecimal digit. -/
def hexDigit? (c : Char) : Option Nat :=
  if c.isDigit then some (c.toNat - '0'.toNat)
  else if 'a' ≤ c && c ≤ 'f' then some (c.toNat - 'a'.toNat + 10)
  else if 'A' ≤ c && c ≤ 'F' then some (c.toNat - 'A'.toNat + 10)
  else none

/-- The code unit that four hexadecimal digits spell. -/
def codeUnit? (a b c d : Char) : Option Nat := do
  return (((← hexDigit? a) * 16 + (← hexDigit? b)) * 16 + (← hexDigit? c)) * 16 + (← hexDigit? d)

/-- What is wrong with a text that has fewer than four characters for a code unit: it has ended,
unless it goes on for four bytes, which then are not all digits. -/
def shortUnit (rest : List Char) : Stop :=
  if (String.ofList rest).utf8ByteSize < 4 then .ended else .malformed

/-- Whether a code unit is the first half of a character. -/
def isHighUnit (n : Nat) : Bool := 0xd800 ≤ n && n ≤ 0xdbff

/-- Whether a code unit is the second half of a character. -/
def isLowUnit (n : Nat) : Bool := 0xdc00 ≤ n && n ≤ 0xdfff

/-- The character whose halves these are. -/
def joinUnits (high low : Nat) : Char :=
  Char.ofNat ((high - 0xd800) * 0x400 + (low - 0xdc00) + 0x10000)

/-- The character that a single escape stands for. -/
def escaped? : Char → Option Char
  | '"' => some '"'
  | '\\' => some '\\'
  | '/' => some '/'
  | 'b' => some '\x08'
  | 'f' => some '\x0c'
  | 'n' => some '\n'
  | 'r' => some '\r'
  | 't' => some '\t'
  | _ => none

/-- Read a string after its opening mark; `read` are the characters so far, the last one first. -/
def readString (read : List Char) : List Char → Except Stop (Taken String)
  | '"' :: rest => .ok (String.ofList read.reverse, rest)
  | '\\' :: 'u' :: a :: b :: c :: d :: rest =>
    match codeUnit? a b c d with
    | none => .error .malformed
    | some unit =>
      if isLowUnit unit then .error .malformed
      else if !isHighUnit unit then readString (Char.ofNat unit :: read) rest
      else match rest with
        | '\\' :: 'u' :: e :: f :: g :: h :: rest =>
          match codeUnit? e f g h with
          | none => .error .malformed
          | some low =>
            if isLowUnit low then readString (joinUnits unit low :: read) rest
            else .error .malformed
        | '\\' :: 'u' :: rest => .error (shortUnit rest)
        | '\\' :: rest => .error (stopAt rest)
        | rest => .error (stopAt rest)
  | '\\' :: 'u' :: rest => .error (shortUnit rest)
  | '\\' :: c :: rest =>
    match escaped? c with
    | some e => readString (e :: read) rest
    | none => .error .malformed
  | c :: rest =>
    if c = '\\' then .error .ended
    else if c < ' ' then .error .malformed
    else readString (c :: read) rest
  | [] => .error .ended

/-- Skip a string after its opening mark. -/
def skipString : List Char → Except Stop (List Char)
  | '"' :: rest => .ok rest
  | '\\' :: 'u' :: a :: b :: c :: d :: rest =>
    if (codeUnit? a b c d).isSome then skipString rest else .error .malformed
  | '\\' :: 'u' :: rest => .error (shortUnit rest)
  | '\\' :: c :: rest => if (escaped? c).isSome then skipString rest else .error .malformed
  | c :: rest =>
    if c = '\\' then .error .ended else if c < ' ' then .error .malformed else skipString rest
  | [] => .error .ended

/-! ## Numbers -/

/-- The largest significand that is kept exactly. -/
def maxSignificand : Nat := Decimal.pow2 64 - 1

/-- The largest exponent that is read. -/
def maxExponent : Nat := Decimal.pow2 31 - 1

/-- The value of a decimal digit. -/
def digitValue (c : Char) : Nat := c.toNat - '0'.toNat

/-- The significand of the digits before the point, and how many of them it leaves out: all from
the first that would make it too large. -/
def significand (digits : List Char) : Nat × Nat :=
  digits.foldl (fun (s, out) c =>
    if out = 0 && s * 10 + digitValue c ≤ maxSignificand then (s * 10 + digitValue c, 0)
    else (s, out + 1)) (0, 0)

/-- The significand with the digits after the point, and how many of them are in it. -/
def extend (s : Nat) : List Char → Nat × Nat
  | [] => (s, 0)
  | c :: rest =>
    if s * 10 + digitValue c ≤ maxSignificand then
      let (s, taken) := extend (s * 10 + digitValue c) rest
      (s, taken + 1)
    else (s, 0)

/-- The value of a number with a point or an exponent, or of one that is too large for an integer:
an exponent of absurd size makes it zero or too large. -/
def floatValue? (s : Nat) (scale : Int) (negativeExp : Bool) (exp : Nat) :
    Option Decimal.Binary64 :=
  if maxExponent < exp then if s != 0 && !negativeExp then none else some .zero
  else Decimal.Binary64.ofDecimal? s (if negativeExp then scale - exp else scale + exp)

/-- The digits at the start of a text, of which there must be one, with the rest. -/
def readDigits (cs : List Char) : Except Stop (Taken (List Char)) :=
  let digits := cs.takeWhile Char.isDigit
  let rest := cs.dropWhile Char.isDigit
  if digits.isEmpty then .error (stopAt rest) else .ok (digits, rest)

/-- The digits before the point: a zero stands alone. -/
def readWhole (cs : List Char) : Except Stop (Taken (List Char)) :=
  match readDigits cs with
  | .ok ('0' :: _ :: _, _) => .error .malformed
  | r => r

/-- The digits after the point, if there is one. -/
def readFraction : List Char → Except Stop (Taken (Option (List Char)))
  | '.' :: rest => do
    let (digits, rest) ← readDigits rest
    return (some digits, rest)
  | rest => .ok (none, rest)

/-- The sign and the digits of the exponent, if there is one. -/
def readExponent : List Char → Except Stop (Taken (Option (Bool × List Char)))
  | c :: rest =>
    if c = 'e' ∨ c = 'E' then do
      let (negative, rest) := match rest with
        | '-' :: rest => (true, rest)
        | '+' :: rest => (false, rest)
        | rest => (false, rest)
      let (digits, rest) ← readDigits rest
      return (some (negative, digits), rest)
    else .ok (none, c :: rest)
  | [] => .ok (none, [])

/-- Read a number, after the sign of a negative one. -/
def readNumber (negative : Bool) (cs : List Char) : Except Stop (Taken Found) := do
  let (whole, rest) ← readWhole cs
  let (fraction, rest) ← readFraction rest
  let (exponent, rest) ← readExponent rest
  let (s, left) := significand whole
  let isInteger := fraction.isNone && exponent.isNone && left = 0
    && (!negative || (0 < s && s ≤ Decimal.pow2 63))
  if isInteger then return (.integer (if negative then -s else s), rest)
  else
    let (s, taken) := extend s (fraction.getD [])
    let (negativeExp, digits) := exponent.getD (false, [])
    let exp := digits.foldl (fun n c => min (n * 10 + digitValue c) (maxExponent + 1)) 0
    match floatValue? s (left - taken : Int) negativeExp exp with
    | some x => return (.float negative x, rest)
    | none => throw .malformed

/-- Skip a number, after the sign of a negative one; where a digit is missing it is not
well-formed, even at the end of the text. -/
def skipNumber (cs : List Char) : Except Stop (List Char) :=
  let result := do
    let (_, rest) ← readWhole cs
    let (_, rest) ← readFraction rest
    let (_, rest) ← readExponent rest
    return rest
  match result with
  | .ok rest => .ok rest
  | .error _ => .error .malformed

/-! ## Values -/

/-- What is wrong with a text that goes on with another value than the one asked for. -/
def mismatch (expected : String) (cs : List Char) : Stop :=
  let stop (found : Except Stop Found) : Stop :=
    match found with
    | .ok found => .mismatch found expected
    | .error stop => stop
  match cs with
  | [] => .ended
  | c :: rest =>
    if c = 'n' then stop ((skipWord "ull".toList rest).map fun _ => .null)
    else if c = 't' then stop ((skipWord "rue".toList rest).map fun _ => .bool true)
    else if c = 'f' then stop ((skipWord "alse".toList rest).map fun _ => .bool false)
    else if c = '-' then stop ((readNumber true rest).map (·.1))
    else if c.isDigit then stop ((readNumber false cs).map (·.1))
    else if c = '"' then stop ((readString [] rest).map fun r => .string r.1)
    else if c = '[' then stop (.ok .sequence)
    else if c = '\x7b' then stop (.ok .map)
    else .malformed

/-- Read a truth value. -/
def readBool (cs : List Char) : Except Stop (Taken Bool) :=
  match skipBlanks cs with
  | 't' :: rest => (skipWord "rue".toList rest).map (true, ·)
  | 'f' :: rest => (skipWord "alse".toList rest).map (false, ·)
  | cs => .error (mismatch "a boolean" cs)

/-- The brackets that are open around a skipped value. -/
inductive Bracket
  | list
  | object
deriving DecidableEq

/-- Skip a value that is neither a list nor an object. -/
def skipScalar : List Char → Except Stop (List Char)
  | [] => .error .ended
  | c :: rest =>
    if c = 'n' then skipWord "ull".toList rest
    else if c = 't' then skipWord "rue".toList rest
    else if c = 'f' then skipWord "alse".toList rest
    else if c = '-' then skipNumber rest
    else if c.isDigit then skipNumber (c :: rest)
    else if c = '"' then skipString rest
    else .error .malformed

/-- Skip the name of a member and the colon after it. -/
def skipName (cs : List Char) : Except Stop (List Char) := do
  let rest ← skipChar '"' (skipBlanks cs)
  let rest ← skipString rest
  skipChar ':' (skipBlanks rest)

mutual

/-- Skip a value and what is left of the brackets around it, in so many steps at most. -/
def skipValueIn : Nat → List Bracket → List Char → Except Stop (List Char)
  | 0, _, _ => .error .malformed
  | n + 1, around, cs =>
    match skipBlanks cs with
    | '[' :: rest =>
      match skipBlanks rest with
      | ']' :: rest => skipRest n around rest
      | rest => skipValueIn n (.list :: around) rest
    | '\x7b' :: rest =>
      match skipBlanks rest with
      | '\x7d' :: rest => skipRest n around rest
      | rest =>
        match skipName rest with
        | .ok rest => skipValueIn n (.object :: around) rest
        | .error stop => .error stop
    | cs =>
      match skipScalar cs with
      | .ok rest => skipRest n around rest
      | .error stop => .error stop

/-- Skip what is left of the brackets around a value, in so many steps at most. -/
def skipRest : Nat → List Bracket → List Char → Except Stop (List Char)
  | _, [], cs => .ok cs
  | 0, _ :: _, _ => .error .malformed
  | n + 1, .list :: around, cs =>
    match skipBlanks cs with
    | ',' :: rest => skipValueIn n (.list :: around) rest
    | ']' :: rest => skipRest n around rest
    | cs => .error (stopAt cs)
  | n + 1, .object :: around, cs =>
    match skipBlanks cs with
    | ',' :: rest =>
      match skipName rest with
      | .ok rest => skipValueIn n (.object :: around) rest
      | .error stop => .error stop
    | '\x7d' :: rest => skipRest n around rest
    | cs => .error (stopAt cs)

end

/-- Skip a value. -/
def skipValue (cs : List Char) : Except Stop (List Char) := skipValueIn (2 * cs.length + 2) [] cs

end HtmlWalk.Json
