/-!
# Decoding UTF-8

Bytes are decoded as they arrive. Where they are no UTF-8, the longest run that could still have
become a character is replaced by one replacement character, and so is a character that the end
cuts off.

The decoded text comes in pieces. Each stretch of characters is a piece, and each replacement is
one. A character whose bytes arrive in two parts makes a piece with the characters after it that
fit into four bytes together with it.
-/

namespace HtmlWalk.Text.Utf8

/-- What has been decoded: a character, or bytes that are none. -/
inductive Decoded
  | char (c : Char)
  | broken
deriving DecidableEq

/-- The beginning of a character. -/
structure Beginning where
  /-- How many bytes have been read. -/
  size : Nat
  /-- The bits of the code point that have been read. -/
  bits : Nat
  /-- How many bytes are missing. -/
  missing : Nat
  /-- The smallest byte that can come next. -/
  low : Nat := 0x80
  /-- The largest byte that can come next. -/
  high : Nat := 0xbf
deriving DecidableEq

/-- Read the first byte of a character. -/
def first (b : Nat) : List Decoded × Option Beginning :=
  if b < 0x80 then ([.char (Char.ofNat b)], none)
  else if b < 0xc2 then ([.broken], none)
  else if b < 0xe0 then ([], some { size := 1, bits := b - 0xc0, missing := 1 })
  else if b < 0xf0 then
    ([], some
      { size := 1, bits := b - 0xe0, missing := 2
        low := if b = 0xe0 then 0xa0 else 0x80
        high := if b = 0xed then 0x9f else 0xbf })
  else if b < 0xf5 then
    ([], some
      { size := 1, bits := b - 0xf0, missing := 3
        low := if b = 0xf0 then 0x90 else 0x80
        high := if b = 0xf4 then 0x8f else 0xbf })
  else ([.broken], none)

/-- Read another byte. A byte that cannot come next breaks the character off and is read as the
first byte of the next one. -/
def next (state : Option Beginning) (b : Nat) : List Decoded × Option Beginning :=
  match state with
  | none => first b
  | some p =>
    if p.low ≤ b ∧ b ≤ p.high then
      let bits := p.bits * 0x40 + (b - 0x80)
      if p.missing ≤ 1 then ([.char (Char.ofNat bits)], none)
      else ([], some { size := p.size + 1, bits, missing := p.missing - 1 })
    else
      let (decoded, state) := first b
      (.broken :: decoded, state)

/-- Read bytes. -/
def decode (state : Option Beginning) : List UInt8 → List Decoded × Option Beginning
  | [] => ([], state)
  | b :: rest =>
    let (decoded, state) := next state b.toNat
    let (more, state) := decode state rest
    (decoded ++ more, state)

/-- The pieces of what has been decoded; `run` are the characters before it, the last one first. -/
def pieces (run : List Char) : List Decoded → List (List Char)
  | [] => close run
  | .char c :: rest => pieces (c :: run) rest
  | .broken :: rest => close run ++ ['\ufffd'] :: pieces [] rest
where
  /-- The piece of the characters before, if there are any. -/
  close (run : List Char) : List (List Char) := if run.isEmpty then [] else [run.reverse]

/-- The characters at the start of what has been decoded that fit into so many bytes, and the
rest. -/
def takeBytes (room : Nat) : List Decoded → List Char × List Decoded
  | .char c :: rest =>
    if c.utf8Size ≤ room then
      let (cs, rest) := takeBytes (room - c.utf8Size) rest
      (c :: cs, rest)
    else ([], .char c :: rest)
  | rest => ([], rest)

/-- The pieces that more bytes make, and the beginning of a character at their end. -/
def feed (state : Option Beginning) (bytes : List UInt8) :
    List (List Char) × Option Beginning :=
  let (decoded, after) := decode state bytes
  let made := match state with
    | none => pieces [] decoded
    | some _ =>
      let (joined, rest) := takeBytes 4 decoded
      (if joined.isEmpty then [] else [joined]) ++ pieces [] rest
  (made, after)

/-- The piece that the end makes. -/
def finish (state : Option Beginning) : List (List Char) :=
  if state.isSome then [['\ufffd']] else []

end HtmlWalk.Text.Utf8
