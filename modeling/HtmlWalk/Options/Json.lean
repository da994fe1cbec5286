import HtmlWalk.Json.Scan
import HtmlWalk.Options

/-!
# Options in JSON

Options are read from an object by the names of its members, in any order; members of other names
are skipped, and options that are not given keep their defaults. A list gives them by position.
-/

namespace HtmlWalk

open Json

/-- The options by name. -/
inductive OptionName
  | sourceLines
  | scripting
  | exactErrors
deriving DecidableEq

namespace OptionName

/-- All options, in their order in a list. -/
def all : List OptionName := [sourceLines, scripting, exactErrors]

/-- The name of an option in an object. -/
def key : OptionName → String
  | sourceLines => "sourceCodeLocationInfo"
  | scripting => "scriptingEnabled"
  | exactErrors => "exactErrors"

/-- The option of that name. -/
def ofKey? (key : String) : Option OptionName := all.find? (·.key == key)

end OptionName

namespace ParseOptions

/-- The options with one of them set. -/
def set (o : ParseOptions) (name : OptionName) (value : Bool) : ParseOptions :=
  match name with
  | .sourceLines => { o with sourceLines := value }
  | .scripting => { o with scripting := value }
  | .exactErrors => { o with exactErrors := value }

/-- Say whether nodes carry the lines on which they start. -/
def withSourceLines (o : ParseOptions) (value : Bool) : ParseOptions := o.set .sourceLines value

/-- The options that have been given so far, by name. -/
structure Given where
  /-- The options. -/
  options : ParseOptions := {}
  /-- The names of those that were given. -/
  names : List OptionName := []

/-- Read a member after its opening mark. -/
def readMember (g : Given) (cs : List Char) : Except Stop (Taken Given) := do
  let (key, rest) ← readString [] cs
  match OptionName.ofKey? key with
  | some name =>
    if g.names.contains name then throw (.duplicate key)
    let rest ← skipChar ':' (skipBlanks rest)
    let (value, rest) ← readBool rest
    return (⟨g.options.set name value, name :: g.names⟩, rest)
  | none =>
    let rest ← skipChar ':' (skipBlanks rest)
    return (g, ← skipValue rest)

/-- Read the members that follow another one, so many at most. -/
def readMembers : Nat → Given → List Char → Except Stop (Taken Given)
  | 0, _, _ => .error .malformed
  | n + 1, g, cs =>
    match skipBlanks cs with
    | '\x7d' :: rest => .ok (g, rest)
    | ',' :: rest =>
      match skipChar '"' (skipBlanks rest) with
      | .error stop => .error stop
      | .ok rest =>
        match readMember g rest with
        | .error stop => .error stop
        | .ok (g, rest) => readMembers n g rest
    | cs => .error (stopAt cs)

/-- Read an object after its opening brace. -/
def readObject (cs : List Char) : Except Stop (Taken Given) :=
  match skipBlanks cs with
  | '\x7d' :: rest => .ok ({}, rest)
  | '"' :: rest => do
    let (g, rest) ← readMember {} rest
    readMembers (rest.length + 1) g rest
  | cs => .error (stopAt cs)

/-- Read the values of a list after one of them: those of the options that are still to come. -/
def readItems (o : ParseOptions) : List OptionName → List Char → Except Stop (Taken ParseOptions)
  | names, cs =>
    match skipBlanks cs with
    | ']' :: rest => .ok (o, rest)
    | ',' :: rest =>
      match names, skipBlanks rest with
      | [], _ => .error .malformed
      | _, ']' :: _ => .error .malformed
      | name :: names, rest =>
        match readBool rest with
        | .error stop => .error stop
        | .ok (value, rest) => readItems (o.set name value) names rest
    | cs => .error (stopAt cs)

/-- Read a list after its opening bracket. -/
def readList (cs : List Char) : Except Stop (Taken ParseOptions) :=
  match skipBlanks cs with
  | ']' :: rest => .ok ({}, rest)
  | [] => .error .ended
  | cs => do
    let (value, rest) ← readBool cs
    readItems (ParseOptions.set {} .sourceLines value) [.scripting, .exactErrors] rest

/-- Read options from a JSON text. -/
def ofJson (text : String) : Except Stop ParseOptions := do
  let (options, rest) ← match skipBlanks text.toList with
    | '\x7b' :: rest => (readObject rest).map fun (g, rest) => (g.options, rest)
    | '[' :: rest => readList rest
    | cs => .error (mismatch "struct ParseOptions" cs)
  if (skipBlanks rest).isEmpty then return options else throw .malformed

end ParseOptions

end HtmlWalk
