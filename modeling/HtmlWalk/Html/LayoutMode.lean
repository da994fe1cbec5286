import HtmlWalk.Html.Token
import HtmlWalk.Node

/-!
# The layout mode of a document

Documents that declare an early version of the language, or nothing at all, are laid out in quirks
mode; a few later versions call for limited quirks. The mode is read off the doctype declaration,
whose identifiers are compared without regard to case.
-/

namespace HtmlWalk.Html

/-- The public identifiers that call for quirks mode. -/
def quirkyPublicIds : List String :=
  ["-//w3o//dtd w3 html strict 3.0//en//", "-/w3c/dtd html 4.0 transitional/en", "html"]

/-- The system identifiers that call for quirks mode. -/
def quirkySystemIds : List String :=
  ["http://www.ibm.com/data/dtd/v11/ibmxhtml1-transitional.dtd"]

/-- The beginnings of public identifiers that call for quirks mode. -/
def quirkyBeginnings : List String :=
  ["-//advasoft ltd//dtd html 3.0 aswedit + extensions//",
    "-//as//dtd html 3.0 aswedit + extensions//", "-//ietf//dtd html 2.0 level 1//",
    "-//ietf//dtd html 2.0 level 2//", "-//ietf//dtd html 2.0 strict level 1//",
    "-//ietf//dtd html 2.0 strict level 2//", "-//ietf//dtd html 2.0 strict//",
    "-//ietf//dtd html 2.0//", "-//ietf//dtd html 2.1e//", "-//ietf//dtd html 3.0//",
    "-//ietf//dtd html 3.2 final//", "-//ietf//dtd html 3.2//", "-//ietf//dtd html 3//",
    "-//ietf//dtd html level 0//", "-//ietf//dtd html level 1//", "-//ietf//dtd html level 2//",
    "-//ietf//dtd html level 3//", "-//ietf//dtd html strict level 0//",
    "-//ietf//dtd html strict level 1//", "-//ietf//dtd html strict level 2//",
    "-//ietf//dtd html strict level 3//", "-//ietf//dtd html strict//", "-//ietf//dtd html//",
    "-//metrius//dtd metrius presentational//",
    "-//microsoft//dtd internet explorer 2.0 html strict//",
    "-//microsoft//dtd internet explorer 2.0 html//",
    "-//microsoft//dtd internet explorer 2.0 tables//",
    "-//microsoft//dtd internet explorer 3.0 html strict//",
    "-//microsoft//dtd internet explorer 3.0 html//",
    "-//microsoft//dtd internet explorer 3.0 tables//", "-//netscape comm. corp.//dtd html//",
    "-//netscape comm. corp.//dtd strict html//", "-//o'reilly and associates//dtd html 2.0//",
    "-//o'reilly and associates//dtd html extended 1.0//",
    "-//o'reilly and associates//dtd html extended relaxed 1.0//",
    "-//sq//dtd html 2.0 hotmetal + extensions//",
    "-//softquad software//dtd hotmetal pro 6.0::19990601::extensions to html 4.0//",
    "-//softquad//dtd hotmetal pro 4.0::19971010::extensions to html 4.0//",
    "-//spyglass//dtd html 2.0 extended//", "-//sun microsystems corp.//dtd hotjava html//",
    "-//sun microsystems corp.//dtd hotjava strict html//", "-//w3c//dtd html 3 1995-03-24//",
    "-//w3c//dtd html 3.2 draft//", "-//w3c//dtd html 3.2 final//", "-//w3c//dtd html 3.2//",
    "-//w3c//dtd html 3.2s draft//", "-//w3c//dtd html 4.0 frameset//",
    "-//w3c//dtd html 4.0 transitional//", "-//w3c//dtd html experimental 19960712//",
    "-//w3c//dtd html experimental 970421//", "-//w3c//dtd w3 html//",
    "-//w3o//dtd w3 html 3.0//", "-//webtechs//dtd mozilla html 2.0//",
    "-//webtechs//dtd mozilla html//"]

/-- The beginnings of public identifiers that call for limited quirks. -/
def limitedBeginnings : List String :=
  ["-//w3c//dtd xhtml 1.0 frameset//", "-//w3c//dtd xhtml 1.0 transitional//"]

/-- The beginnings of public identifiers that call for limited quirks, or for quirks mode if there
is no system identifier. -/
def dependentBeginnings : List String :=
  ["-//w3c//dtd html 4.01 frameset//", "-//w3c//dtd html 4.01 transitional//"]

namespace Declaration

/-- The doctype that is declared; what is missing is empty. -/
def doctype (d : Declaration) : Doctype :=
  ⟨d.name.getD "", d.publicId.getD "", d.systemId.getD ""⟩

/-- The layout mode that a declaration calls for. -/
def mode (d : Declaration) : Mode :=
  let lower (s : Option String) := s.map (·.map Char.toLower)
  let publicId := lower d.publicId
  let begins (beginnings : List String) :=
    publicId.any fun id => beginnings.any fun s => s.toList.isPrefixOf id.toList
  if d.malformed || d.name != some "html" then .quirks
  else if publicId.any quirkyPublicIds.contains then .quirks
  else if (lower d.systemId).any quirkySystemIds.contains then .quirks
  else if begins quirkyBeginnings then .quirks
  else if begins limitedBeginnings then .limitedQuirks
  else if begins dependentBeginnings then
    if d.systemId.isNone then .quirks else .limitedQuirks
  else .noQuirks

end Declaration

end HtmlWalk.Html
