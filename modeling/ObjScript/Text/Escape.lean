/-!
# Line break escapes

A string of the language keeps the two characters `\n` as they were written.  They become a line feed
when the text is output (`expandBreaks`).
-/

namespace ObjScript.Text

/-- Every `\n` escape becomes a line feed; all else stays. -/
def expandBreakChars : List Char → List Char
  | '\\' :: 'n' :: rest => '\n' :: expandBreakChars rest
  | c :: rest => c :: expandBreakChars rest
  | [] => []

/-- The text with its `\n` escapes turned into line feeds. -/
def expandBreaks (s : String) : String :=
  String.ofList (expandBreakChars s.toList)

end ObjScript.Text
