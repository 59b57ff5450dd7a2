import ObjScript.Text.Printable

/-!
# Quoted text

A text shown inside a message is put between apostrophes, or between double quotes when it has an
apostrophe and no double quote.  Backslashes, the closing quote and what has no printed form are
escaped, so that the whole stands on one line.
-/

namespace ObjScript.Text

/-- The apostrophe. -/
def apostrophe : Char := '\x27'

/-- The double quote. -/
def doubleQuote : Char := '\x22'

/-- The quote that a text is put between. -/
def quoteFor (s : List Char) : Char :=
  if s.contains apostrophe && !s.contains doubleQuote then doubleQuote else apostrophe

/-- A number in lower-case hexadecimal digits, at least `width` of them. -/
def hex (width n : Nat) : List Char :=
  (Nat.toDigits 16 n).leftpad width '0'

/-- A character without a printed form is written by its code point in two, four or eight digits. -/
def codePointEscape (c : Char) : List Char :=
  if c.toNat < 0x100 then '\\' :: 'x' :: hex 2 c.toNat
  else if c.toNat < 0x10000 then '\\' :: 'u' :: hex 4 c.toNat
  else '\\' :: 'U' :: hex 8 c.toNat

/-- One character of a text between two `quote`s. -/
def quotedChar (quote c : Char) : List Char :=
  if c = quote || c = '\\' then ['\\', c]
  else if c = '\n' then ['\\', 'n']
  else if c = '\r' then ['\\', 'r']
  else if c = '\t' then ['\\', 't']
  else if isPrintable c then [c]
  else codePointEscape c

/-- The text between quotes. -/
def quoted (s : String) : String :=
  let quote := quoteFor s.toList
  String.ofList (quote :: s.toList.flatMap (quotedChar quote) ++ [quote])

end ObjScript.Text
