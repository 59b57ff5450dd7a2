import ObjScript.Names
import ObjScript.Token

/-!
# Class names

A name is cut out of the source as a plain identifier.  It is a class name when it is a foundation
class, when it is known as a class already, or when some place of the token list says so: after
`interface` or `implementation`, or before `*` `)`.  `classNames` collects these names and `markClasses`
marks all their occurrences.
-/

namespace ObjScript

/-- Names that are class names in every source. -/
def foundationClasses : List String :=
  ["NSString", "NSInteger", "NSObject", "NSArray", "NSMutableString"]

/-- The kinds after which an identifier names a class. -/
def Kind.introducesClass : Kind → Bool
  | .keyword .interface | .keyword .implementation => true
  | _ => false

/-- The first of these tokens stand for the end of a pointer cast. -/
def endsPointerCast : List Token → Bool
  | star :: rpar :: _ => star.is (.symbol .star) && rpar.is (.symbol .rpar)
  | _ => false

/-- The identifiers that a place in the list shows to be class names.  The first and the last token are
never judged. -/
def namesInContext : List Token → List String
  | before :: name :: next :: rest =>
    let later := namesInContext (name :: next :: rest)
    if name.is .ident && (before.kind.introducesClass || endsPointerCast (next :: rest)) then
      name.text :: later
    else later
  | _ => []

/-- The texts of the tokens marked as class names. -/
def markedClasses (tokens : List Token) : List String :=
  (tokens.filter (·.is .classIdent)).map (·.text)

/-- All names that are class names for this list, given the names known before. -/
def classNames (known : Names) (tokens : List Token) : Names :=
  known.addAll (foundationClasses ++ markedClasses tokens ++ namesInContext tokens)

/-- Marks an identifier that is one of the names. -/
def Token.markClass (names : Names) (t : Token) : Token :=
  if t.is .ident && names.contains t.text then { t with kind := .classIdent } else t

/-- Marks the class names in a token list. -/
def markClasses (known : Names) (tokens : List Token) : List Token :=
  let names := classNames known tokens
  tokens.map (·.markClass names)

end ObjScript
