/-!
# Tokens

The alphabet of the language: symbols, keywords, `#` directives, literals and names.  Each kind has a
name that error messages use, and symbols, keywords and directives have a spelling.
-/

namespace ObjScript

/-- A place in the source; lines and columns count from 1. -/
structure Pos where
  line : Nat
  column : Nat
deriving DecidableEq, Repr, Inhabited

/-- Operators and punctuation. -/
inductive Symbol where
  | plus | assign | semi | bang | slash | lpar | rpar | lbrace | rbrace | dot | comma | lt | gt
  | lsqb | rsqb | star | minus | amp | pipe | qmark | colon | atSign | mod | underline | caret
  | eq | neq | lte | gte | and | or | plusEq | incr | arrayStart
deriving DecidableEq, Repr

namespace Symbol

/-- How the symbol is written. -/
def text : Symbol → String
  | plus => "+" | assign => "=" | semi => ";" | bang => "!" | slash => "/" | lpar => "("
  | rpar => ")" | lbrace => "\x7b" | rbrace => "\x7d" | dot => "." | comma => "," | lt => "<"
  | gt => ">" | lsqb => "[" | rsqb => "]" | star => "*" | minus => "-" | amp => "&" | pipe => "|"
  | qmark => "?" | colon => ":" | atSign => "@" | mod => "%" | underline => "_" | caret => "^"
  | eq => "==" | neq => "!=" | lte => "<=" | gte => ">=" | and => "&&" | or => "||"
  | plusEq => "+=" | incr => "++" | arrayStart => "@["

/-- What messages call the symbol. -/
def name : Symbol → String
  | plus => "PLUS" | assign => "ASSIGN" | semi => "SEMI" | bang => "BANG" | slash => "SLASH"
  | lpar => "LPAR" | rpar => "RPAR" | lbrace => "LBRACE" | rbrace => "RBRACE" | dot => "DOT"
  | comma => "COMMA" | lt => "LT" | gt => "GT" | lsqb => "LSQB" | rsqb => "RSQB" | star => "STAR"
  | minus => "MINUS" | amp => "AMP" | pipe => "PIPE" | qmark => "QMARK" | colon => "COLON"
  | atSign => "AT" | mod => "MOD" | underline => "UNDERLINE" | caret => "CARET" | eq => "EQ"
  | neq => "NEQ" | lte => "LTE" | gte => "GTE" | and => "AND" | or => "OR" | plusEq => "PLUSEQ"
  | incr => "INCR" | arrayStart => "ARRAY_START"

end Symbol

/-- Reserved words; an `@` before them makes no difference. -/
inductive Keyword where
  | intType | boolType | voidType | stringType | idType
  | ifWord | elseWord | returnWord | whileWord | forWord | printWord | typedefWord
  | interface | implementation | property | endWord
  | yes | no | nil | selfWord | superWord | weak
deriving DecidableEq, Repr

namespace Keyword

/-- All reserved words. -/
def all : List Keyword :=
  [intType, boolType, voidType, stringType, idType, ifWord, elseWord, returnWord, whileWord, forWord,
   printWord, typedefWord, interface, implementation, property, endWord, yes, no, nil, selfWord,
   superWord, weak]

/-- How the word is written. -/
def text : Keyword → String
  | intType => "int" | boolType => "BOOL" | voidType => "void" | stringType => "string"
  | idType => "id" | ifWord => "if" | elseWord => "else" | returnWord => "return"
  | whileWord => "while" | forWord => "for" | printWord => "print" | typedefWord => "typedef"
  | interface => "interface" | implementation => "implementation" | property => "property"
  | endWord => "end" | yes => "YES" | no => "NO" | nil => "nil" | selfWord => "self"
  | superWord => "super" | weak => "weak"

/-- What messages call the word. -/
def name : Keyword → String
  | intType => "INT" | boolType => "BOOL" | voidType => "VOID" | stringType => "STRING_TYPE"
  | idType => "ID" | ifWord => "IF" | elseWord => "ELSE" | returnWord => "RETURN"
  | whileWord => "WHILE" | forWord => "FOR" | printWord => "PRINT" | typedefWord => "TYPEDEF"
  | interface => "INTERFACE" | implementation => "IMPLEMENTATION" | property => "PROPERTY"
  | endWord => "END" | yes => "YES" | no => "NO" | nil => "NIL" | selfWord => "SELF"
  | superWord => "SUPER" | weak => "WEAK"

/-- The reserved word with this spelling. -/
def ofText? (s : String) : Option Keyword :=
  all.find? (·.text = s)

end Keyword

/-- Words that may follow a `#`. -/
inductive Directive where
  | includeFile | define | undef | ifdef | elseBranch | endif | elseif | pragma | error | warning
  | importFile
deriving DecidableEq, Repr

namespace Directive

/-- All directives. -/
def all : List Directive :=
  [includeFile, define, undef, ifdef, elseBranch, endif, elseif, pragma, error, warning, importFile]

/-- How the directive is written after its `#`. -/
def text : Directive → String
  | includeFile => "include" | define => "define" | undef => "undef" | ifdef => "ifdef"
  | elseBranch => "else" | endif => "endif" | elseif => "elseif" | pragma => "pragma"
  | error => "error" | warning => "warning" | importFile => "import"

/-- What messages call the directive. -/
def name : Directive → String
  | includeFile => "PP_INCLUDE" | define => "PP_DEFINE" | undef => "PP_UNDEF" | ifdef => "PP_IFDEF"
  | elseBranch => "PP_ELSE" | endif => "PP_ENDIF" | elseif => "PP_ELSEIF" | pragma => "PP_PRAGMA"
  | error => "PP_ERROR" | warning => "PP_WARNING" | importFile => "PP_IMPORT"

/-- The directive with this spelling. -/
def ofText? (s : String) : Option Directive :=
  all.find? (·.text = s)

end Directive

/-- The kind of a token. -/
inductive Kind where
  | symbol (s : Symbol)
  | number
  | string
  | ident
  | classIdent
  | keyword (k : Keyword)
  | directive (d : Directive)
  | eof
deriving DecidableEq, Repr

namespace Kind

/-- What messages call the kind. -/
def name : Kind → String
  | symbol s => s.name
  | number => "NUMBER"
  | string => "STRING"
  | ident => "IDENT"
  | classIdent => "CLASS_IDENT"
  | keyword k => k.name
  | directive d => d.name
  | eof => "EOF"

/-- Kinds that may open a type in a declaration. -/
def opensType : Kind → Bool
  | keyword .intType | keyword .boolType | keyword .voidType | keyword .stringType
  | keyword .idType | classIdent => true
  | _ => false

end Kind

/-- A token and where it starts.  The text of a string is its body and the text of a directive leaves
out the `#`. -/
structure Token where
  kind : Kind
  text : String
  pos : Pos
deriving DecidableEq, Repr

/-- The token has the given kind. -/
def Token.is (t : Token) (k : Kind) : Bool :=
  t.kind = k

end ObjScript
