import ObjScript.Parser.Grammar

/-!
# Types

A type is a type name, perhaps with a `*`, perhaps followed by the shape of a block: `(^name)(params)`.
The return type of a block may itself be a block, as in `int (^(^make)(int))(int)`.

Every `(^` opens a block and every `)` with a parameter list closes the innermost open one.  The block
opened first describes the innermost return type.
-/

namespace ObjScript.Parse

/-- The name of a type, if the next token is one. -/
def typeName? : Parse (Option Token) := do
  let c ← get
  accept? fun kind =>
    kind.opensType || (kind = .ident && c.typedefs.contains c.current.text)

/-- A block type begins here. -/
def opensBlockType : Parse Bool := do
  let c ← get
  return c.current.is (.symbol .lpar) && c.second.is (.symbol .caret)

/-- The name and the parameters of a block type. -/
structure BlockHead where
  name : Option Name
  params : List TypeExpr

/-- The blocks of a nested type in the order of their opening, and the places of those that are still
open, the innermost first. -/
structure BlockHeads where
  heads : List BlockHead
  pending : List Nat

namespace BlockHeads

/-- Opens a block inside the others. -/
def opened (b : BlockHeads) : BlockHeads :=
  ⟨b.heads ++ [⟨none, []⟩], b.heads.length :: b.pending⟩

/-- Closes the innermost block. -/
def closed (b : BlockHeads) (head : BlockHead) : BlockHeads :=
  match b.pending with
  | [] => b
  | i :: outer => ⟨b.heads.set i head, outer⟩

/-- Leaves the blocks that are still open as they are. -/
def abandoned (b : BlockHeads) : BlockHeads :=
  ⟨b.heads, []⟩

/-- The type with `base` as its innermost return type. -/
def type (b : BlockHeads) (base : TypeExpr) : TypeExpr :=
  b.heads.foldl (fun returns h => .block returns h.name h.params) base

end BlockHeads

/-- Types with commas between them; places without a type are passed over. -/
def typeList (g : Grammar) : Parse (List TypeExpr) := do
  return (← commaSeparated g.type?).filterMap id

/-- Reads up to the end of one parameter list of a block type. -/
def blockHead? (g : Grammar) (blocks : BlockHeads) : Parse (Option BlockHeads) := do
  if blocks.pending.isEmpty || (← hadError) then
    return none
  else
    let blocks ← if ← opensBlockType then do
        let _ ← advance
        let _ ← advance
        pure blocks.opened
      else pure blocks
    let name ← accept? (· = .ident)
    if ← accept (.symbol .rpar) then
      let _ ← expect (.symbol .lpar)
      let params ← typeList g
      let _ ← expect (.symbol .rpar)
      return some (blocks.closed ⟨name.map Token.toName, params⟩)
    else
      fail .malformedBlockType
      return some blocks.abandoned

/-- The shape of a block after its innermost return type. -/
def blockType (g : Grammar) (base : TypeExpr) : Parse TypeExpr := do
  let _ ← expect (.symbol .lpar)
  let _ ← expect (.symbol .caret)
  let blocks ← extend (BlockHeads.opened ⟨[], []⟩) (blockHead? g)
  return blocks.type base

/-- A type, if one begins here. -/
def type? (g : Grammar) : Parse (Option TypeExpr) := do
  match ← typeName? with
  | none => return none
  | some name =>
    let _ ← accept (.symbol .star)
    if ← opensBlockType then
      return some (← blockType g (.named name))
    else
      return some (.named name)

end ObjScript.Parse
