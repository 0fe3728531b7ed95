import Packrat.Grammar
import Packrat.Sample.Value

/-!
A grammar whose values are typed: sums in parentheses, pairs and lists of such things, and two
symbols with assemblers that ask for the wrong slot and for the wrong type.
-/
namespace Packrat.Sample

inductive Symbol where
  | num
  | ident
  | term
  | paren
  | tail
  | expr
  | pairNumIdent
  | pairNumTerm
  | pairExprPair
  | listingNum
  | listingExpr
  | pairIdentListing
  | listingPair
  | wrongSlot
  | wrongType
deriving DecidableEq

/-- The values of a symbol. -/
abbrev Value : Symbol → Type
  | .num => Number
  | .ident => Identifier
  | .term => Term
  | .paren => Paren
  | .tail => Tail
  | .expr => Expr
  | .pairNumIdent => Number × Identifier
  | .pairNumTerm => Number × Term
  | .pairExprPair => Expr × (Number × Term)
  | .listingNum => List Number
  | .listingExpr => List Expr
  | .pairIdentListing => Identifier × List Number
  | .listingPair => List (Identifier × List Number)
  | .wrongSlot => Number
  | .wrongType => Empty

namespace Symbol

def all : List Symbol :=
  [num, ident, term, paren, tail, expr, pairNumIdent, pairNumTerm, pairExprPair, listingNum,
    listingExpr, pairIdentListing, listingPair, wrongSlot, wrongType]

theorem mem_all (s : Symbol) : s ∈ all := by cases s <;> decide

def typeName : Symbol → String
  | num => "Num"
  | ident => "Ident"
  | term => "Term"
  | paren => "Paren"
  | tail => "Tail"
  | expr => "Expr"
  | pairNumIdent => "Pair<Num, Ident>"
  | pairNumTerm => "Pair<Num, Term>"
  | pairExprPair => "Pair<Expr, Pair<Num, Term>>"
  | listingNum => "Listing<Num>"
  | listingExpr => "Listing<Expr>"
  | pairIdentListing => "Pair<Ident, Listing<Num>>"
  | listingPair => "Listing<Pair<Ident, Listing<Num>>>"
  | wrongSlot => "WrongSlot"
  | wrongType => "WrongType"

end Symbol

def take (slot : String) (type : SlotType Symbol) : Assembler Value (type.Value Value) :=
  Fields.take slot type

def termShape : Shape Value Term :=
  .alternation [⟨.num, .number⟩, ⟨.ident, .identifier⟩, ⟨.paren, .paren⟩]

def parenShape : Shape Value Paren :=
  .sequence {
    components := [
      .keyword "open" 0 "(",
      (Component.required "inner" 1 .expr).labeled "expected expression after `(`",
      (Component.keyword "close" 2 ")").labeled "expected `)`"]
    assemble := do
      let inner ← take "inner" (.one .expr)
      pure ⟨inner⟩ }

def plus : String := "+"

def tailShape : Shape Value Tail :=
  .sequence {
    components := [
      .keyword "op" 0 plus,
      (Component.required "term" 1 .term).labeled "expected term after `+`"]
    assemble := do
      let op ← take "op" .word
      let term ← take "term" (.one .term)
      pure ⟨op, term⟩ }

def exprShape : Shape Value Expr :=
  .sequence {
    components := [.required "first" 0 .term, .zeroOrMore "rest" 1 .tail]
    assemble := do
      let first ← take "first" (.one .term)
      let rest ← take "rest" (.many .tail)
      pure ⟨first, rest⟩ }

def pairShape (a b : Symbol) : Shape Value (Value a × Value b) :=
  .sequence {
    components := [
      .required "a" 0 a,
      .keyword "comma" 1 ",",
      (Component.required "b" 2 b).labeled "expected second"]
    assemble := do
      let x ← take "a" (.one a)
      let y ← take "b" (.one b)
      pure (x, y) }

def listingShape (a : Symbol) : Shape Value (List (Value a)) :=
  .sequence {
    components := [(Component.delimited "items" 0 a ";").trailingAllowed true]
    assemble := take "items" (.many a) }

def wrongSlotShape : Shape Value Number :=
  .sequence {
    components := [.required "num" 0 .num]
    assemble := take "nmu" (.one .num) }

def wrongTypeShape : Shape Value Empty :=
  .sequence {
    components := [.required "num" 0 .num]
    assemble := take "num" (.foreign "Vec<Pair<Num, Listing<Ident>>>") }

def grammar : Grammar Symbol Value where
  symbols := Symbol.all
  mem_symbols := Symbol.mem_all
  typeName := Symbol.typeName
  shape
    | .num => .terminal Number.ofText?
    | .ident => .terminal Identifier.ofText?
    | .term => termShape
    | .paren => parenShape
    | .tail => tailShape
    | .expr => exprShape
    | .pairNumIdent => pairShape .num .ident
    | .pairNumTerm => pairShape .num .term
    | .pairExprPair => pairShape .expr .pairNumTerm
    | .listingNum => listingShape .num
    | .listingExpr => listingShape .expr
    | .pairIdentListing => pairShape .ident .listingNum
    | .listingPair => listingShape .pairIdentListing
    | .wrongSlot => wrongSlotShape
    | .wrongType => wrongTypeShape

/-- The symbol with a name. -/
def symbol? (name : String) : Option Symbol :=
  Symbol.all.find? fun s => grammar.name s == name

end Packrat.Sample
