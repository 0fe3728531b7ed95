import Packrat.Lexeme

/-!
Values of a small arithmetic language: sums of terms, where a term is a number, an identifier
or a sum in parentheses. The signs that were read are kept, the parentheses are not.
-/
namespace Packrat.Sample

mutual

inductive Term where
  | number (n : Number)
  | identifier (x : Identifier)
  | paren (p : Paren)

/-- A sum that stood in parentheses. -/
structure Paren where
  inner : Expr

/-- A term to be added, with the sign that was read before it. -/
structure Tail where
  op : String
  term : Term

/-- The sum of one or more terms. -/
structure Expr where
  first : Term
  rest : List Tail

end

end Packrat.Sample
