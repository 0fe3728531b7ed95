/-!
Tokens as a tokenizer hands them over. A token without text marks the end of its source; it
may also be stored among the others, where it matches nothing.
-/
namespace Packrat

structure Token where
  source : String
  /-- Absent for a token that marks the end of its source. -/
  text : Option String
  line : Nat
  column : Nat
deriving DecidableEq

namespace Token

def endOf (source : String) : Token := ⟨source, none, 0, 0⟩

def isEnd (t : Token) : Bool := t.text.isNone

/-- The token with `c` added to its text. An end token becomes a real one in place. -/
def append (t : Token) (c : Char) : Token :=
  { t with text := some ((t.text.getD "").push c) }

def describe (t : Token) : String :=
  match t.text with
  | some text =>
    "`" ++ text ++ "` at line " ++ toString t.line ++ ", column " ++ toString t.column ++
      " in " ++ t.source
  | none => "end of " ++ t.source

end Token

end Packrat
