import Packrat.Grammar

/-!
Grammars as text, one block a symbol and a blank line between blocks. A block shows what the
symbol is made of, one entry a line under the first; the bars of an alternation stand under the
equals sign. The indent of a line is the size of the head in UTF-8 bytes.
-/
namespace Packrat.Grammar

variable {S : Type} {V : S → Type} {α : Type}

/-- A symbol as it shows itself where no grammar is printed. -/
def tag (g : Grammar S V) (s : S) : String := "shape[" ++ g.name s ++ "]"

def spaces (n : Nat) : String := String.ofList (List.replicate n ' ')

def head (name : String) : String := name ++ " = "

def componentText (g : Grammar S V) (c : Component S) : String :=
  c.policy.symbol?.elim "" g.name ++ c.policy.suffix

/-- The entries of a block, one a line. -/
def entries (g : Grammar S V) : Shape V α → List String
  | .terminal _ => ["...."]
  | .alternation alternatives => alternatives.map fun a => g.name a.symbol
  | .sequence s => s.components.map g.componentText

/-- What stands before each entry but the first. -/
def indent (name : String) : Shape V α → String
  | .alternation _ => spaces ((head name).utf8ByteSize - 2) ++ "| "
  | _ => spaces (head name).utf8ByteSize

def block (g : Grammar S V) (name : String) (shape : Shape V α) : String :=
  head name ++ ("\n" ++ indent name shape).intercalate (g.entries shape)

/-- The block of a symbol, or the error of its declaration. -/
def blockOf (g : Grammar S V) (s : S) : Except Error String :=
  (g.checked s).map (g.block (g.name s))

variable [DecidableEq S]

/-- The text of all that `root` leads to, or the first error on the way. -/
def text (g : Grammar S V) (root : S) : Except Error String := do
  let blocks ← (g.reachable root).mapM g.blockOf
  pure ("\n\n".intercalate blocks)

/-- The symbols whose declarations the text looks at: all up to the first that is invalid. -/
def visited (g : Grammar S V) (root : S) : List S :=
  let order := g.reachable root
  order.take ((order.takeWhile g.isValid).length + 1)

end Packrat.Grammar
