import Packrat.Shape

/-!
Grammars: finitely many symbols, each with a name, a type of values and a shape. The symbols
that a symbol leads to are listed breadth first, alternatives as declared and components in the
order of attempts, each symbol once.
-/
namespace Packrat

structure Grammar (S : Type) (V : S → Type) where
  symbols : List S
  mem_symbols : ∀ s, s ∈ symbols
  /-- The full name of the type of values, as errors about slots mention it. -/
  typeName : S → String
  /-- The name in printed grammars and in errors. -/
  name : S → String := fun s => Name.unqualified (typeName s)
  shape : (s : S) → Shape V (V s)

namespace Grammar

variable {S : Type} {V : S → Type}

def checked (g : Grammar S V) (s : S) : Except Error (Shape V (V s)) :=
  (g.shape s).checked (g.name s)

/-- Whether the declaration of a symbol can be used. -/
def isValid (g : Grammar S V) (s : S) : Bool := (g.shape s).flaw?.isNone

def references (g : Grammar S V) (s : S) : List S := (g.shape s).inOrder.references

variable [DecidableEq S]

/-- The first mentions among some symbols of those not seen before. -/
def fresh (seen : List S) : List S → List S
  | [] => []
  | s :: rest => if s ∈ seen then fresh seen rest else s :: fresh (s :: seen) rest

/-- Serves the queue for so many rounds; `served` are the symbols that left it, in order. -/
def explore (g : Grammar S V) : Nat → List S → List S → List S
  | 0, served, queue => served ++ queue
  | _ + 1, served, [] => served
  | rounds + 1, served, s :: queue =>
    explore g rounds (served ++ [s])
      (queue ++ fresh (served ++ s :: queue) (g.references s))

/-- The symbols that `root` leads to, breadth first from `root` itself. No symbol is queued
twice, so as many rounds as there are symbols empty the queue. -/
def reachable (g : Grammar S V) (root : S) : List S := g.explore g.symbols.length [] [root]

end Grammar

end Packrat
