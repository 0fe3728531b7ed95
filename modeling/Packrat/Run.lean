import Packrat.Parser.Matching

/-!
Calls of an engine from outside. A run holds the answer, the engine to use for the next call,
and the journal of the call from its first event to its last.
-/
namespace Packrat

variable {S : Type} {V : S → Type} {g : Grammar S V} {α : Type}

structure Run (g : Grammar S V) (α : Type) where
  answer : Except Halt α
  engine : Engine g
  journal : List (Event S)

namespace Run

def reports (r : Run g α) : List Report := r.journal.filterMap (Event.report? g.name)

/-- How many declarations were built. -/
def builds (r : Run g α) : Nat := r.journal.countP Event.isBuilt

/-- How many times a matcher was run. -/
def consultations (r : Run g α) : Nat := r.journal.countP Event.isConsulted

/-- Whether two runs came to the same answer. -/
def sameAnswer [BEq α] (r t : Run g α) : Bool :=
  match r.answer, t.answer with
  | .ok a, .ok b => a == b
  | .error a, .error b => decide (a = b)
  | _, _ => false

end Run

def Parser.runOn (p : Parser g α) (e : Engine g) : Run g α :=
  match p { engine := e } with
  | .ok a w => ⟨.ok a, w.engine, w.journal.reverse⟩
  | .error halt w => ⟨.error halt, w.engine, w.journal.reverse⟩

namespace Engine

variable [DecidableEq S]

/-- Attempts to match `s` at the cursor. -/
def parseOne (e : Engine g) (s : S) (c : Cursor) : Run g (Outcome (V s)) :=
  (Parser.parse s c).runOn e

/-- Matches `s` against all that the cursor has left. -/
def parseComplete (e : Engine g) (s : S) (c : Cursor) : Run g (V s) :=
  (Parser.parseAll s c).runOn e

end Engine

end Packrat
