import Packrat.Cursor
import Packrat.Error

/-!
What an engine does, step by step. Every step is an event; those that are of use to the author
of a grammar can be reported as text, the others only let runs be counted and compared.
-/
namespace Packrat

/-- Why a run ends without an outcome. -/
inductive Halt where
  | failure (error : Error)
  /-- A symbol led back to itself before any token was consumed. -/
  | leftRecursion
deriving DecidableEq

inductive Event (S : Type) where
  /-- Another input than before: the table is dropped, with so many outcomes in it. -/
  | newInput (remembered : Nat)
  /-- A symbol was called for with so many tokens left. -/
  | called (s : S) (left : Nat)
  | built (s : S)
  /-- The declaration just built is valid and from now on known to the engine. -/
  | registered (s : S)
  /-- The table had no answer, so the shape is matched. -/
  | evaluated (s : S) (left : Nat)
  | alternation (s : S) (c : Cursor)
  | chose (s alternative : S)
  /-- The matcher of a terminal was run. -/
  | consulted (s : S) (left : Nat)
  | sequence (s : S) (c : Cursor)
  /-- The component of this slot was absent, and has no label. -/
  | missed (s : S) (slot : String)
  | repetition (element : S) (count : Nat)
  | delimited (element : S) (count : Nat)
  /-- The assembler was run, and may have refused. -/
  | assembled (s : S) (refusal : Option Error)
  /-- The evaluation came to an outcome. -/
  | settled (s : S) (left : Nat)
  /-- The call ended without an outcome. -/
  | failed (s : S) (left : Nat) (halt : Halt)
deriving DecidableEq

inductive Level where
  | debug
  | trace
deriving DecidableEq

def Level.label : Level → String
  | debug => "DEBUG"
  | trace => "TRACE"

structure Report where
  level : Level
  message : String
  fields : List (String × String)
deriving DecidableEq

namespace Event

variable {S : Type}

/-- The report of an event, if it has one, with symbols shown by name. -/
def report? (name : S → String) : Event S → Option Report
  | newInput remembered =>
    some ⟨.debug, "new input, dropping memo table", [("remembered", toString remembered)]⟩
  | registered s => some ⟨.debug, "registered", [("shape", name s)]⟩
  | alternation s c => some ⟨.trace, "alternation", [("shape", name s), ("at", c.preview)]⟩
  | chose s alternative =>
    some ⟨.trace, "alternation matched", [("shape", name s), ("chose", name alternative)]⟩
  | sequence s c => some ⟨.trace, "sequence", [("shape", name s), ("at", c.preview)]⟩
  | missed s slot => some ⟨.trace, "sequence failed", [("shape", name s), ("slot", slot)]⟩
  | repetition element count =>
    some ⟨.trace, "repetition", [("element", name element), ("count", toString count)]⟩
  | delimited element count =>
    some ⟨.trace, "delimited list", [("element", name element), ("count", toString count)]⟩
  | called _ _ | built _ | evaluated _ _ | consulted _ _ | assembled _ _ | settled _ _
  | failed _ _ _ => none

def isBuilt : Event S → Bool
  | built _ => true
  | _ => false

def isConsulted : Event S → Bool
  | consulted _ _ => true
  | _ => false

end Event

end Packrat
