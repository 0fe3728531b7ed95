import Packrat.Grammar
import Packrat.Table

/-!
Engines. An engine serves one grammar. From one call to the next it keeps the table of the
input it saw last, its counters, and the symbols whose declarations it has found valid.
-/
namespace Packrat

structure Stats where
  hits : Nat := 0
  misses : Nat := 0
  /-- How often the table was dropped because the input changed. -/
  resets : Nat := 0
deriving DecidableEq

variable {S : Type} {V : S → Type}

structure Engine (g : Grammar S V) where
  /-- Turning this off changes no outcome, only how long it takes. -/
  memoize : Bool := true
  table : Option (Table V) := none
  stats : Stats := {}
  registry : List S := []

namespace Engine

variable {g : Grammar S V}

/-- How many outcomes the engine remembers. -/
def remembered (e : Engine g) : Nat := e.table.elim 0 Table.size

/-- The input that the table describes. -/
def input? (e : Engine g) : Option Input := e.table.map Table.input

/-- Starts over with an empty table for another input. -/
def switch (e : Engine g) (input : Input) : Engine g :=
  { e with table := some (.blank input), stats.resets := e.stats.resets + 1 }

variable [DecidableEq S]

def find? (e : Engine g) (s : S) (left : Nat) : Option (Outcome (V s)) :=
  if e.memoize then e.table.bind fun t => t.find? s left else none

/-- Counts a lookup as a hit or as a miss. -/
def count (e : Engine g) (hit : Bool) : Engine g :=
  if !e.memoize then e
  else if hit then { e with stats.hits := e.stats.hits + 1 }
  else { e with stats.misses := e.stats.misses + 1 }

def remember (e : Engine g) (s : S) (left : Nat) (outcome : Outcome (V s)) : Engine g :=
  if e.memoize then { e with table := e.table.map fun t => t.insert s left outcome } else e

def register (e : Engine g) (s : S) : Engine g := { e with registry := s :: e.registry }

end Engine

end Packrat
