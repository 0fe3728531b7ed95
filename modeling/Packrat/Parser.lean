import Packrat.Engine
import Packrat.Event

/-!
Parsers: what an engine does with its state. A parser keeps a journal of its steps. When it
ends early, neither the state that the engine has reached nor the journal is lost.
-/
namespace Packrat

variable {S : Type} {V : S → Type}

/-- An engine at work, with its journal, latest step first. -/
structure Work (g : Grammar S V) where
  engine : Engine g
  journal : List (Event S) := []

abbrev Parser (g : Grammar S V) := EStateM Halt (Work g)

/-- A way to call symbols whose matches have values of the types `W`. -/
abbrev CallerOf (g : Grammar S V) (W : S → Type) := (s : S) → Cursor → Parser g (Outcome (W s))

/-- A way to call symbols. -/
abbrev Caller (g : Grammar S V) := CallerOf g V

namespace Parser

variable {g : Grammar S V} {α : Type}

def note (event : Event S) : Parser g Unit :=
  modify fun w => { w with journal := event :: w.journal }

def changeEngine (f : Engine g → Engine g) : Parser g Unit :=
  modify fun w => { w with engine := f w.engine }

def fail (error : Error) : Parser g α := throw (.failure error)

/-- Notes how `p` ended if it ended without an outcome. -/
def notingFailure (event : Halt → Event S) (p : Parser g α) : Parser g α := fun w =>
  match p w with
  | .ok a w => .ok a w
  | .error halt w => .error halt { w with journal := event halt :: w.journal }

/-- Makes sure that the table describes the input of the cursor. -/
def observe (c : Cursor) : Parser g Unit := do
  let engine := (← get).engine
  unless decide (engine.input? = some c.input) do
    note (.newInput engine.remembered)
    changeEngine (·.switch c.input)

/-- Only another input than before makes a difference. -/
theorem observe_eq (c : Cursor) (w : Work g) :
    observe c w = .ok () (if w.engine.input? = some c.input then w
      else ⟨w.engine.switch c.input, .newInput w.engine.remembered :: w.journal⟩) := by
  change (if decide (w.engine.input? = some c.input) = true then (pure () : Parser g Unit)
    else do note (.newInput w.engine.remembered); changeEngine (·.switch c.input)) w = _
  by_cases h : w.engine.input? = some c.input
  · rw [if_pos (decide_eq_true h), if_pos h]
    rfl
  · rw [if_neg (by simpa using h), if_neg h]
    rfl

variable [DecidableEq S]

/-- The remembered outcome of a symbol with so many tokens left. -/
def lookUp (s : S) (left : Nat) : Parser g (Option (Outcome (V s))) := do
  let found := (← get).engine.find? s left
  changeEngine (·.count found.isSome)
  pure found

def remember (s : S) (left : Nat) (outcome : Outcome (V s)) : Parser g Unit :=
  changeEngine (·.remember s left outcome)

/-- The checked shape of a symbol. A symbol not registered yet is built, and registered if its
declaration is valid. -/
def shapeOf (s : S) : Parser g (Shape V (V s)) := do
  let known := decide (s ∈ (← get).engine.registry)
  unless known do note (.built s)
  match g.checked s with
  | .error error => fail error
  | .ok shape =>
    unless known do
      note (.registered s)
      changeEngine (·.register s)
    pure shape

theorem lookUp_eq (s : S) (left : Nat) (w : Work g) :
    lookUp s left w = .ok (w.engine.find? s left)
      { w with engine := w.engine.count (w.engine.find? s left).isSome } := rfl

/-- A symbol that is known already is not built again; one that is invalid never gets known. -/
theorem shapeOf_eq (s : S) (w : Work g) :
    shapeOf s w =
      match g.checked s with
      | .error error =>
        .error (.failure error) (if s ∈ w.engine.registry then w
          else ⟨w.engine, .built s :: w.journal⟩)
      | .ok shape =>
        .ok shape (if s ∈ w.engine.registry then w
          else ⟨w.engine.register s, .registered s :: .built s :: w.journal⟩) := by
  unfold shapeOf
  cases g.checked s with
  | error error =>
    change (do
      unless decide (s ∈ w.engine.registry) do note (.built s)
      fail error : Parser g (Shape V (V s))) w =
        .error (.failure error) (if s ∈ w.engine.registry then w
          else ⟨w.engine, .built s :: w.journal⟩)
    by_cases h : s ∈ w.engine.registry
    · rw [decide_eq_true h, if_pos h]
      rfl
    · rw [decide_eq_false h, if_neg h]
      rfl
  | ok shape =>
    change (do
      unless decide (s ∈ w.engine.registry) do note (.built s)
      unless decide (s ∈ w.engine.registry) do
        note (.registered s)
        changeEngine (·.register s)
      pure shape : Parser g (Shape V (V s))) w =
        .ok shape (if s ∈ w.engine.registry then w
          else ⟨w.engine.register s, .registered s :: .built s :: w.journal⟩)
    by_cases h : s ∈ w.engine.registry
    · rw [decide_eq_true h, if_pos h]
      rfl
    · rw [decide_eq_false h, if_neg h]
      rfl

end Parser

end Packrat
