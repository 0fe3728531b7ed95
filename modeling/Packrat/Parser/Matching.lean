import Packrat.Parser

/-!
How shapes are matched, with one function for each way in which symbols are called. Each takes
the way to call a symbol as its argument `call`. An absent match is an outcome, and the caller
may try something else; an error ends all that is under way.
-/
namespace Packrat.Parser

variable {S : Type} {V W : S → Type} {g : Grammar S V} {α β : Type}

/-- Tests the text of one token. A token without text is not put to the matcher. -/
def terminal (s : S) (matcher : String → Option α) (c : Cursor) : Parser g (Outcome α) :=
  match c.first.text with
  | none => pure none
  | some text => do
    note (.consulted s c.size)
    pure ((matcher text).map fun value => ⟨c.next, value⟩)

/-- Takes the first alternative of `s` that matches. -/
def alternation (call : Caller g) (s : S) (c : Cursor) :
    List (Alternative V α) → Parser g (Outcome α)
  | [] => pure none
  | a :: rest => do
    match ← call a.symbol c with
    | some m =>
      note (.chose s a.symbol)
      pure (some (m.map a.wrap))
    | none => alternation call s c rest

def keyword (literal : Literal) (c : Cursor) : Option (Match String) :=
  if c.begins literal.text then some ⟨c.next, literal.text⟩ else none

def optional (call : CallerOf g W) (s : S) (c : Cursor) :
    Parser g (Outcome (Option (W s))) := do
  match ← call s c with
  | some m => pure (some (m.map some))
  | none => pure (some ⟨c, none⟩)

/-- As many matches in a row as there are, on a cursor with at most `budget` tokens left. A
match that consumes nothing is kept and ends the row. -/
def items (call : CallerOf g W) (s : S) :
    Nat → Cursor → Parser g (Match (List (W s)))
  | 0, c => pure ⟨c, []⟩
  | budget + 1, c => do
    match ← call s c with
    | none => pure ⟨c, []⟩
    | some m =>
      if m.rest.size = c.size then
        pure ⟨m.rest, [m.value]⟩
      else
        let more ← items call s budget m.rest
        pure (more.map (m.value :: ·))

def repetition (call : CallerOf g W) (s : S) (least : Nat) (c : Cursor) :
    Parser g (Outcome (List (W s))) := do
  let m ← items call s c.size c
  note (.repetition s m.value.length)
  pure (if m.value.length < least then none else some m)

/-- The items of a delimited list. The list is left open if it ended where an item was missing:
at its start, or after a delimiter that has been consumed. -/
structure Listing (α : Type) where
  items : List α
  isOpen : Bool

def Listing.map (f : α → β) (l : Listing α) : Listing β := ⟨l.items.map f, l.isOpen⟩

/-- Whether a list with these items is acceptable under the flags. -/
def Listing.accepted (l : Listing α) (trailing empty : Bool) : Bool :=
  if l.items.isEmpty then empty else !l.isOpen || trailing

/-- Items with one delimiter between neighbours, on a cursor with at most `budget` tokens left. -/
def listing (call : CallerOf g W) (s : S) (delimiter : Literal) :
    Nat → Cursor → Parser g (Match (Listing (W s)))
  | 0, c => pure ⟨c, [], true⟩
  | budget + 1, c => do
    match ← call s c with
    | none => pure ⟨c, [], true⟩
    | some m =>
      if m.rest.begins delimiter.text then
        let more ← listing call s delimiter budget m.rest.next
        pure (more.map fun l => ⟨m.value :: l.items, l.isOpen⟩)
      else
        pure ⟨m.rest, [m.value], false⟩

def delimited (call : CallerOf g W) (s : S) (delimiter : Literal)
    (trailing empty : Bool) (c : Cursor) : Parser g (Outcome (List (W s))) := do
  let m ← listing call s delimiter c.size c
  if m.value.accepted trailing empty then
    note (.delimited s m.value.items.length)
    pure (some (m.map Listing.items))
  else
    pure none

/-- Matches what a policy asks for; the value is one for the slot of its component. Since a policy
that asks for an element names it, there is always one to take. -/
def component (call : Caller g) (c : Cursor) :
    (p : Policy S) → Parser g (Outcome (p.slotType.Value V))
  | .keyword literal => pure (keyword literal c)
  | .element s .required => call s c
  | .element s .optional => optional call s c
  | .element s .oneOrMore => repetition call s 1 c
  | .element s .zeroOrMore => repetition call s 0 c
  | .element s (.delimited delimiter trailing empty) => delimited call s delimiter trailing empty c

/-- Attempts the components of `s` one after the other and collects what they fill. -/
def components (call : Caller g) (s : S) :
    List (Component S) → Cursor → Fields V → Parser g (Outcome (Fields V))
  | [], c, fields => pure (some ⟨c, fields⟩)
  | d :: rest, c, fields => do
    match ← component call c d.policy with
    | some m => components call s rest m.rest (fields.insert d.slot ⟨_, m.value⟩)
    | none =>
      match d.label with
      | some label => fail (.parse label c.first)
      | none =>
        note (.missed s d.slot)
        pure none

/-- Runs an assembler; its refusal is an error. -/
def assemble (s : S) (assembler : Assembler V α) (m : Match (Fields V)) : Parser g (Outcome α) :=
  match assembler m.value with
  | .ok value _ => do
    note (.assembled s none)
    pure (some ⟨m.rest, value⟩)
  | .error error _ => do
    note (.assembled s (some error))
    fail error

/-- Matches the shape of `s`, which must have been checked. -/
def evaluate (call : Caller g) (s : S) (c : Cursor) :
    Shape V (V s) → Parser g (Outcome (V s))
  | .terminal matcher => terminal s matcher c
  | .alternation alternatives => do
    note (.alternation s c)
    alternation call s c alternatives
  | .sequence seq => do
    note (.sequence s c)
    match ← components call s seq.components c ⟨g.name s, g.typeName, []⟩ with
    | some m => assemble s seq.assemble m
    | none => pure none

variable [DecidableEq S]

/-- A call of `s` where tokens are left: looked up first, evaluated if need be, remembered. -/
def invoke (call : Caller g) (s : S) (c : Cursor) :
    Parser g (Outcome (V s)) := do
  observe c
  note (.called s c.size)
  notingFailure (.failed s c.size) do
    match ← lookUp s c.size with
    | some outcome => pure outcome
    | none =>
      let shape ← shapeOf s
      note (.evaluated s c.size)
      let outcome ← evaluate call s c shape
      remember s c.size outcome
      note (.settled s c.size)
      pure outcome

/-- Calls `s` with calls nested at most `depth` deep. Nothing matches where the input is used
up, not even a symbol that could match without consuming. -/
def call : Nat → Caller g
  | 0, _, c => if c.atEnd then pure none else throw .leftRecursion
  | depth + 1, s, c => if c.atEnd then pure none else invoke (call depth) s c

/-- Calls `s`. Calls nested deeper than one for each symbol and place must have met a symbol
twice at one place, and would go on doing so. -/
def parse (s : S) (c : Cursor) : Parser g (Outcome (V s)) := call (g.symbols.length * c.size) s c

/-- Calls `s` and asks for a match that leaves nothing. -/
def parseAll (s : S) (c : Cursor) : Parser g (V s) := do
  match ← parse s c with
  | none => fail (.parse ("expected " ++ g.name s) c.first)
  | some m =>
    if m.rest.atEnd then pure m.value
    else fail (.parse "unexpected trailing input" m.rest.first)

end Packrat.Parser
