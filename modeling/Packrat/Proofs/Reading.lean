import Packrat.Parser.Matching
import Packrat.Proofs.Derivation

/-!
What a grammar says about an input, without an engine. A reader gives the outcome of each symbol
at each cursor and keeps no state; the functions here read the parts of a shape through such a
reader. A reading nests calls up to a depth, and is cut short where that depth does not suffice.
-/
namespace Packrat

variable {S : Type} {V : S → Type} {α β : Type}

theorem bind_eq_ok_iff {r : Except Halt α} {f : α → Except Halt β} {b : β} :
    r >>= f = .ok b ↔ ∃ a, r = .ok a ∧ f a = .ok b := by
  cases r with
  | error halt => simp [bind, Except.bind]
  | ok a => simp [bind, Except.bind]

theorem bind_eq_error_iff {r : Except Halt α} {f : α → Except Halt β} {halt : Halt} :
    r >>= f = .error halt ↔ r = .error halt ∨ ∃ a, r = .ok a ∧ f a = .error halt := by
  cases r with
  | error halt => simp [bind, Except.bind]
  | ok a => simp [bind, Except.bind]

/-- A way to read symbols that keeps no state. -/
abbrev Reader (V : S → Type) := (s : S) → Cursor → Except Halt (Outcome (V s))

namespace Reader

def terminal (matcher : String → Option α) (c : Cursor) : Outcome α :=
  (c.first.text.bind matcher).map fun value => ⟨c.next, value⟩

def alternation (read : Reader V) (c : Cursor) :
    List (Alternative V α) → Except Halt (Outcome α)
  | [] => .ok none
  | a :: rest => do
    match ← read a.symbol c with
    | some m => .ok (some (m.map a.wrap))
    | none => alternation read c rest

def optional (read : Reader V) (s : S) (c : Cursor) :
    Except Halt (Outcome (Option (V s))) := do
  match ← read s c with
  | some m => .ok (some (m.map some))
  | none => .ok (some ⟨c, none⟩)

def items (read : Reader V) (s : S) : Nat → Cursor → Except Halt (Match (List (V s)))
  | 0, c => .ok ⟨c, []⟩
  | budget + 1, c => do
    match ← read s c with
    | none => .ok ⟨c, []⟩
    | some m =>
      if m.rest.size = c.size then
        .ok ⟨m.rest, [m.value]⟩
      else
        let more ← items read s budget m.rest
        .ok (more.map (m.value :: ·))

def repetition (read : Reader V) (s : S) (least : Nat) (c : Cursor) :
    Except Halt (Outcome (List (V s))) := do
  let m ← items read s c.size c
  .ok (if m.value.length < least then none else some m)

def listing (read : Reader V) (s : S) (delimiter : Literal) :
    Nat → Cursor → Except Halt (Match (Parser.Listing (V s)))
  | 0, c => .ok ⟨c, [], true⟩
  | budget + 1, c => do
    match ← read s c with
    | none => .ok ⟨c, [], true⟩
    | some m =>
      if m.rest.begins delimiter.text then
        let more ← listing read s delimiter budget m.rest.next
        .ok (more.map fun l => ⟨m.value :: l.items, l.isOpen⟩)
      else
        .ok ⟨m.rest, [m.value], false⟩

def delimited (read : Reader V) (s : S) (delimiter : Literal) (trailing empty : Bool)
    (c : Cursor) : Except Halt (Outcome (List (V s))) := do
  let m ← listing read s delimiter c.size c
  .ok (if m.value.accepted trailing empty then some (m.map Parser.Listing.items) else none)

def component (read : Reader V) (c : Cursor) :
    (p : Policy S) → Except Halt (Outcome (p.slotType.Value V))
  | .keyword literal => .ok (Parser.keyword literal c)
  | .element s .required => read s c
  | .element s .optional => optional read s c
  | .element s .oneOrMore => repetition read s 1 c
  | .element s .zeroOrMore => repetition read s 0 c
  | .element s (.delimited delimiter trailing empty) =>
    delimited read s delimiter trailing empty c

def components (read : Reader V) :
    List (Component S) → Cursor → Fields V → Except Halt (Outcome (Fields V))
  | [], c, fields => .ok (some ⟨c, fields⟩)
  | d :: rest, c, fields => do
    match ← component read c d.policy with
    | some m => components read rest m.rest (fields.insert d.slot ⟨_, m.value⟩)
    | none =>
      match d.label with
      | some label => .error (.failure (.parse label c.first))
      | none => .ok none

def assemble (assembler : Assembler V α) (m : Match (Fields V)) : Except Halt (Outcome α) :=
  match assembler m.value with
  | .ok value _ => .ok (some ⟨m.rest, value⟩)
  | .error error _ => .error (.failure error)

end Reader

namespace Grammar

variable (g : Grammar S V)

/-- The outcome of a checked shape of `s`. -/
def readShape (read : Reader V) (s : S) (c : Cursor) :
    Shape V (V s) → Except Halt (Outcome (V s))
  | .terminal matcher => .ok (Reader.terminal matcher c)
  | .alternation alternatives => Reader.alternation read c alternatives
  | .sequence seq => do
    match ← Reader.components read seq.components c (g.noFields s) with
    | some m => Reader.assemble seq.assemble m
    | none => .ok none

/-- The outcome of `s` where tokens are left. -/
def readSymbol (read : Reader V) (s : S) (c : Cursor) : Except Halt (Outcome (V s)) :=
  match g.checked s with
  | .error error => .error (.failure error)
  | .ok shape => g.readShape read s c shape

/-- Reads with calls nested at most so deep. -/
def read : Nat → Reader V
  | 0, _, c => if c.atEnd then .ok none else .error .leftRecursion
  | depth + 1, s, c => if c.atEnd then .ok none else g.readSymbol (read depth) s c

/-- The outcome of `s` at the cursor, or the reason why there is none. -/
def meaning : Reader V := fun s c => g.read (g.symbols.length * c.size) s c

variable {g}

theorem read_atEnd (depth : Nat) (s : S) {c : Cursor} (h : c.atEnd = true) :
    g.read depth s c = .ok none := by
  cases depth <;> simp [read, h]

theorem read_succ (depth : Nat) (s : S) {c : Cursor} (h : c.atEnd = false) :
    g.read (depth + 1) s c = g.readSymbol (g.read depth) s c := by
  simp [read, h]

theorem meaning_atEnd (s : S) {c : Cursor} (h : c.atEnd = true) : g.meaning s c = .ok none :=
  read_atEnd _ s h

end Grammar

end Packrat
