import Packrat.Cursor

/-!
The memo table of one input. An outcome is kept under its symbol and the number of tokens left,
which fixes the place within the input. Each such number has a cell with the few symbols that
were attempted there.
-/
namespace Packrat

/-- What was read, and where the reading stopped. -/
structure Match (α : Type) where
  rest : Cursor
  value : α
deriving BEq, DecidableEq

def Match.map {α β : Type} (f : α → β) (m : Match α) : Match β := ⟨m.rest, f m.value⟩

@[simp] theorem Match.rest_map {α β : Type} (f : α → β) (m : Match α) :
    (m.map f).rest = m.rest := rfl

@[simp] theorem Match.value_map {α β : Type} (f : α → β) (m : Match α) :
    (m.map f).value = f m.value := rfl

/-- What comes of an attempt that does not fail: a match, or none. -/
abbrev Outcome (α : Type) := Option (Match α)

variable {S : Type} {V : S → Type}

/-- The outcomes at one place. -/
abbrev Cell (V : S → Type) := List ((s : S) × Outcome (V s))

namespace Cell

variable [DecidableEq S]

def find? (s : S) : Cell V → Option (Outcome (V s))
  | [] => none
  | ⟨t, outcome⟩ :: rest => if h : t = s then some (h ▸ outcome) else find? s rest

def insert (s : S) (outcome : Outcome (V s)) (cell : Cell V) : Cell V :=
  ⟨s, outcome⟩ :: cell.filter fun entry => entry.1 != s

theorem find?_insert_self (s : S) (outcome : Outcome (V s)) (cell : Cell V) :
    (cell.insert s outcome).find? s = some outcome := by
  simp [insert, find?]

theorem find?_filter_ne {s t : S} (h : t ≠ s) (cell : Cell V) :
    find? t (cell.filter fun entry => entry.1 != s) = cell.find? t := by
  induction cell with
  | nil => rfl
  | cons entry rest ih =>
    obtain ⟨u, outcome⟩ := entry
    by_cases hu : u = s
    · subst hu
      simp [find?, ih, Ne.symm h]
    · rw [List.filter_cons_of_pos (by simpa using hu)]
      by_cases ht : u = t
      · subst ht
        simp [find?]
      · simp [find?, ht, ih]

theorem find?_insert_ne {s t : S} (h : t ≠ s) (outcome : Outcome (V s)) (cell : Cell V) :
    (cell.insert s outcome).find? t = cell.find? t := by
  simp [insert, find?, Ne.symm h, find?_filter_ne h]

end Cell

structure Table (V : S → Type) where
  input : Input
  cells : Array (Cell V)
  size_cells : cells.size = input.size + 1

namespace Table

def blank (input : Input) : Table V :=
  ⟨input, Array.replicate (input.size + 1) [], Array.size_replicate⟩

def cell (t : Table V) (left : Nat) : Cell V := t.cells[left]?.getD []

/-- How many outcomes the table keeps. -/
def size (t : Table V) : Nat := t.cells.toList.flatten.length

theorem size_blank (input : Input) : (blank input : Table V).size = 0 := by
  simp [size, blank]

variable [DecidableEq S]

def find? (t : Table V) (s : S) (left : Nat) : Option (Outcome (V s)) :=
  (t.cell left).find? s

def insert (t : Table V) (s : S) (left : Nat) (outcome : Outcome (V s)) : Table V where
  input := t.input
  cells := t.cells.modify left (Cell.insert s outcome)
  size_cells := by rw [Array.size_modify, t.size_cells]

theorem find?_blank (input : Input) (s : S) (left : Nat) :
    (blank input : Table V).find? s left = none := by
  simp only [find?, cell, blank, Array.getElem?_replicate]
  split <;> rfl

theorem cell_insert (t : Table V) (s : S) {left : Nat} (h : left ≤ t.input.size)
    (outcome : Outcome (V s)) (n : Nat) :
    (t.insert s left outcome).cell n =
      if n = left then (t.cell n).insert s outcome else t.cell n := by
  have hsize := t.size_cells
  by_cases hn : n = left
  · subst hn
    have hlt : n < t.cells.size := by omega
    simp [cell, insert, Array.getElem_modify, hlt]
  · simp [cell, insert, hn, Array.getElem?_modify, Ne.symm hn]

theorem find?_insert_self (t : Table V) (s : S) {left : Nat} (h : left ≤ t.input.size)
    (outcome : Outcome (V s)) :
    (t.insert s left outcome).find? s left = some outcome := by
  simp [find?, cell_insert t s h, Cell.find?_insert_self]

theorem find?_insert_ne (t : Table V) {s u : S} {left n : Nat} (h : left ≤ t.input.size)
    (hne : u ≠ s ∨ n ≠ left) (outcome : Outcome (V s)) :
    (t.insert s left outcome).find? u n = t.find? u n := by
  rw [find?, cell_insert t s h, find?]
  by_cases hn : n = left
  · subst hn
    have hu : u ≠ s := hne.resolve_right (fun hc => hc rfl)
    simp [Cell.find?_insert_ne hu]
  · simp [hn]

end Table

end Packrat
