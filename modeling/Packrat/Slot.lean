import Packrat.Component
import Packrat.Error
import Packrat.Name

/-!
Slots and the fields of a sequence. What a slot holds is fixed by the policy of its component;
an assembler takes the slots out one by one, naming the type it expects. A take empties its slot
even if the type turns out to be wrong.
-/
namespace Packrat

/-- The types an assembler may ask for, over the symbols of a grammar. -/
inductive SlotType (S : Type) where
  | one (symbol : S)
  | maybe (symbol : S)
  | many (symbol : S)
  | word
  /-- A type that no component fills, known by its name only. -/
  | foreign (name : String)
deriving DecidableEq

variable {S : Type} {V : S → Type} {α : Type}

namespace SlotType

def Value (V : S → Type) : SlotType S → Type
  | one symbol => V symbol
  | maybe symbol => Option (V symbol)
  | many symbol => List (V symbol)
  | word => String
  | foreign _ => Empty

def name (typeName : S → String) : SlotType S → String
  | one symbol => typeName symbol
  | maybe symbol => "Option<" ++ typeName symbol ++ ">"
  | many symbol => "Vec<" ++ typeName symbol ++ ">"
  | word => "String"
  | foreign name => name

end SlotType

def Quantity.slotType (symbol : S) : Quantity → SlotType S
  | required => .one symbol
  | optional => .maybe symbol
  | oneOrMore => .many symbol
  | zeroOrMore => .many symbol
  | delimited _ _ _ => .many symbol

def Policy.slotType : Policy S → SlotType S
  | keyword _ => .word
  | element symbol quantity => quantity.slotType symbol

/-- A value that bears its type, for those who learn of the type only when they ask for it. -/
structure Slot (V : S → Type) where
  type : SlotType S
  value : type.Value V

/-- The value in a slot, if it is of the type asked for. -/
def Slot.as? [DecidableEq S] (type : SlotType S) (x : Slot V) : Option (type.Value V) :=
  if h : x.type = type then some (h ▸ x.value) else none

@[simp] theorem Slot.as?_mk [DecidableEq S] (type : SlotType S) (value : type.Value V) :
    Slot.as? type ⟨type, value⟩ = some value := by
  simp [as?]

@[simp] theorem Slot.as?_type [DecidableEq S] (x : Slot V) : x.as? x.type = some x.value :=
  as?_mk x.type x.value

theorem Slot.as?_of_ne [DecidableEq S] {type : SlotType S} {x : Slot V} (h : x.type ≠ type) :
    x.as? type = none := by
  simp [as?, h]

/-- The filled slots of a sequence. The names are those that errors mention. -/
structure Fields (V : S → Type) where
  owner : String
  typeName : S → String
  slots : List (String × Slot V)

/-- Builds a value from the fields of a sequence, or refuses with an error of its own. -/
abbrev Assembler (V : S → Type) (α : Type) := EStateM Error (Fields V) α

namespace Fields

def get? (f : Fields V) (slot : String) : Option (Slot V) := f.slots.lookup slot

def erase (f : Fields V) (slot : String) : Fields V :=
  { f with slots := f.slots.filter fun entry => entry.1 != slot }

def insert (f : Fields V) (slot : String) (x : Slot V) : Fields V :=
  { f.erase slot with slots := (slot, x) :: (f.erase slot).slots }

/-- Moves the value out of a slot that holds the type asked for. -/
def take [DecidableEq S] (slot : String) (type : SlotType S) : Assembler V (type.Value V) := fun f =>
  match f.get? slot with
  | none => .error (.declaration f.owner (.unfilledSlot slot)) f
  | some x =>
    match x.as? type with
    | some value => .ok value (f.erase slot)
    | none =>
      .error (.declaration f.owner (.wrongType slot (Name.unqualified (type.name f.typeName))))
        (f.erase slot)

theorem get?_erase_self (f : Fields V) (slot : String) : (f.erase slot).get? slot = none := by
  simp only [get?, erase, List.lookup_eq_none_iff, List.mem_filter]
  intro entry h
  have hne : entry.1 ≠ slot := by simpa using h.2
  exact bne_iff_ne.mpr (Ne.symm hne)

theorem get?_erase_ne (f : Fields V) {slot other : String} (h : other ≠ slot) :
    (f.erase slot).get? other = f.get? other := by
  obtain ⟨_, _, slots⟩ := f
  simp only [get?, erase]
  induction slots with
  | nil => rfl
  | cons entry rest ih =>
    obtain ⟨name, x⟩ := entry
    by_cases hn : name = slot
    · have ho : (other == slot) = false := by simpa using h
      simpa [List.lookup_cons, hn, ho] using ih
    · simp [List.lookup_cons, hn, ih]

theorem get?_insert_self (f : Fields V) (slot : String) (x : Slot V) :
    (f.insert slot x).get? slot = some x := by
  simp [get?, insert]

theorem get?_insert_ne (f : Fields V) {slot other : String} (h : other ≠ slot) (x : Slot V) :
    (f.insert slot x).get? other = f.get? other := by
  have h' : (other == slot) = false := by simpa using h
  rw [← get?_erase_ne f h]
  simp [get?, insert, List.lookup_cons, h']

end Fields

end Packrat
