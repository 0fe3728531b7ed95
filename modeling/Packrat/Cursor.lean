import Packrat.Token

/-!
Inputs and cursors. An input is a token sequence with an identity, so two inputs with the same
tokens can still be told apart. A cursor is an input with an offset into it; moving a cursor
never changes the input and never passes its end. Offsets asked for from outside are 64-bit
words, and sums of them that do not fit are cut off rather than wrapped.
-/
namespace Packrat

structure Input where
  id : Nat
  tokens : Array Token

/-- Compares addresses before contents, as an engine asks on each call whether its input is
still the same one. -/
instance : DecidableEq Input := fun a b =>
  withPtrEqDecEq a b fun _ =>
    if h : a.id = b.id ∧ a.tokens = b.tokens then
      isTrue (by cases a; cases b; simpa using h)
    else
      isFalse (fun hab => h (by simp [hab]))

structure Cursor where
  input : Input
  offset : Nat
  offset_le : offset ≤ input.tokens.size
deriving DecidableEq

namespace Input

def size (i : Input) : Nat := i.tokens.size

def start (i : Input) : Cursor := ⟨i, 0, Nat.zero_le _⟩

/-- The token shown once the input is used up. It names the source of the first token. -/
def endToken (i : Input) : Token := .endOf (i.tokens[0]?.elim "" Token.source)

end Input

namespace Cursor

def size (c : Cursor) : Nat := c.input.size - c.offset

def atEnd (c : Cursor) : Bool := c.size == 0

/-- The current token, or the end token of the input once it is used up. -/
def first (c : Cursor) : Token := c.input.tokens[c.offset]?.getD c.input.endToken

/-- The token `i` places ahead. -/
def peek? (c : Cursor) (i : UInt64) : Option Token :=
  if c.offset + i.toNat < UInt64.size then c.input.tokens[c.offset + i.toNat]? else none

/-- The cursor at offset `k`, or at the end if `k` lies past it. -/
def moveTo (c : Cursor) (k : Nat) : Cursor :=
  ⟨c.input, min k c.input.tokens.size, Nat.min_le_right _ _⟩

def drop (c : Cursor) (k : Nat) : Cursor := c.moveTo (c.offset + k)

def next (c : Cursor) : Cursor := c.drop 1

/-- Moves ahead by a 64-bit word; a sum that does not fit stays at the largest word. -/
def skip (c : Cursor) (n : UInt64) : Cursor :=
  c.moveTo (min (c.offset + n.toNat) (UInt64.size - 1))

def begins (c : Cursor) (literal : String) : Bool := c.first.text == some literal

def beginsAll (c : Cursor) : List String → Bool
  | [] => true
  | literal :: rest => c.begins literal && c.next.beginsAll rest

/-- Whether two cursors move over the very same input. -/
def sameInput (a b : Cursor) : Bool := decide (a.input = b.input)

def preview (c : Cursor) : String :=
  match c.first.text with
  | some text => text ++ "..."
  | none => "EOF"

theorem offset_add_size (c : Cursor) : c.offset + c.size = c.input.size :=
  Nat.add_sub_cancel' c.offset_le

theorem atEnd_iff (c : Cursor) : c.atEnd = true ↔ c.size = 0 := by simp [atEnd]

@[simp] theorem input_drop (c : Cursor) (k : Nat) : (c.drop k).input = c.input := rfl

@[simp] theorem input_next (c : Cursor) : c.next.input = c.input := rfl

theorem size_drop (c : Cursor) (k : Nat) : (c.drop k).size = c.size - k := by
  have := c.offset_le
  simp only [size, drop, moveTo, Input.size]
  omega

theorem size_next (c : Cursor) : c.next.size = c.size - 1 := size_drop c 1

/-- Within one input the number of tokens left fixes the cursor. -/
theorem ext_size {a b : Cursor} (hi : a.input = b.input) (hs : a.size = b.size) : a = b := by
  have ha := a.offset_add_size
  have hb := b.offset_add_size
  obtain ⟨ai, ao, _⟩ := a
  obtain ⟨bi, bo, _⟩ := b
  obtain rfl : ai = bi := hi
  obtain rfl : ao = bo := by simp only at ha hb hs; omega
  rfl

theorem skip_eq_drop (c : Cursor) (n : UInt64) (h : c.input.size < UInt64.size) :
    c.skip n = c.drop n.toNat := by
  have := c.offset_le
  simp only [Input.size] at h
  simp only [skip, drop, moveTo, Cursor.mk.injEq, true_and]
  omega

end Cursor

end Packrat
