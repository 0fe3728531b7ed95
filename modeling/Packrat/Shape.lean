import Packrat.Slot

/-!
Shapes: how one symbol is matched. A terminal tests the text of one token, an alternation tries
other symbols in order, a sequence attempts its components by priority and assembles what they
filled. A declaration is checked before it is used, and the check puts the components into the
order of attempts, with equal priorities as declared.
-/
namespace Packrat

variable {S : Type} {V : S → Type} {α : Type}

structure Alternative (V : S → Type) (α : Type) where
  symbol : S
  wrap : V symbol → α

structure Sequence (V : S → Type) (α : Type) where
  components : List (Component S)
  assemble : Assembler V α

inductive Shape (V : S → Type) (α : Type) where
  | terminal (matcher : String → Option α)
  | alternation (alternatives : List (Alternative V α))
  | sequence (sequence : Sequence V α)

namespace Component

/-- Puts a component before the first one whose priority is not lower. -/
def insertByPriority (c : Component S) : List (Component S) → List (Component S)
  | [] => [c]
  | d :: rest =>
    if c.priority ≤ d.priority then c :: d :: rest else d :: insertByPriority c rest

/-- The components by ascending priority, equal priorities in the given order. -/
def byPriority (components : List (Component S)) : List (Component S) :=
  components.foldr insertByPriority []

theorem insertByPriority_perm (c : Component S) (components : List (Component S)) :
    (insertByPriority c components).Perm (c :: components) := by
  induction components with
  | nil => exact List.Perm.refl _
  | cons d rest ih =>
    by_cases h : c.priority ≤ d.priority
    · simp [insertByPriority, h]
    · simp only [insertByPriority, h, if_false]
      exact (ih.cons d).trans (List.Perm.swap c d rest)

/-- Nothing is lost or added by putting components into order. -/
theorem byPriority_perm (components : List (Component S)) :
    (byPriority components).Perm components := by
  induction components with
  | nil => exact List.Perm.refl _
  | cons c rest ih => exact (insertByPriority_perm c _).trans (ih.cons c)

theorem insertByPriority_ascending (c : Component S) (components : List (Component S))
    (h : components.Pairwise fun d e => d.priority ≤ e.priority) :
    (insertByPriority c components).Pairwise fun d e => d.priority ≤ e.priority := by
  induction components with
  | nil => exact List.pairwise_singleton _ _
  | cons d rest ih =>
    obtain ⟨hd, hrest⟩ := List.pairwise_cons.mp h
    by_cases hc : c.priority ≤ d.priority
    · simp only [insertByPriority, hc, if_true]
      refine List.pairwise_cons.mpr ⟨fun e he => ?_, h⟩
      rcases List.mem_cons.mp he with rfl | he
      · exact hc
      · exact Int.le_trans hc (hd e he)
    · simp only [insertByPriority, hc, if_false]
      refine List.pairwise_cons.mpr ⟨fun e he => ?_, ih hrest⟩
      rcases List.mem_cons.mp ((insertByPriority_perm c rest).mem_iff.mp he) with rfl | he
      · omega
      · exact hd e he

theorem byPriority_ascending (components : List (Component S)) :
    (byPriority components).Pairwise fun d e => d.priority ≤ e.priority := by
  induction components with
  | nil => exact List.Pairwise.nil
  | cons c rest ih => exact insertByPriority_ascending c _ ih

/-- The first flaw among components declared after the slots `seen`. At one component, a slot
already seen comes before an empty delimiter. -/
def flawAfter? (seen : List String) : List (Component S) → Option Flaw
  | [] => none
  | c :: rest =>
    if c.slot ∈ seen then some (.repeatedSlot c.slot)
    else if c.policy.hasEmptyDelimiter then some (.emptyDelimiter c.slot)
    else flawAfter? (c.slot :: seen) rest

def flaw? : List (Component S) → Option Flaw
  | [] => some .noComponents
  | components => flawAfter? [] components

end Component

namespace Shape

def flaw? : Shape V α → Option Flaw
  | terminal _ => none
  | alternation [] => some .noAlternatives
  | alternation _ => none
  | sequence s => Component.flaw? s.components

/-- The shape with its components in the order of attempts. -/
def inOrder : Shape V α → Shape V α
  | sequence s => sequence { s with components := Component.byPriority s.components }
  | shape => shape

/-- The shape ready for use, or the error that the symbol called `name` is misdeclared. -/
def checked (name : String) (shape : Shape V α) : Except Error (Shape V α) :=
  match shape.flaw? with
  | some flaw => .error (.declaration name flaw)
  | none => .ok shape.inOrder

/-- The symbols that a shape mentions, in order and with repetitions. -/
def references : Shape V α → List S
  | terminal _ => []
  | alternation alternatives => alternatives.map Alternative.symbol
  | sequence s => s.components.filterMap fun c => c.policy.symbol?

end Shape

end Packrat
