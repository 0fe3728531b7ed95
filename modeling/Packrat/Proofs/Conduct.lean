import Packrat.Proofs.History

/-!
The conduct of parsers. A call where tokens are left is looked up, refused because the declaration
is invalid, or evaluated. The account of it here is complete, step by step, and all that is shown
of runs is drawn from it.
-/
namespace Packrat

variable {S : Type} {V : S → Type} {g : Grammar S V} {α β : Type}

open Cursor

namespace Work

def noting (w : Work g) (event : Event S) : Work g := { w with journal := event :: w.journal }

/-- At work on the input of the cursor, with a blank table if it is another one than before. -/
def observing (w : Work g) (c : Cursor) : Work g :=
  if w.engine.input? = some c.input then w
  else ⟨w.engine.switch c.input, .newInput w.engine.remembered :: w.journal⟩

theorem input_observing (w : Work g) (c : Cursor) :
    (w.observing c).engine.input? = some c.input := by
  unfold observing
  split
  · assumption
  · rfl

theorem observing_observing (w : Work g) (c : Cursor) :
    (w.observing c).observing c = w.observing c := if_pos (w.input_observing c)

variable [DecidableEq S]

def lookingUp (w : Work g) (s : S) (left : Nat) : Work g :=
  ⟨w.engine.count (w.engine.find? s left).isSome, .called s left :: w.journal⟩

theorem observing_faithfulOn {w : Work g} (h : w.engine.Faithful) (c : Cursor) :
    (w.observing c).engine.FaithfulOn c.input := by
  unfold observing
  split
  · rename_i hinput
    exact ⟨h, hinput⟩
  · exact Engine.faithfulOn_switch _ _

/-- The declaration of `s` is built unless it is known, and found invalid. -/
def building (w : Work g) (s : S) : Work g :=
  if s ∈ w.engine.registry then w else w.noting (.built s)

/-- The declaration of `s` is built unless it is known, and found valid. -/
def registering (w : Work g) (s : S) : Work g :=
  if s ∈ w.engine.registry then w
  else ⟨w.engine.register s, .registered s :: .built s :: w.journal⟩

/-- The evaluation of `s` begins, after a lookup that found nothing. -/
def entering (w : Work g) (s : S) (left : Nat) : Work g :=
  ((w.lookingUp s left).registering s).noting (.evaluated s left)

def settling (w : Work g) (s : S) (left : Nat) (outcome : Outcome (V s)) : Work g :=
  ⟨w.engine.remember s left outcome, .settled s left :: w.journal⟩

/-- The evaluation of `s` is over: its outcome is remembered, or its failure noted. -/
def concluding (s : S) (left : Nat) :
    EStateM.Result Halt (Work g) (Outcome (V s)) → EStateM.Result Halt (Work g) (Outcome (V s))
  | .ok outcome w => .ok outcome (w.settling s left outcome)
  | .error halt w => .error halt (w.noting (.failed s left halt))

end Work

namespace Parser

/-- A terminal is tested by its matcher at most once. -/
theorem terminal_eq (s : S) (matcher : String → Option α) (c : Cursor) (w : Work g) :
    terminal s matcher c w = .ok (Reader.terminal matcher c)
      (if c.first.text = none then w else w.noting (.consulted s c.size)) := by
  unfold terminal Reader.terminal
  cases c.first.text with
  | none => rfl
  | some text => rfl

variable [DecidableEq S]

theorem shapeOf_work (s : S) (w : Work g) :
    shapeOf s w =
      match g.checked s with
      | .error error => .error (.failure error) (w.building s)
      | .ok shape => .ok shape (w.registering s) := shapeOf_eq s w

/-- All that a call can do where tokens are left. -/
theorem invoke_eq (call : Caller g) (s : S) (c : Cursor) (w : Work g) :
    invoke call s c w =
      match (w.observing c).engine.find? s c.size with
      | some o => .ok o ((w.observing c).lookingUp s c.size)
      | none =>
        match g.checked s with
        | .error error =>
          .error (.failure error) ((((w.observing c).lookingUp s c.size).building s).noting
            (.failed s c.size (.failure error)))
        | .ok shape =>
          Work.concluding s c.size (evaluate call s c shape ((w.observing c).entering s c.size)) := by
  have hobserve : observe c w = .ok () (w.observing c) := observe_eq c w
  have hlookUp : (lookUp s c.size : Parser g (Option (Outcome (V s))))
      ((w.observing c).noting (.called s c.size)) =
        .ok ((w.observing c).engine.find? s c.size) ((w.observing c).lookingUp s c.size) := rfl
  have hcalled : (note (.called s c.size) : Parser g Unit) (w.observing c) =
      .ok () ((w.observing c).noting (.called s c.size)) := rfl
  unfold invoke
  simp only [bind, EStateM.bind, hobserve, hcalled, notingFailure, hlookUp]
  cases (w.observing c).engine.find? s c.size with
  | some o => rfl
  | none =>
    simp only [EStateM.bind, shapeOf_work]
    cases g.checked s with
    | error error => rfl
    | ok shape =>
      have hevaluated : (note (.evaluated s c.size) : Parser g Unit)
          (((w.observing c).lookingUp s c.size).registering s) =
            .ok () ((w.observing c).entering s c.size) := rfl
      simp only [hevaluated]
      cases evaluate call s c shape ((w.observing c).entering s c.size) <;> rfl

/-- A call from outside starts where the one that it becomes on the new input starts. -/
theorem parse_observing (s : S) {c : Cursor} (hend : c.atEnd = false) (w : Work g) :
    parse s c (w.observing c) = parse s c w := by
  obtain ⟨depth, hdepth⟩ : ∃ depth, g.symbols.length * c.size = depth + 1 := by
    have hsize : c.size ≠ 0 := by rw [Ne, ← atEnd_iff, hend]; simp
    have hlength := List.length_pos_of_mem (g.mem_symbols s)
    exact Nat.exists_eq_succ_of_ne_zero (Nat.mul_ne_zero hlength.ne' hsize)
  rw [parse, hdepth, Parser.call, if_neg (by simp [hend]), invoke_eq, invoke_eq,
    Work.observing_observing]

end Parser

namespace Grammar

theorem meaning_of_checked [DecidableEq S] {s : S} {c : Cursor} (hend : c.atEnd = false)
    {shape : Shape V (V s)} (hshape : g.checked s = .ok shape) :
    g.meaning s c = g.readShape g.meaning s c shape := by
  rw [meaning_eq s hend, readSymbol, hshape]

end Grammar

namespace Work

variable [DecidableEq S]

theorem observing_of_faithfulOn {w : Work g} {c : Cursor} (h : w.engine.FaithfulOn c.input) :
    w.observing c = w := if_pos h.input_eq

theorem lookingUp_faithfulOn {w : Work g} {input : Input} (h : w.engine.FaithfulOn input) (s : S)
    (left : Nat) : (w.lookingUp s left).engine.FaithfulOn input :=
  h.of_table_eq (Engine.table_count _ _)

theorem registry_lookingUp (w : Work g) (s : S) (left : Nat) :
    (w.lookingUp s left).engine.registry = w.engine.registry :=
  Engine.registry_count _ _

/-- The registry while `s` is evaluated. -/
theorem registry_entering (w : Work g) (s : S) (left : Nat) :
    (w.entering s left).engine.registry =
      if s ∈ w.engine.registry then w.engine.registry else s :: w.engine.registry := by
  simp only [entering, registering, noting, registry_lookingUp]
  split
  · exact w.registry_lookingUp s left
  · exact congrArg (s :: ·) (w.registry_lookingUp s left)

theorem mem_registry_entering (w : Work g) (s : S) (left : Nat) :
    s ∈ (w.entering s left).engine.registry := by
  rw [registry_entering]
  split
  · assumption
  · exact List.mem_cons_self

theorem registry_subset_entering (w : Work g) (s : S) (left : Nat) :
    w.engine.registry ⊆ (w.entering s left).engine.registry := by
  rw [registry_entering]
  split
  · exact List.Subset.refl _
  · exact List.subset_cons_self _ _

/-- A symbol that is known leaves nothing else behind. -/
theorem entering_of_mem {w : Work g} {s : S} (hs : s ∈ w.engine.registry) (left : Nat) :
    w.entering s left = (w.lookingUp s left).noting (.evaluated s left) := by
  rw [← w.registry_lookingUp s left] at hs
  rw [entering, registering, if_pos hs]

theorem table_entering (w : Work g) (s : S) (left : Nat) :
    (w.entering s left).engine.table = w.engine.table := by
  simp only [entering, registering, noting]
  split
  · exact Engine.table_count _ _
  · exact Engine.table_count _ _

theorem memoize_entering (w : Work g) (s : S) (left : Nat) :
    (w.entering s left).engine.memoize = w.engine.memoize := by
  simp only [entering, registering, noting]
  split
  · exact Engine.memoize_count _ _
  · exact Engine.memoize_count _ _

theorem input_entering (w : Work g) (s : S) (left : Nat) :
    (w.entering s left).engine.input? = w.engine.input? := by
  rw [Engine.input?, Engine.input?, table_entering]

theorem find?_entering (w : Work g) (s : S) (left : Nat) (t : S) (n : Nat) :
    (w.entering s left).engine.find? t n = w.engine.find? t n :=
  Engine.find?_of_table_eq (w.memoize_entering s left) (w.table_entering s left) t n

theorem entering_faithfulOn {w : Work g} {input : Input} (h : w.engine.FaithfulOn input) (s : S)
    (left : Nat) : (w.entering s left).engine.FaithfulOn input :=
  h.of_table_eq (w.table_entering s left)

end Work

namespace Parser

variable [DecidableEq S]

section CallSucc

variable {w : Work g} {s : S} {c : Cursor}

theorem call_succ_of_find?_some (depth : Nat) (hend : c.atEnd = false)
    (hw : w.engine.FaithfulOn c.input) {o : Outcome (V s)}
    (hfind : w.engine.find? s c.size = some o) :
    call (depth + 1) s c w = .ok o (w.lookingUp s c.size) := by
  rw [call, if_neg (by simp [hend]), invoke_eq, Work.observing_of_faithfulOn hw, hfind]

theorem call_succ_of_find?_none (depth : Nat) (hend : c.atEnd = false)
    (hw : w.engine.FaithfulOn c.input) (hfind : w.engine.find? s c.size = none) :
    call (depth + 1) s c w =
      match g.checked s with
      | .error error =>
        .error (.failure error) (((w.lookingUp s c.size).building s).noting
          (.failed s c.size (.failure error)))
      | .ok shape =>
        Work.concluding s c.size (evaluate (call depth) s c shape (w.entering s c.size)) := by
  rw [call, if_neg (by simp [hend]), invoke_eq, Work.observing_of_faithfulOn hw, hfind]

end CallSucc

end Parser

end Packrat
