import Packrat.Grammar.Text
import Packrat.Proofs.Conduct
import Packrat.Proofs.Priority

/-!
Kindred grammars: alike but for the priorities of components that are attempted in one order. The
engine never looks at a priority once the order is fixed. So it takes the same steps for either
grammar, and an engine of the one becomes an engine of the other by a change of its type only.
-/
namespace Packrat

variable {S : Type} {V : S → Type} {g g' : Grammar S V} {α β : Type}

namespace Shape

/-- The shape with other priorities for its components, which keep their order. -/
def reprioritized (f : Int → Int) : Shape V α → Shape V α
  | sequence s => sequence { s with components := s.components.map (Component.reprioritized f) }
  | shape => shape

theorem references_reprioritized (f : Int → Int) (shape : Shape V α) :
    (shape.reprioritized f).references = shape.references := by
  match shape with
  | terminal matcher => rfl
  | alternation alternatives => rfl
  | sequence s =>
    simp only [reprioritized, references, List.filterMap_map]
    rfl

end Shape

namespace Grammar

/-- The grammars differ at most in priorities, and not in the order of attempts. -/
structure Kindred (g g' : Grammar S V) : Prop where
  symbols_eq : g'.symbols = g.symbols
  name_eq : g'.name = g.name
  typeName_eq : g'.typeName = g.typeName
  flaw?_eq : ∀ s, (g'.shape s).flaw? = (g.shape s).flaw?
  inOrder_eq : ∀ s, ∃ f, (g'.shape s).inOrder = (g.shape s).inOrder.reprioritized f

namespace Kindred

theorem checked_eq (h : Kindred g g') (s : S) :
    ∃ f, g'.checked s = (g.checked s).map (Shape.reprioritized f) := by
  obtain ⟨f, horder⟩ := h.inOrder_eq s
  refine ⟨f, ?_⟩
  simp only [checked, Shape.checked, h.flaw?_eq, h.name_eq, horder]
  cases (g.shape s).flaw? <;> rfl

end Kindred

end Grammar

/-- The engine of another grammar in the same state. -/
def Engine.carry (g' : Grammar S V) (e : Engine g) : Engine g' where
  memoize := e.memoize
  table := e.table
  stats := e.stats
  registry := e.registry

def Work.carry (g' : Grammar S V) (w : Work g) : Work g' where
  engine := w.engine.carry g'
  journal := w.journal

namespace Parser

def carried (g' : Grammar S V) :
    EStateM.Result Halt (Work g) α → EStateM.Result Halt (Work g') α
  | .ok a w => .ok a (w.carry g')
  | .error halt w => .error halt (w.carry g')

/-- Two parsers that take the same steps. -/
def Alike (p : Parser g α) (q : Parser g' α) : Prop := ∀ w, q (w.carry g') = carried g' (p w)

section Combinators

variable {p : Parser g α} {q : Parser g' α} {call : Caller g} {call' : Caller g'}

theorem Alike.bind {k : α → Parser g β} {l : α → Parser g' β} (h : Alike p q)
    (hk : ∀ a, Alike (k a) (l a)) : Alike (p >>= k) (q >>= l) := by
  intro w
  simp only [Bind.bind, EStateM.bind, h w]
  cases p w with
  | ok a w => exact hk a w
  | error halt w => rfl

theorem alike_pure (a : α) : Alike (pure a : Parser g α) (pure a : Parser g' α) := fun _ => rfl

theorem alike_fail (error : Error) : Alike (fail error : Parser g α) (fail error : Parser g' α) :=
  fun _ => rfl

theorem alike_note (event : Event S) :
    Alike (note event : Parser g Unit) (note event : Parser g' Unit) := fun _ => rfl

/-- Calls that are alike. -/
def CallsAlike (call : Caller g) (call' : Caller g') : Prop := ∀ s c, Alike (call s c) (call' s c)

theorem alike_terminal (s : S) (matcher : String → Option α) (c : Cursor) :
    Alike (terminal (g := g) s matcher c) (terminal (g := g') s matcher c) := by
  unfold terminal
  cases c.first.text with
  | none => exact alike_pure none
  | some text => exact (alike_note _).bind fun _ => alike_pure _

theorem alike_alternation (h : CallsAlike call call') (s : S) (c : Cursor)
    (alternatives : List (Alternative V α)) :
    Alike (alternation call s c alternatives) (alternation call' s c alternatives) := by
  induction alternatives with
  | nil => exact alike_pure none
  | cons a rest ih =>
    refine (h a.symbol c).bind fun o => ?_
    cases o with
    | some m => exact (alike_note _).bind fun _ => alike_pure _
    | none => exact ih

theorem alike_optional (h : CallsAlike call call') (s : S) (c : Cursor) :
    Alike (optional call s c) (optional call' s c) := by
  refine (h s c).bind fun o => ?_
  cases o with
  | some m => exact alike_pure _
  | none => exact alike_pure _

theorem alike_items (h : CallsAlike call call') (s : S) (budget : Nat) (c : Cursor) :
    Alike (items call s budget c) (items call' s budget c) := by
  induction budget generalizing c with
  | zero => exact alike_pure _
  | succ budget ih =>
    refine (h s c).bind fun o => ?_
    cases o with
    | none => exact alike_pure _
    | some m =>
      simp only
      split
      · exact alike_pure _
      · exact (ih m.rest).bind fun _ => alike_pure _

theorem alike_repetition (h : CallsAlike call call') (s : S) (least : Nat) (c : Cursor) :
    Alike (repetition call s least c) (repetition call' s least c) :=
  (alike_items h s c.size c).bind fun _ => (alike_note _).bind fun _ => alike_pure _

theorem alike_listing (h : CallsAlike call call') (s : S) (delimiter : Literal) (budget : Nat)
    (c : Cursor) :
    Alike (listing call s delimiter budget c) (listing call' s delimiter budget c) := by
  induction budget generalizing c with
  | zero => exact alike_pure _
  | succ budget ih =>
    refine (h s c).bind fun o => ?_
    cases o with
    | none => exact alike_pure _
    | some m =>
      simp only
      split
      · exact (ih m.rest.next).bind fun _ => alike_pure _
      · exact alike_pure _

theorem alike_delimited (h : CallsAlike call call') (s : S) (delimiter : Literal)
    (trailing empty : Bool) (c : Cursor) :
    Alike (delimited call s delimiter trailing empty c)
      (delimited call' s delimiter trailing empty c) := by
  refine (alike_listing h s delimiter c.size c).bind fun m => ?_
  split
  · exact (alike_note _).bind fun _ => alike_pure _
  · exact alike_pure _

theorem alike_component (h : CallsAlike call call') (c : Cursor) (p : Policy S) :
    Alike (component call c p) (component call' c p) := by
  match p with
  | .keyword literal => exact alike_pure _
  | .element s .required => exact h s c
  | .element s .optional => exact alike_optional h s c
  | .element s .oneOrMore => exact alike_repetition h s 1 c
  | .element s .zeroOrMore => exact alike_repetition h s 0 c
  | .element s (.delimited delimiter trailing empty) =>
    exact alike_delimited h s delimiter trailing empty c

/-- The one place where components are read in full; their priorities are not looked at. -/
theorem alike_components (h : CallsAlike call call') (s : S) (f : Int → Int)
    (ds : List (Component S)) (c : Cursor) (fields : Fields V) :
    Alike (components call s ds c fields)
      (components call' s (ds.map (Component.reprioritized f)) c fields) := by
  induction ds generalizing c fields with
  | nil => exact alike_pure _
  | cons d rest ih =>
    refine (alike_component h c d.policy).bind fun o => ?_
    cases o with
    | some m => exact ih m.rest _
    | none =>
      have hlabel : (d.reprioritized f).label = d.label := rfl
      simp only [hlabel]
      cases d.label with
      | some label => exact alike_fail _
      | none => exact (alike_note _).bind fun _ => alike_pure _

theorem alike_assemble (s : S) (assembler : Assembler V α) (m : Match (Fields V)) :
    Alike (assemble (g := g) s assembler m) (assemble (g := g') s assembler m) := by
  unfold assemble
  cases assembler m.value with
  | ok value left => exact (alike_note _).bind fun _ => alike_pure _
  | error error left => exact (alike_note _).bind fun _ => alike_fail _

theorem alike_evaluate (hg : g.Kindred g') (h : CallsAlike call call') (s : S) (c : Cursor)
    (f : Int → Int) (shape : Shape V (V s)) :
    Alike (evaluate call s c shape) (evaluate call' s c (shape.reprioritized f)) := by
  match shape with
  | .terminal matcher => exact alike_terminal s matcher c
  | .alternation alternatives =>
    exact (alike_note _).bind fun _ => alike_alternation h s c alternatives
  | .sequence seq =>
    refine (alike_note _).bind fun _ => ?_
    rw [hg.name_eq, hg.typeName_eq]
    refine (alike_components h s f seq.components c _).bind fun o => ?_
    cases o with
    | some m => exact alike_assemble s seq.assemble m
    | none => exact alike_pure none

end Combinators

end Parser

section Steps

variable (g')

theorem Engine.count_carry (e : Engine g) (hit : Bool) :
    (e.carry g').count hit = (e.count hit).carry g' := by
  unfold Engine.count
  change (if !e.memoize then _ else _) = _
  split
  · rfl
  · split <;> rfl

theorem Work.observing_carry (w : Work g) (c : Cursor) :
    (w.carry g').observing c = (w.observing c).carry g' := by
  unfold observing
  change (if w.engine.input? = some c.input then _ else _) = _
  split <;> rfl

variable [DecidableEq S]

theorem Engine.remember_carry (e : Engine g) (s : S) (left : Nat) (o : Outcome (V s)) :
    (e.carry g').remember s left o = (e.remember s left o).carry g' := by
  unfold Engine.remember
  change (if e.memoize then _ else _) = _
  split <;> rfl

namespace Work

theorem lookingUp_carry (w : Work g) (s : S) (left : Nat) :
    (w.carry g').lookingUp s left = (w.lookingUp s left).carry g' :=
  congrArg (Work.mk · _) (w.engine.count_carry g' _)

theorem building_carry (w : Work g) (s : S) :
    (w.carry g').building s = (w.building s).carry g' := by
  unfold building
  change (if s ∈ w.engine.registry then _ else _) = _
  split <;> rfl

theorem entering_carry (w : Work g) (s : S) (left : Nat) :
    (w.carry g').entering s left = (w.entering s left).carry g' := by
  unfold entering registering
  rw [lookingUp_carry]
  change Work.noting (if s ∈ (w.lookingUp s left).engine.registry then _ else _) _ = _
  split <;> rfl

theorem concluding_carried (s : S) (left : Nat)
    (r : EStateM.Result Halt (Work g) (Outcome (V s))) :
    concluding s left (Parser.carried g' r) = Parser.carried g' (concluding s left r) := by
  cases r with
  | ok o w =>
    change EStateM.Result.ok o (Work.mk ((w.engine.carry g').remember s left o) _) = _
    rw [Engine.remember_carry]
    rfl
  | error halt w => rfl

end Work

end Steps

namespace Parser

section Calls

variable [DecidableEq S] {call : Caller g} {call' : Caller g'}

theorem alike_invoke (hg : g.Kindred g') (h : CallsAlike call call') (s : S) (c : Cursor) :
    Alike (invoke call s c) (invoke call' s c) := by
  intro w
  rw [invoke_eq, invoke_eq, Work.observing_carry]
  have hfind : ((w.observing c).carry g').engine.find? s c.size =
      (w.observing c).engine.find? s c.size := rfl
  rw [hfind]
  cases (w.observing c).engine.find? s c.size with
  | some o => exact congrArg (EStateM.Result.ok o) (Work.lookingUp_carry g' _ s c.size)
  | none =>
    obtain ⟨f, hchecked⟩ := hg.checked_eq s
    rw [hchecked]
    cases g.checked s with
    | error error =>
      simp only [Except.map, Work.lookingUp_carry, Work.building_carry]
      rfl
    | ok shape =>
      simp only [Except.map, Work.entering_carry]
      rw [alike_evaluate hg h s c f shape, Work.concluding_carried]

theorem alike_call (hg : g.Kindred g') (depth : Nat) :
    CallsAlike (Parser.call depth : Caller g) (Parser.call depth : Caller g') := by
  induction depth with
  | zero =>
    intro s c
    unfold Parser.call
    split <;> exact fun _ => rfl
  | succ depth ih =>
    intro s c
    unfold Parser.call
    split
    · exact alike_pure none
    · exact alike_invoke hg ih s c

theorem alike_parse (hg : g.Kindred g') (s : S) (c : Cursor) :
    Alike (parse (g := g) s c) (parse (g := g') s c) := by
  unfold parse
  rw [hg.symbols_eq]
  exact alike_call hg _ s c

theorem alike_parseAll (hg : g.Kindred g') (s : S) (c : Cursor) :
    Alike (parseAll (g := g) s c) (parseAll (g := g') s c) := by
  refine (alike_parse hg s c).bind fun o => ?_
  cases o with
  | none =>
    rw [hg.name_eq]
    exact alike_fail _
  | some m =>
    simp only
    split
    · exact alike_pure _
    · exact alike_fail _

end Calls

end Parser

/-- The run of another grammar, step by step the same. -/
def Run.carry (g' : Grammar S V) (r : Run g α) : Run g' α := ⟨r.answer, r.engine.carry g', r.journal⟩

theorem Parser.Alike.runOn {p : Parser g α} {q : Parser g' α} (h : Alike p q) (e : Engine g) :
    q.runOn (e.carry g') = (p.runOn e).carry g' := by
  unfold Parser.runOn
  have hrun : q { engine := e.carry g' } = carried g' (p { engine := e }) := h { engine := e }
  rw [hrun]
  cases p { engine := e } <;> rfl

namespace Engine

variable [DecidableEq S]

theorem serve_carry (hg : g.Kindred g') (e : Engine g) (r : Request S) :
    (e.carry g').serve r = (e.serve r).carry g' := by
  cases r with
  | one s c => exact (Parser.alike_parse hg s c).runOn e
  | complete s c => exact (Parser.alike_parseAll hg s c).runOn e

/-- An engine of either grammar is in the same state after the same calls. -/
theorem serveAll_carry (hg : g.Kindred g') (e : Engine g) (history : List (Request S)) :
    (e.carry g').serveAll history = (e.serveAll history).carry g' := by
  induction history generalizing e with
  | nil => rfl
  | cons r rest ih =>
    change ((e.carry g').serve r).engine.serveAll rest = ((e.serve r).engine.serveAll rest).carry g'
    rw [serve_carry hg]
    exact ih _

theorem answers_carry (hg : g.Kindred g') (e : Engine g) (history : List (Request S)) :
    (e.carry g').answers history = e.answers history := by
  induction history generalizing e with
  | nil => rfl
  | cons r rest ih =>
    rw [answers, answers, serve_carry hg]
    exact congrArg _ (ih _)

end Engine

namespace Grammar.Kindred

theorem references_eq (h : Kindred g g') (s : S) : g'.references s = g.references s := by
  obtain ⟨f, horder⟩ := h.inOrder_eq s
  rw [references, horder, Shape.references_reprioritized, references]

theorem block_eq (h : Kindred g g') (f : Int → Int) (name : String) (shape : Shape V α) :
    g'.block name (shape.reprioritized f) = g.block name shape := by
  have htext : ∀ d : Component S, g'.componentText (d.reprioritized f) = g.componentText d := by
    intro d
    rw [componentText, componentText, h.name_eq]
    rfl
  match shape with
  | .terminal matcher => rfl
  | .alternation alternatives =>
    simp only [block, Shape.reprioritized, entries, h.name_eq]
  | .sequence s =>
    simp only [block, Shape.reprioritized, entries, List.map_map, Function.comp_def, htext]
    rfl

theorem blockOf_eq (h : Kindred g g') (s : S) : g'.blockOf s = g.blockOf s := by
  obtain ⟨f, hchecked⟩ := h.checked_eq s
  rw [blockOf, blockOf, hchecked, h.name_eq]
  cases g.checked s with
  | error error => rfl
  | ok shape => exact congrArg Except.ok (h.block_eq f (g.name s) shape)

variable [DecidableEq S]

theorem explore_eq (h : Kindred g g') (rounds : Nat) (served queue : List S) :
    g'.explore rounds served queue = g.explore rounds served queue := by
  induction rounds generalizing served queue with
  | zero => rfl
  | succ rounds ih =>
    cases queue with
    | nil => rfl
    | cons s queue =>
      rw [explore, explore, h.references_eq]
      exact ih _ _

/-- Kindred grammars have the same text, or have none for the same reason. -/
theorem text_eq (h : Kindred g g') (root : S) : g'.text root = g.text root := by
  have hblockOf : g'.blockOf = g.blockOf := funext h.blockOf_eq
  rw [text, text, reachable, reachable, h.symbols_eq, h.explore_eq, hblockOf]

end Grammar.Kindred

end Packrat
