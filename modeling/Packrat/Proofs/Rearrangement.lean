import Mathlib.Logic.Function.Basic
import Packrat.Proofs.Kinship
import Packrat.Schema

/-!
Declarations rearranged. Other priorities that compare in the same way, and another order of the
components that leaves each single priority alone, make no difference to what is valid, and then
none to any answer, to the counters of an engine or to the text of a grammar.
-/
namespace Packrat

variable {S : Type} {V : S → Type} [DecidableEq S] {g : Grammar S V}

namespace Grammar

/-- The grammar with another declaration of `s`. -/
def redeclare (g : Grammar S V) (s : S) (shape : Shape V (V s)) : Grammar S V :=
  { g with shape := Function.update g.shape s shape }

variable {s : S} {seq : Sequence V (V s)} {f : Int → Int} {ds : List (Component S)}

theorem shape_redeclare_self (shape : Shape V (V s)) : (g.redeclare s shape).shape s = shape :=
  Function.update_self ..

theorem shape_redeclare_ne {t : S} (h : t ≠ s) (shape : Shape V (V s)) :
    (g.redeclare s shape).shape t = g.shape t := Function.update_of_ne h ..

theorem isValid_redeclare (hshape : g.shape s = .sequence seq)
    (h : Component.Rearranges f seq.components ds) :
    (g.redeclare s (.sequence { seq with components := ds })).isValid s = g.isValid s := by
  rw [Bool.eq_iff_iff, isValid, isValid, shape_redeclare_self, hshape, Option.isNone_iff_eq_none,
    Option.isNone_iff_eq_none]
  exact h.flaw?_eq_none_iff

theorem kindred_redeclare (hshape : g.shape s = .sequence seq)
    (h : Component.Rearranges f seq.components ds) (hvalid : g.isValid s = true) :
    g.Kindred (g.redeclare s (.sequence { seq with components := ds })) where
  symbols_eq := rfl
  name_eq := rfl
  typeName_eq := rfl
  flaw?_eq t := by
    by_cases ht : t = s
    · subst ht
      have hvalid' := (isValid_redeclare hshape h).trans hvalid
      rw [Option.isNone_iff_eq_none.mp hvalid', Option.isNone_iff_eq_none.mp hvalid]
    · rw [shape_redeclare_ne ht]
  inOrder_eq t := by
    by_cases ht : t = s
    · subst ht
      refine ⟨f, ?_⟩
      rw [shape_redeclare_self, hshape]
      simp only [Shape.inOrder, Shape.reprioritized, h.byPriority_eq]
    · refine ⟨id, ?_⟩
      rw [shape_redeclare_ne ht]
      have hid : (Component.reprioritized id : Component S → Component S) = id := rfl
      cases (g.shape t).inOrder with
      | sequence _ => simp only [Shape.reprioritized, hid, List.map_id]
      | _ => rfl

end Grammar

/-- Only the order of priorities matters. A sequence and a rearrangement of it are both valid or
both invalid. If they are valid, their grammars have the same texts, and engines of the two answer
every history of calls alike, have counted the same after it and remember as much. -/
theorem Engine.rearranged_alike {s : S} {seq : Sequence V (V s)}
    (hshape : g.shape s = .sequence seq) {f : Int → Int} {ds : List (Component S)}
    (h : Component.Rearranges f seq.components ds) :
    let g' := g.redeclare s (.sequence { seq with components := ds })
    g'.isValid s = g.isValid s ∧
    (g.isValid s = true →
      (∀ root, g'.text root = g.text root) ∧
      ∀ memoize history,
        (fresh g' memoize).answers history = (fresh g memoize).answers history ∧
        ((fresh g' memoize).serveAll history).stats =
          ((fresh g memoize).serveAll history).stats ∧
        ((fresh g' memoize).serveAll history).remembered =
          ((fresh g memoize).serveAll history).remembered) := by
  intro g'
  refine ⟨Grammar.isValid_redeclare hshape h, fun hvalid => ?_⟩
  have hkindred : g.Kindred g' := Grammar.kindred_redeclare hshape h hvalid
  refine ⟨hkindred.text_eq, fun memoize history => ?_⟩
  have hengine := serveAll_carry hkindred (fresh g memoize) history
  have hanswers := answers_carry hkindred (fresh g memoize) history
  exact ⟨hanswers, congrArg Engine.stats hengine, congrArg Engine.remembered hengine⟩

namespace Schema

/-- Brackets around a number. -/
def brackets : List (Component (Fin 2)) :=
  [.keyword "open" 0 "[", .required "number" 1 0, .keyword "close" 1 "]"]

/-- The number and the bracket after it are of one priority, so these two keep their order. -/
def bracketsRearranged : List (Component (Fin 2)) :=
  [.required "number" 2147483647 0, .keyword "open" (-2147483648) "[",
    .keyword "close" 2147483647 "]"]

def bracketed : Schema 2 := #v[
  ⟨"Number", .terminal .number⟩,
  ⟨"Bracketed", .sequence brackets {}⟩]

/-- The least priority for what comes first, and the greatest for the rest. -/
def extreme (p : Int) : Int := if p ≤ 0 then -2147483648 else 2147483647

theorem brackets_rearrange : Component.Rearranges extreme brackets bracketsRearranged where
  comparisons := by decide
  exists_perm := by
    refine ⟨[.required "number" 1 0, .keyword "open" 0 "[", .keyword "close" 1 "]"],
      .swap .., fun p => ?_, rfl⟩
    by_cases h : p = 0
    · subst h
      rfl
    · have hopen : ¬ (0 : Int) = p := Ne.symm h
      simp [Component.ofPriority, brackets, List.filter_cons, Component.keyword,
        Component.required, Component.element, hopen]

def inBrackets : Input := .ofTexts ["[", "7", "]"]

/-- Whichever way the brackets are declared, the number in them is read. -/
theorem brackets_alike :
    let g := grammar bracketed
    let g' := g.redeclare 1 (.sequence ⟨bracketsRearranged,
      Assembly.assembler {} "Bracketed" brackets⟩)
    let history := [.one 1 inBrackets.start, .complete 1 inBrackets.start]
    g'.isValid 1 = true ∧
    g'.text 1 = .ok ("Bracketed = \x60[\x60\n" ++ "            Number\n" ++
      "            \x60]\x60\n\n" ++ "Number = ....") ∧
    (Engine.fresh g' true).answers history = (Engine.fresh g true).answers history ∧
    ((Engine.fresh g' true).serveAll history).stats = ⟨1, 2, 1⟩ := by
  intro g g' history
  have hshape : (grammar bracketed).shape 1 =
      .sequence ⟨brackets, Assembly.assembler {} "Bracketed" brackets⟩ := rfl
  obtain ⟨hvalid, hsame⟩ := Engine.rearranged_alike hshape brackets_rearrange
  have hg : g.isValid 1 = true := rfl
  obtain ⟨htext, hhistory⟩ := hsame hg
  obtain ⟨hanswers, hstats, -⟩ := hhistory true history
  exact ⟨hvalid.trans hg, (htext 1).trans (by rfl), hanswers, hstats.trans (by decide)⟩

end Schema

end Packrat
