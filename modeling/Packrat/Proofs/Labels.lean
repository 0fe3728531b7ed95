import Packrat.Proofs.Alignment
import Packrat.Proofs.Priority
import Packrat.Proofs.Termination

/-!
What labels do. Without its labels a grammar declares the same components in the same order, so
its readings keep step with those of the grammar until a labeled component is absent. There the
grammar fails, and nothing around it turns the failure into an outcome. Labels therefore never
change what is found, only whether it is.
-/
namespace Packrat

variable {S : Type} {V : S → Type} {g : Grammar S V} {α : Type}

open Cursor

namespace Component

def unlabeled (d : Component S) : Component S := { d with label := none }

theorem byPriority_unlabeled (ds : List (Component S)) :
    byPriority (ds.map unlabeled) = (byPriority ds).map unlabeled :=
  byPriority_map fun _ _ _ _ => Iff.rfl

theorem flawAfter?_unlabeled (seen : List String) (ds : List (Component S)) :
    flawAfter? seen (ds.map unlabeled) = flawAfter? seen ds :=
  flawAfter?_map (f := unlabeled) (fun _ => rfl) (fun _ => rfl) seen

end Component

namespace Shape

def unlabeled : Shape V α → Shape V α
  | sequence s => sequence { s with components := s.components.map Component.unlabeled }
  | shape => shape

theorem flaw?_unlabeled (shape : Shape V α) : shape.unlabeled.flaw? = shape.flaw? := by
  match shape with
  | terminal matcher => rfl
  | alternation alternatives => rfl
  | sequence ⟨[], assemble⟩ => rfl
  | sequence ⟨d :: rest, assemble⟩ => exact Component.flawAfter?_unlabeled [] (d :: rest)

theorem inOrder_unlabeled (shape : Shape V α) :
    shape.unlabeled.inOrder = shape.inOrder.unlabeled := by
  match shape with
  | terminal matcher => rfl
  | alternation alternatives => rfl
  | sequence seq => simp only [unlabeled, inOrder, Component.byPriority_unlabeled]

end Shape

namespace Grammar

/-- The same grammar, with every label removed. -/
def unlabeled (g : Grammar S V) : Grammar S V := { g with shape := fun s => (g.shape s).unlabeled }

theorem checked_unlabeled (s : S) :
    g.unlabeled.checked s = (g.checked s).map Shape.unlabeled := by
  simp only [checked, Shape.checked, unlabeled, Shape.flaw?_unlabeled, Shape.inOrder_unlabeled]
  cases (g.shape s).flaw? <;> rfl

/-- A label of `s` raises the error at `c` or further on, where its component is absent. -/
inductive LabelRaises (g : Grammar S V) (s : S) (c : Cursor) : Error → Prop
  | intro {seq : Sequence V (V s)} {d : Component S} {label : String} {e : Cursor}
      (hshape : g.shape s = .sequence seq) (hd : d ∈ seq.components)
      (hlabel : d.label = some label) (he : c ≤ e)
      (habsent : Reader.component g.meaning e d.policy = .ok none) :
      LabelRaises g s c (.parse label e.first)

/-- The readings of a grammar and of the same without labels, until a label raises an error. -/
def labelAlignment (g : Grammar S V) (c : Cursor) : Alignment where
  cursors e f := c ≤ e ∧ e = f
  halts halt halt' := halt = halt' ∧ ∀ error, halt = .failure error → g.Refuses error
  stops halt := ∃ s error, halt = .failure error ∧ g.LabelRaises s c error
  text_eq := by
    rintro _ _ ⟨-, rfl⟩
    rfl
  size_eq := by
    rintro _ _ ⟨-, rfl⟩
    rfl
  next := by
    rintro e _ ⟨he, rfl⟩
    exact ⟨he.trans (le_next e), rfl⟩

variable {c : Cursor}

theorem halts_of_refuses {error : Error} (h : g.Refuses error) :
    (g.labelAlignment c).halts (.failure error) (.failure error) := by
  refine ⟨rfl, ?_⟩
  rintro _ ⟨⟩
  exact h

theorem components_unlabeled {s : S} {seq : Sequence V (V s)}
    (hshape : g.shape s = .sequence seq) (depth : Nat) :
    List.Forall₂ ((g.labelAlignment c).Components (g.read depth))
      (Component.byPriority seq.components)
      ((Component.byPriority seq.components).map Component.unlabeled) := by
  rw [List.forall₂_map_right_iff, List.forall₂_same]
  intro d hd
  refine ⟨none, rfl, ?_⟩
  rintro e _ ⟨he, rfl⟩ habsent
  cases hlabel : d.label with
  | none => exact .silent
  | some label =>
    -- What is absent at some depth is absent in the end.
    have happroximates := Reader.component_approximates (c := e) (read_sound g depth)
      (fun t f _ => read_approximates_meaning g depth t f) d.policy
    rw [habsent] at happroximates
    have hmem : d ∈ seq.components := (Component.byPriority_perm _).mem_iff.mp hd
    exact .first ⟨s, _, rfl, .intro hshape hmem hlabel he happroximates.eq_ok⟩

theorem readSymbol_unlabeled {depth : Nat}
    (hread : (g.labelAlignment c).Readers (g.read depth) (g.unlabeled.read depth)) (s : S)
    {e f : Cursor} (hef : (g.labelAlignment c).cursors e f) :
    (g.labelAlignment c).InStep (g.labelAlignment c).Outcomes
      (g.readSymbol (g.read depth) s e) (g.unlabeled.readSymbol (g.unlabeled.read depth) s f) := by
  unfold readSymbol
  rw [checked_unlabeled]
  cases hchecked : g.checked s with
  | error error => exact .halt (halts_of_refuses (refuses_of_checked hchecked))
  | ok shape =>
    obtain ⟨-, rfl⟩ := checked_eq_ok_iff.mp hchecked
    cases hshape : g.shape s with
    | terminal matcher => exact .ok (Alignment.terminal_aligned hef matcher)
    | alternation alternatives => exact Alignment.alternation_aligned hread hef alternatives
    | sequence seq =>
      have hcomponents := components_unlabeled (c := c) hshape depth
      refine (Alignment.components_aligned hread hef hcomponents _).bind fun o o' _ ho => ?_
      cases ho with
      | none => exact .ok .none
      | some hm =>
        refine Alignment.assemble_aligned hm seq.assemble fun error left herror => ?_
        exact halts_of_refuses (.assembler hshape herror)

/-- Without left recursion a grammar either says what it says without its labels, or fails at
one of them. -/
theorem meaning_unlabeled (hg : g.LeftRecursionFree) (s : S) (c : Cursor) :
    (∃ o, g.meaning s c = .ok o ∧ g.unlabeled.meaning s c = .ok o) ∨
      (∃ error, g.Refuses error ∧ g.meaning s c = .error (.failure error) ∧
        g.unlabeled.meaning s c = .error (.failure error)) ∨
      ∃ t error, g.LabelRaises t c error ∧ g.meaning s c = .error (.failure error) := by
  have haligned := Alignment.read_aligned (A := g.labelAlignment c) g g.unlabeled
    ⟨rfl, fun _ h => nomatch h⟩
    (fun depth hread t e f hef => readSymbol_unlabeled hread t hef)
    (g.symbols.length * c.size) s c c ⟨le_rfl, rfl⟩
  change (g.labelAlignment c).InStep (g.labelAlignment c).Outcomes (g.meaning s c)
    (g.unlabeled.meaning s c) at haligned
  have hreturns := meaning_returns hg s c
  generalize g.meaning s c = r at haligned hreturns ⊢
  generalize g.unlabeled.meaning s c = t at haligned ⊢
  cases haligned with
  | ok ho =>
    cases ho with
    | none => exact Or.inl ⟨none, rfl, rfl⟩
    | @some m m' hm =>
      obtain ⟨rest, value⟩ := m
      obtain ⟨rest', value'⟩ := m'
      obtain ⟨⟨-, hrest⟩, hvalue⟩ := hm
      obtain rfl : rest = rest' := hrest
      obtain rfl : value = value' := hvalue
      exact Or.inl ⟨some ⟨rest, value⟩, rfl, rfl⟩
  | @halt halt _ hhalt =>
    obtain ⟨rfl, hrefuses⟩ := hhalt
    cases halt with
    | failure error => exact Or.inr (Or.inl ⟨error, hrefuses error rfl, rfl, rfl⟩)
    | leftRecursion => simp at hreturns
  | stop hstop =>
    obtain ⟨u, error, rfl, hraises⟩ := hstop
    exact Or.inr (Or.inr ⟨u, error, hraises, rfl⟩)

end Grammar

namespace Engine

variable [DecidableEq S]

/-- An engine of a grammar answers as one of the same grammar without labels does, or with an
error that a label raises. Outcomes are never owed to a label. -/
theorem parseOne_unlabeled (hg : g.LeftRecursionFree) {e : Engine g} (he : e.Reachable)
    {e' : Engine g.unlabeled} (he' : e'.Reachable) (s : S) (c : Cursor) :
    ((∃ o, (e.parseOne s c).answer = .ok o ∧ (e'.parseOne s c).answer = .ok o) ∨
      (∃ error, g.Refuses error ∧ (e.parseOne s c).answer = .error (.failure error) ∧
        (e'.parseOne s c).answer = .error (.failure error)) ∨
      ∃ t error, g.LabelRaises t c error ∧
        (e.parseOne s c).answer = .error (.failure error)) ∧
    ∀ o, (e.parseOne s c).answer = .ok o → (e'.parseOne s c).answer = .ok o := by
  rw [he.answer_parseOne, he'.answer_parseOne]
  have hcases := Grammar.meaning_unlabeled hg s c
  refine ⟨hcases, fun o ho => ?_⟩
  rcases hcases with ⟨o', h, h'⟩ | ⟨error, -, h, -⟩ | ⟨t, error, -, h⟩
  · rw [h', ← h, ho]
  · rw [ho] at h
    cases h
  · rw [ho] at h
    cases h

end Engine

namespace Sample

/-- A sum that breaks off after its sign. -/
def dangling : Input := .ofTexts ["1", "+"]

/-- The missing term is an error even though it belongs to a repetition, which could do without;
the grammar without labels stops before the sign. -/
theorem dangling_raises :
    (∃ t error, grammar.LabelRaises t dangling.start error ∧
      ((Engine.fresh grammar true).parseOne .expr dangling.start).answer =
        .error (.failure error)) ∧
    ((Engine.fresh grammar.unlabeled true).parseOne .expr dangling.start).answer =
      .ok (some ⟨dangling.start.next, ⟨.number ⟨1, by decide⟩, []⟩⟩) := by
  have hcases := Engine.parseOne_unlabeled leftRecursionFree
    (Engine.fresh_reachable grammar true) (Engine.fresh_reachable grammar.unlabeled true) .expr
    dangling.start
  have hlabeled : ((Engine.fresh grammar true).parseOne .expr dangling.start).answer =
      .error (.failure (.parse "expected term after \x60+\x60" dangling.endToken)) := rfl
  have hunlabeled : ((Engine.fresh grammar.unlabeled true).parseOne .expr dangling.start).answer =
      .ok (some ⟨dangling.start.next, ⟨.number ⟨1, by decide⟩, []⟩⟩) := rfl
  refine ⟨?_, hunlabeled⟩
  rcases hcases.1 with ⟨o, h, -⟩ | ⟨error, -, -, h⟩ | hraises
  · rw [hlabeled] at h
    cases h
  · rw [hunlabeled] at h
    cases h
  · exact hraises

end Sample

end Packrat
