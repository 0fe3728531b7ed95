import Packrat.Proofs.Alignment
import Packrat.Proofs.Termination

/-!
Only the texts ahead count. Two cursors are alike if the same texts are left at both, whatever
their inputs hold before them and wherever their tokens come from. Alike cursors stay alike when
they move ahead together, so a symbol is read the same at both. The tokens that labels blame lie
equally far ahead; nothing else of the two inputs can be told apart.
-/
namespace Packrat

variable {S : Type} {V : S → Type} {g : Grammar S V} {α : Type}

namespace Cursor

/-- The same texts are left at both cursors, token by token. -/
def Alike (c d : Cursor) : Prop := c.remaining.map Token.text = d.remaining.map Token.text

instance (c d : Cursor) : Decidable (c.Alike d) :=
  inferInstanceAs (Decidable (c.remaining.map Token.text = d.remaining.map Token.text))

variable {c d : Cursor}

theorem Alike.size_eq (h : c.Alike d) : c.size = d.size := by
  have hlength := congrArg List.length h
  simpa [length_remaining] using hlength

theorem Alike.drop (h : c.Alike d) (k : Nat) : (c.drop k).Alike (d.drop k) := by
  unfold Alike at h ⊢
  rw [remaining_drop, remaining_drop, List.map_drop, List.map_drop, h]

/-- The end of the input has no text, so the current text is that of the first token left. -/
theorem first_text_eq (c : Cursor) : c.first.text = (c.remaining.map Token.text).head?.join := by
  cases hend : c.atEnd with
  | true =>
    rw [first_of_atEnd hend, remaining_of_atEnd hend]
    rfl
  | false =>
    rw [remaining_eq_cons hend]
    rfl

theorem Alike.text_eq (h : c.Alike d) : c.first.text = d.first.text := by
  rw [first_text_eq, first_text_eq, h]

end Cursor

open Cursor

namespace Grammar

/-- Some component carries this label. -/
def HasLabel (g : Grammar S V) (label : String) : Prop :=
  ∃ s seq d, g.shape s = .sequence seq ∧ d ∈ seq.components ∧ d.label = some label

/-- The same comes of a reading from `c` and of one from `d`, up to the tokens themselves. -/
inductive Corresponding (g : Grammar S V) (c d : Cursor) :
    Except Halt (Outcome α) → Except Halt (Outcome α) → Prop
  | absent : Corresponding g c d (.ok none) (.ok none)
  | found (k : Nat) (value : α) :
      Corresponding g c d (.ok (some ⟨c.drop k, value⟩)) (.ok (some ⟨d.drop k, value⟩))
  | refused {error : Error} (h : g.Refuses error) :
      Corresponding g c d (.error (.failure error)) (.error (.failure error))
  | labeled (k : Nat) {label : String} (h : g.HasLabel label) :
      Corresponding g c d (.error (.failure (.parse label (c.drop k).first)))
        (.error (.failure (.parse label (d.drop k).first)))

/-- Halts of readings from `c` and from `d` that go together. -/
inductive CorrespondingHalts (g : Grammar S V) (c d : Cursor) : Halt → Halt → Prop
  | cut : CorrespondingHalts g c d .leftRecursion .leftRecursion
  | refused {error : Error} (h : g.Refuses error) :
      CorrespondingHalts g c d (.failure error) (.failure error)
  | labeled (k : Nat) {label : String} (h : g.HasLabel label) :
      CorrespondingHalts g c d (.failure (.parse label (c.drop k).first))
        (.failure (.parse label (d.drop k).first))

variable {c d : Cursor}

/-- Readings from alike cursors go ahead together, and neither stops alone. -/
def alikeAlignment (g : Grammar S V) (h : c.Alike d) : Alignment where
  cursors e f := ∃ k, e = c.drop k ∧ f = d.drop k
  halts := g.CorrespondingHalts c d
  stops _ := False
  text_eq := by
    rintro _ _ ⟨k, rfl, rfl⟩
    exact (h.drop k).text_eq
  size_eq := by
    rintro _ _ ⟨k, rfl, rfl⟩
    exact (h.drop k).size_eq
  next := by
    rintro _ _ ⟨k, rfl, rfl⟩
    exact ⟨k + 1, drop_drop c k 1, drop_drop d k 1⟩

theorem components_alike (h : c.Alike d) {s : S} {seq : Sequence V (V s)}
    (hshape : g.shape s = .sequence seq) (read : Reader V) :
    List.Forall₂ ((g.alikeAlignment h).Components read) (Component.byPriority seq.components)
      (Component.byPriority seq.components) := by
  rw [List.forall₂_same]
  intro e he
  refine ⟨e.label, rfl, ?_⟩
  rintro _ _ ⟨k, rfl, rfl⟩ -
  cases hlabel : e.label with
  | none => exact .silent
  | some label =>
    have hmem : e ∈ seq.components := (Component.byPriority_perm _).mem_iff.mp he
    exact .both (.labeled k ⟨s, seq, e, hshape, hmem, hlabel⟩)

theorem readSymbol_alike (h : c.Alike d) {read : Reader V}
    (hread : (g.alikeAlignment h).Readers read read) {e f : Cursor}
    (hef : (g.alikeAlignment h).cursors e f) (s : S) :
    (g.alikeAlignment h).InStep (g.alikeAlignment h).Outcomes (g.readSymbol read s e)
      (g.readSymbol read s f) := by
  unfold readSymbol
  cases hchecked : g.checked s with
  | error error => exact .halt (.refused (refuses_of_checked hchecked))
  | ok shape =>
    obtain ⟨-, rfl⟩ := checked_eq_ok_iff.mp hchecked
    cases hshape : g.shape s with
    | terminal matcher => exact .ok (Alignment.terminal_aligned hef matcher)
    | alternation alternatives => exact Alignment.alternation_aligned hread hef alternatives
    | sequence seq =>
      have hcomponents := components_alike h hshape read
      refine (Alignment.components_aligned hread hef hcomponents _).bind fun o o' _ ho => ?_
      cases ho with
      | none => exact .ok .none
      | some hm =>
        refine Alignment.assemble_aligned hm seq.assemble fun error left herror => ?_
        exact .refused (.assembler hshape herror)

theorem meaning_alike (hg : g.LeftRecursionFree) (h : c.Alike d) (s : S) :
    g.Corresponding c d (g.meaning s c) (g.meaning s d) := by
  have hd : g.meaning s d = g.read (g.symbols.length * c.size) s d := by
    rw [meaning, h.size_eq]
  have hstart : (g.alikeAlignment h).cursors c d := ⟨0, (drop_zero c).symm, (drop_zero d).symm⟩
  have haligned := Alignment.read_aligned (A := g.alikeAlignment h) g g .cut
    (fun depth hread t e f hef => readSymbol_alike h hread hef t)
    (g.symbols.length * c.size) s c d hstart
  rw [hd]
  change (g.alikeAlignment h).InStep (g.alikeAlignment h).Outcomes (g.meaning s c) _ at haligned
  have hreturns := meaning_returns hg s c
  generalize g.meaning s c = r at haligned hreturns
  generalize g.read (g.symbols.length * c.size) s d = t at haligned
  cases haligned with
  | ok ho =>
    cases ho with
    | none => exact .absent
    | @some m m' hm =>
      obtain ⟨rest, value⟩ := m
      obtain ⟨rest', value'⟩ := m'
      obtain ⟨⟨k, rfl, rfl⟩, rfl⟩ := hm
      exact .found k value
  | halt hhalt =>
    cases hhalt with
    | cut => simp at hreturns
    | refused hrefuses => exact .refused hrefuses
    | labeled k hlabel => exact .labeled k hlabel
  | stop hstop => exact hstop.elim

end Grammar

namespace Engine

variable [DecidableEq S]

/-- Whatever two engines have served before, at cursors with the same texts ahead they find the
same, fail with the same error, or fail at a label with tokens equally far ahead. -/
theorem parseOne_corresponding (hg : g.LeftRecursionFree) {e e' : Engine g} (he : e.Reachable)
    (he' : e'.Reachable) (s : S) {c d : Cursor} (h : c.Alike d) :
    g.Corresponding c d (e.parseOne s c).answer (e'.parseOne s d).answer := by
  rw [he.answer_parseOne, he'.answer_parseOne]
  exact Grammar.meaning_alike hg h s

end Engine

namespace Sample

/-- A parenthesis that is not closed, at the end of one file. -/
def unclosed : Input := .ofTexts ["(", "1", "+", "x"]

/-- The same after another token, from another place. -/
def unclosedLater : Input :=
  ⟨1, #[⟨"other", some ")", 1, 1⟩, ⟨"other", some "(", 2, 1⟩, ⟨"other", some "1", 2, 2⟩,
    ⟨"last", some "+", 7, 1⟩, ⟨"last", some "x", 7, 3⟩]⟩

/-- Both fail at the label of the missing parenthesis, each with the end of its own source. -/
theorem unclosed_corresponding :
    grammar.Corresponding unclosed.start (unclosedLater.start.drop 1)
      (.error (.failure (.parse "expected \x60)\x60" ⟨"", none, 0, 0⟩)) :
        Except Halt (Outcome (Value .term)))
      (.error (.failure (.parse "expected \x60)\x60" ⟨"other", none, 0, 0⟩))) :=
  Engine.parseOne_corresponding leftRecursionFree (Engine.fresh_reachable grammar true)
    (Engine.fresh_reachable grammar false) .term (by decide)

end Sample

end Packrat
