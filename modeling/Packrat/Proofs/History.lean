import Packrat.Proofs.Faithfulness
import Packrat.Sample

/-!
Histories of calls on one engine. Whatever an engine has served before, with or without a table,
over the same input or over others, and whether those calls matched, failed or found nothing, it
answers the next call as an engine without a table would that has served nothing yet. What it
finds is always a derivation of the words it has passed.
-/
namespace Packrat

variable {S : Type} {V : S → Type} {g : Grammar S V}

/-- A call from outside. -/
inductive Request (S : Type) where
  | one (s : S) (c : Cursor)
  | complete (s : S) (c : Cursor)

def Request.symbol : Request S → S
  | one s _ | complete s _ => s

/-- What a call returns if it does not fail. -/
def Request.Value (V : S → Type) : Request S → Type
  | one s _ => Outcome (V s)
  | complete s _ => V s

namespace Grammar

/-- The value of `s` that spans all that is left, or the reason why there is none. -/
def meaningAll (g : Grammar S V) (s : S) (c : Cursor) : Except Halt (V s) := do
  match ← g.meaning s c with
  | none => .error (.failure (.parse ("expected " ++ g.name s) c.first))
  | some m =>
    if m.rest.atEnd then .ok m.value
    else .error (.failure (.parse "unexpected trailing input" m.rest.first))

/-- What the grammar has to say to a call. -/
def reply (g : Grammar S V) : (r : Request S) → Except Halt (r.Value V)
  | .one s c => g.meaning s c
  | .complete s c => g.meaningAll s c

end Grammar

namespace Parser

open Engine

variable [DecidableEq S]

theorem parse_within (g : Grammar S V) (s : S) (c : Cursor) :
    Within (g := g) Faithful Faithful (g.meaning s c) (g.meaning s c) (parse s c) :=
  call_within g _ s c

theorem parseAll_within (g : Grammar S V) (s : S) (c : Cursor) :
    Within (g := g) Faithful Faithful (g.meaningAll s c) (g.meaningAll s c) (parseAll s c) := by
  refine (parse_within g s c).bind fun o _ => ?_
  cases o with
  | none => exact .throw _ _
  | some m =>
    simp only
    split
    · exact .pure _ _
    · exact .throw _ _

end Parser

namespace Engine

/-- An engine that has served no call yet. -/
def fresh (g : Grammar S V) (memoize : Bool) : Engine g := { memoize := memoize }

variable [DecidableEq S]

def serve (e : Engine g) : (r : Request S) → Run g (r.Value V)
  | .one s c => e.parseOne s c
  | .complete s c => e.parseComplete s c

/-- The engine that is left after a history of calls. -/
def serveAll (e : Engine g) (history : List (Request S)) : Engine g :=
  history.foldl (fun e r => (e.serve r).engine) e

/-- The answers to a history of calls, each with its call. -/
def answers (e : Engine g) : List (Request S) → List ((r : Request S) × Except Halt (r.Value V))
  | [] => []
  | r :: rest => ⟨r, (e.serve r).answer⟩ :: (e.serve r).engine.answers rest

theorem fresh_faithful (g : Grammar S V) (memoize : Bool) : (fresh g memoize).Faithful :=
  faithful_of_table_none rfl

theorem Faithful.answer_serve {e : Engine g} (he : e.Faithful) (r : Request S) :
    (e.serve r).answer = g.reply r := by
  cases r with
  | one s c =>
    change ((Parser.parse s c).runOn e).answer = g.meaning s c
    rw [Parser.answer_runOn]
    exact (Parser.parse_within g s c).answer_eq rfl he
  | complete s c =>
    change ((Parser.parseAll s c).runOn e).answer = g.meaningAll s c
    rw [Parser.answer_runOn]
    exact (Parser.parseAll_within g s c).answer_eq rfl he

theorem Faithful.serve {e : Engine g} (he : e.Faithful) (r : Request S) :
    (e.serve r).engine.Faithful := by
  cases r with
  | one s c =>
    change ((Parser.parse s c).runOn e).engine.Faithful
    rw [Parser.engine_runOn]
    exact (Parser.parse_within g s c { engine := e } he).2.2
  | complete s c =>
    change ((Parser.parseAll s c).runOn e).engine.Faithful
    rw [Parser.engine_runOn]
    exact (Parser.parseAll_within g s c { engine := e } he).2.2

theorem Faithful.serveAll {e : Engine g} (he : e.Faithful) (history : List (Request S)) :
    (e.serveAll history).Faithful := by
  induction history generalizing e with
  | nil => exact he
  | cons r rest ih => exact ih (he.serve r)

theorem Faithful.answers_eq {e : Engine g} (he : e.Faithful) (history : List (Request S)) :
    e.answers history = history.map fun r => ⟨r, g.reply r⟩ := by
  induction history generalizing e with
  | nil => rfl
  | cons r rest ih => rw [answers, he.answer_serve r, ih (he.serve r), List.map_cons]

/-- An engine that some history of calls leads to. -/
def Reachable (e : Engine g) : Prop :=
  ∃ memoize history, e = (fresh g memoize).serveAll history

theorem fresh_reachable (g : Grammar S V) (memoize : Bool) : (fresh g memoize).Reachable :=
  ⟨memoize, [], rfl⟩

theorem Reachable.faithful {e : Engine g} (he : e.Reachable) : e.Faithful := by
  obtain ⟨memoize, history, rfl⟩ := he
  exact (fresh_faithful g memoize).serveAll history

/-- Every engine that calls can lead to answers with what the grammar means. -/
theorem Reachable.answer_parseOne {e : Engine g} (he : e.Reachable) (s : S) (c : Cursor) :
    (e.parseOne s c).answer = g.meaning s c := he.faithful.answer_serve (.one s c)

/-- Each call of a history is answered as if it were the first, on an engine without a table. -/
theorem answers_eq_afresh (g : Grammar S V) (memoize : Bool) (history : List (Request S)) :
    (fresh g memoize).answers history =
      history.map fun r => ⟨r, ((fresh g false).serve r).answer⟩ := by
  rw [(fresh_faithful g memoize).answers_eq]
  refine List.map_congr_left fun r _ => ?_
  rw [(fresh_faithful g false).answer_serve]

/-- Every match that an engine finds ends after words that are all there and that its value
derives. -/
theorem exists_derives_of_parseOne {e : Engine g} (he : e.Reachable) {s : S} {c : Cursor}
    {m : Match (V s)} (h : (e.parseOne s c).answer = .ok (some m)) :
    ∃ words : List String, words.length ≤ c.size ∧ m.rest = c.drop words.length ∧
      (c.remaining.take words.length).map Token.text = words.map some ∧
      g.Derives s m.value words := by
  rw [he.answer_parseOne] at h
  obtain ⟨words, hspells, hderives⟩ := Grammar.meaning_sound g s c m h
  exact ⟨words, hspells.length_le, hspells.rest_eq, hspells.texts_eq, hderives⟩

end Engine

/-- An input whose tokens have the given texts. -/
def Input.ofTexts (texts : List String) : Input :=
  ⟨0, (texts.map fun text => ⟨"", some text, 0, 0⟩).toArray⟩

namespace Sample

/-- A list of numbers with a delimiter after the last. -/
def numbers : Input := .ofTexts ["1", ";", "2", ";"]

/-- The list is found, trailing delimiter included, after another symbol was not. -/
theorem derives_numbers :
    ∃ words : List String, words.length ≤ 4 ∧
      numbers.start.drop 4 = numbers.start.drop words.length ∧
      (numbers.start.remaining.take words.length).map Token.text = words.map some ∧
      grammar.Derives .listingNum [⟨1, by decide⟩, ⟨2, by decide⟩] words :=
  Engine.exists_derives_of_parseOne
    (e := (Engine.fresh grammar true).serveAll [.complete .pairNumTerm numbers.start])
    ⟨true, _, rfl⟩ (s := .listingNum) (c := numbers.start)
    (m := ⟨numbers.start.drop 4, [⟨1, by decide⟩, ⟨2, by decide⟩]⟩) rfl

end Sample

end Packrat
