import Packrat.Proofs.ErrorSource
import Packrat.Proofs.History
import Packrat.Schema

/-!
Termination. Without left recursion no call is cut short: a call that consumes no token goes down
in the order of left calls, and every other one leaves fewer tokens. A row of items consumes a
token with each item but the last, and a list one with each delimiter, so neither is ever ended
by its budget.
-/
namespace Packrat

variable {S : Type} {V : S → Type} {g : Grammar S V}

open Grammar Cursor Engine

namespace Grammar

/-- Every failure is raised by a symbol at or after the place of the call. The induction is on the
tokens left, and where their number stays, along left calls. -/
theorem exists_raises_of_meaning_error (hg : g.LeftRecursionFree) {s : S} {c : Cursor}
    {halt : Halt} (h : g.meaning s c = .error halt) :
    ∃ error t d, halt = .failure error ∧ c ≤ d ∧ g.Raises g.meaning t d error := by
  induction hsize : c.size using Nat.strong_induction_on generalizing s c with
  | h size ihsize =>
    revert h
    apply hg.wellFounded.induction s
    intro s ihleft h
    cases hend : c.atEnd with
    | true =>
      rw [meaning_atEnd s hend] at h
      cases h
    | false =>
      rw [meaning_eq s hend] at h
      have hcause := readSymbol_error (meaning_sound g) h
      rcases hcause with ⟨error, heq, hraises⟩ | ⟨t, d, -, hd, hleft, h'⟩
      · exact ⟨error, s, c, heq, le_rfl, hraises⟩
      · rcases eq_or_size_lt_of_le hd with hstay | hlt
        · have hcall := hleft hstay
          rw [hstay] at h'
          exact ihleft t hcall h'
        · have hfewer : d.size < size := by omega
          obtain ⟨error, u, e, heq, he, hraises⟩ := ihsize d.size hfewer h' rfl
          exact ⟨error, u, e, heq, hd.trans he, hraises⟩

theorem meaning_returns (hg : g.LeftRecursionFree) (s : S) (c : Cursor) :
    (∃ o, g.meaning s c = .ok o) ∨ ∃ error, g.meaning s c = .error (.failure error) := by
  cases h : g.meaning s c with
  | ok o => exact Or.inl ⟨o, rfl⟩
  | error halt =>
    obtain ⟨error, t, d, heq, -, -⟩ := exists_raises_of_meaning_error hg h
    exact Or.inr ⟨error, by rw [heq]⟩

end Grammar

namespace Parser

section Rows

variable {I : Engine g → Prop} {low high : Reader V} {call : Caller g} {s : S} {α β : Type}

theorem bind_congr_first {p q : Parser g α} {w : Work g} (h : p w = q w) (k : α → Parser g β) :
    (p >>= k) w = (q >>= k) w := by
  simp only [bind, EStateM.bind, h]

theorem bind_congr_next {p : Parser g α} {k l : α → Parser g β} {w : Work g}
    (h : ∀ a w', p w = .ok a w' → k a w' = l a w') : (p >>= k) w = (p >>= l) w := by
  simp only [bind, EStateM.bind]
  cases hp : p w with
  | ok a w' => exact h a w' hp
  | error halt w' => rfl

/-- What is known of a match that a call has found. -/
theorem CallsWithin.found {c : Cursor} (h : CallsWithin I c low high call) (hhigh : high.Sound g)
    {w w' : Work g} (hw : I w.engine) {m : Match (V s)} (hcall : call s c w = .ok (some m) w') :
    c ≤ m.rest ∧ I w'.engine := by
  obtain ⟨-, hanswer, hafter⟩ := h s c le_rfl w hw
  simp only [answer, after, hcall] at hanswer hafter
  exact ⟨hhigh.le hanswer.eq_ok, hafter⟩

theorem items_atEnd {c : Cursor} (h : call s c = pure none) (budget : Nat) :
    items call s budget c = pure ⟨c, []⟩ := by
  cases budget with
  | zero => rfl
  | succ budget =>
    unfold items
    rw [h]
    rfl

theorem listing_atEnd {c : Cursor} (h : call s c = pure none) (delimiter : Literal)
    (budget : Nat) : listing call s delimiter budget c = pure ⟨c, [], true⟩ := by
  cases budget with
  | zero => rfl
  | succ budget =>
    unfold listing
    rw [h]
    rfl

/-- A row runs the same under all budgets that are not less than the tokens left. -/
theorem items_budget (hhigh : high.Sound g) (hend : ∀ d, d.atEnd = true → call s d = pure none)
    {c : Cursor} (h : CallsWithin I c low high call) {budget budget' : Nat}
    (hb : c.size ≤ budget) (hb' : c.size ≤ budget') {w : Work g} (hw : I w.engine) :
    items call s budget c w = items call s budget' c w := by
  induction budget generalizing c budget' w with
  | zero =>
    have hdone : c.atEnd = true := (atEnd_iff c).mpr (by omega)
    rw [items_atEnd (hend c hdone), items_atEnd (hend c hdone)]
  | succ budget ih =>
    cases budget' with
    | zero =>
      have hdone : c.atEnd = true := (atEnd_iff c).mpr (by omega)
      rw [items_atEnd (hend c hdone), items_atEnd (hend c hdone)]
    | succ budget' =>
      unfold items
      apply bind_congr_next
      intro o w' hcall
      cases o with
      | none => rfl
      | some m =>
        obtain ⟨hle, hw'⟩ := h.found hhigh hw hcall
        have hsize := size_le_of_le hle
        by_cases hstall : m.rest.size = c.size
        · simp only [hstall, if_true]
        · simp only [hstall, if_false]
          have hb : m.rest.size ≤ budget := by omega
          have hb' : m.rest.size ≤ budget' := by omega
          exact bind_congr_first (ih (h.later hle) hb hb' hw') _

/-- A list runs the same under all budgets that are not less than the tokens left. -/
theorem listing_budget (hhigh : high.Sound g) (hend : ∀ d, d.atEnd = true → call s d = pure none)
    (delimiter : Literal) {c : Cursor} (h : CallsWithin I c low high call)
    {budget budget' : Nat} (hb : c.size ≤ budget) (hb' : c.size ≤ budget') {w : Work g}
    (hw : I w.engine) :
    listing call s delimiter budget c w = listing call s delimiter budget' c w := by
  induction budget generalizing c budget' w with
  | zero =>
    have hdone : c.atEnd = true := (atEnd_iff c).mpr (by omega)
    rw [listing_atEnd (hend c hdone), listing_atEnd (hend c hdone)]
  | succ budget ih =>
    cases budget' with
    | zero =>
      have hdone : c.atEnd = true := (atEnd_iff c).mpr (by omega)
      rw [listing_atEnd (hend c hdone), listing_atEnd (hend c hdone)]
    | succ budget' =>
      unfold listing
      apply bind_congr_next
      intro o w' hcall
      cases o with
      | none => rfl
      | some m =>
        obtain ⟨hle, hw'⟩ := h.found hhigh hw hcall
        have hsize := size_le_of_le hle
        by_cases hbegins : m.rest.begins delimiter.text = true
        · simp only [hbegins, if_true]
          have hsome := size_ne_zero (atEnd_eq_false_of_text ((begins_iff _ _).mp hbegins))
          have hnext := size_next m.rest
          have hb : m.rest.next.size ≤ budget := by omega
          have hb' : m.rest.next.size ≤ budget' := by omega
          have hlater : CallsWithin I m.rest.next low high call :=
            h.later (hle.trans (le_next m.rest))
          exact bind_congr_first (ih hlater hb hb' hw') _
        · simp only [hbegins, Bool.false_eq_true, if_false]

end Rows

section Calls

variable [DecidableEq S] (g) (depth : Nat)

theorem callsWithin_call (c : Cursor) :
    CallsWithin (g := g) Faithful c (g.read depth) g.meaning (call depth) :=
  fun t d _ => call_within g depth t d

variable {g} {depth} {budget : Nat} {c : Cursor} {w : Work g}

theorem items_call (s : S) (hbudget : c.size ≤ budget) (hw : w.engine.Faithful) :
    items (call depth) s budget c w = items (call depth) s c.size c w :=
  items_budget (meaning_sound g) (fun _ hend => call_atEnd depth s hend)
    (callsWithin_call g depth c) hbudget le_rfl hw

theorem listing_call (s : S) (delimiter : Literal) (hbudget : c.size ≤ budget)
    (hw : w.engine.Faithful) :
    listing (call depth) s delimiter budget c w = listing (call depth) s delimiter c.size c w :=
  listing_budget (meaning_sound g) (fun _ hend => call_atEnd depth s hend) delimiter
    (callsWithin_call g depth c) hbudget le_rfl hw

end Calls

end Parser

namespace Engine

open Packrat.Parser

variable [DecidableEq S]

/-- Calls may nest deeper than they need to. -/
theorem Faithful.answer_call {e : Engine g} (he : e.Faithful) {depth : Nat} {c : Cursor}
    (hdepth : g.symbols.length * c.size ≤ depth) (s : S) :
    ((call depth s c).runOn e).answer = g.meaning s c := by
  rw [answer_runOn]
  exact answer_of_scripted (fun _ _ => .once le_rfl) hdepth he

/-- Without left recursion an engine that calls can lead to returns, and more nested calls than it
allows for give the same answer. At work on whatever faithful table, no budget beyond the tokens
left changes how a row of items or a list runs. -/
theorem parseOne_returns (hg : g.LeftRecursionFree) {e : Engine g} (he : e.Reachable) (s : S)
    (c : Cursor) :
    ((∃ o, (e.parseOne s c).answer = .ok o) ∨
      ∃ error, (e.parseOne s c).answer = .error (.failure error)) ∧
    (∀ depth, g.symbols.length * c.size ≤ depth →
      ((call depth s c).runOn e).answer = (e.parseOne s c).answer) ∧
    ∀ (depth budget : Nat) (t : S) (d : Cursor) (w : Work g), d.size ≤ budget →
      w.engine.Faithful →
        items (call depth) t budget d w = items (call depth) t d.size d w ∧
        ∀ delimiter, listing (call depth) t delimiter budget d w =
          listing (call depth) t delimiter d.size d w := by
  rw [he.answer_parseOne]
  refine ⟨meaning_returns hg s c, ?_, ?_⟩
  · intro depth hdepth
    exact he.faithful.answer_call hdepth s
  · intro depth budget t d w hbudget hw
    refine ⟨items_call t hbudget hw, ?_⟩
    intro delimiter
    exact listing_call t delimiter hbudget hw

end Engine

namespace Sample

/-- Calls before a token is consumed go from expressions over terms to what terms start with. -/
def leftRank : Symbol → Nat
  | .num | .ident | .paren | .tail => 0
  | .term | .pairNumIdent | .pairNumTerm | .listingNum | .pairIdentListing | .wrongSlot
  | .wrongType => 1
  | .expr | .listingPair => 2
  | .pairExprPair | .listingExpr => 3

theorem leftRecursionFree : grammar.LeftRecursionFree := by
  refine Grammar.leftRecursionFree_of_leading leftRank fun s => ?_
  cases s <;> decide

end Sample

namespace Schema

/-- A number that may be left out, a row of such and a list of such. Their values keep nothing. -/
def gaps : Schema 4 := #v[
  ⟨"Number", .terminal .number⟩,
  ⟨"Gap", .sequence [.optional "number" 0 0] { takes := some [] }⟩,
  ⟨"Row", .sequence [.zeroOrMore "gaps" 0 1] { takes := some [] }⟩,
  ⟨"List", .sequence [((Component.delimited "gaps" 0 1 ";").trailingAllowed true)]
    { takes := some [] }⟩]

theorem gaps_leftRecursionFree : (grammar gaps).LeftRecursionFree :=
  Grammar.leftRecursionFree_of_leading Fin.val (by decide)

/-- A list of three numbers with two of them left out, and a delimiter after the last. -/
def gapped : Input := .ofTexts [";", "1", ";", ";"]

/-- The list is read, and no further depth or budget changes how. -/
theorem gaps_return :
    let e := Engine.fresh (grammar gaps) true
    ((∃ o, (e.parseOne 3 gapped.start).answer = .ok o) ∨
      ∃ error, (e.parseOne 3 gapped.start).answer = .error (.failure error)) ∧
    ((Parser.call 100 3 gapped.start).runOn e).answer = (e.parseOne 3 gapped.start).answer ∧
    Parser.items (Parser.call 100) 1 50 gapped.start { engine := e } =
      Parser.items (Parser.call 100) 1 4 gapped.start { engine := e } ∧
    Parser.listing (Parser.call 100) 1 ⟨";"⟩ 50 gapped.start { engine := e } =
      Parser.listing (Parser.call 100) 1 ⟨";"⟩ 4 gapped.start { engine := e } := by
  intro e
  have he : e.Reachable := Engine.fresh_reachable (grammar gaps) true
  obtain ⟨hreturns, hdepth, hbudget⟩ :=
    Engine.parseOne_returns gaps_leftRecursionFree he 3 gapped.start
  obtain ⟨hitems, hlisting⟩ :=
    hbudget 100 50 1 gapped.start { engine := e } (by decide) he.faithful
  exact ⟨hreturns, hdepth 100 (by decide), hitems, hlisting ⟨";"⟩⟩

end Schema

end Packrat
