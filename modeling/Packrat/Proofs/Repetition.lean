import Packrat.Proofs.Termination

/-!
Rows of items. A repetition takes every item that it can, each where the one before it ended. The
row ends where an item is absent, or after one that consumes nothing, which would be found again
and again. As no item is found where the input is used up, a row is not longer than the tokens that
are left. Where an item fails, the repetition fails with it, whatever it has found before.
-/
namespace Packrat

variable {S : Type} {V : S → Type} {g : Grammar S V} {α : Type}

open Cursor

/-- Where matches that follow one another from `c` on stand after the first `i` of them. -/
def Cursor.after (c : Cursor) : List (Match α) → Nat → Cursor
  | _, 0 => c
  | [], _ + 1 => c
  | m :: rest, i + 1 => m.rest.after rest i
termination_by structural _ i => i

namespace Reader

variable {read : Reader V} {s : S} {c : Cursor} {m : Match (V s)} {ms : List (Match (V s))}
  {halt : Halt}

/-- Matches of `s` in a row, each found where the one before it ended. All of them consume tokens,
except perhaps the last. -/
structure Row (read : Reader V) (s : S) (c : Cursor) (ms : List (Match (V s))) : Prop where
  found : ∀ i m, ms[i]? = some m → read s (c.after ms i) = .ok (some m)
  consumes : ∀ i, i + 1 < ms.length → (c.after ms (i + 1)).size < (c.after ms i).size

/-- The row cannot go on: the next item is absent, or the last one has consumed nothing. -/
def RowEnds (read : Reader V) (s : S) (c : Cursor) (ms : List (Match (V s))) : Prop :=
  read s (c.after ms ms.length) = .ok none ∨
    ∃ n, ms.length = n + 1 ∧ c.after ms (n + 1) = c.after ms n

/-- The row comes to a place where the next item fails. -/
def RowBreaks (read : Reader V) (s : S) (c : Cursor) (halt : Halt) : Prop :=
  ∃ ms, read.Row s c ms ∧ read s (c.after ms ms.length) = .error halt

namespace Row

theorem nil (read : Reader V) (s : S) (c : Cursor) : read.Row s c [] where
  found i m h := by simp at h
  consumes i h := by simp at h

theorem single (hm : read s c = .ok (some m)) : read.Row s c [m] where
  found i m' h := by
    obtain ⟨rfl, rfl⟩ : i = 0 ∧ m = m' := by
      cases i with
      | zero => simpa using h
      | succ i => simp at h
    exact hm
  consumes i h := by simp at h

theorem cons (hm : read s c = .ok (some m)) (hlt : m.rest.size < c.size)
    (hrest : read.Row s m.rest ms) : read.Row s c (m :: ms) where
  found i m' h := by
    cases i with
    | zero =>
      obtain rfl : m = m' := by simpa using h
      exact hm
    | succ i => exact hrest.found i m' (by simpa using h)
  consumes i h := by
    cases i with
    | zero => exact hlt
    | succ i => exact hrest.consumes i (by simpa using h)

theorem head (h : read.Row s c (m :: ms)) : read s c = .ok (some m) := h.found 0 m rfl

theorem tail (h : read.Row s c (m :: ms)) : read.Row s m.rest ms where
  found i m' hi := h.found (i + 1) m' (by simpa using hi)
  consumes i hi := h.consumes (i + 1) (by simpa using hi)

end Row

/-- What is known of a reader of items: matches go on, and none begins at the end. -/
structure Proceeds (read : Reader V) (s : S) : Prop where
  le : ∀ {c m}, read s c = .ok (some m) → c ≤ m.rest
  atEnd : ∀ {c}, c.atEnd = true → read s c = .ok none

theorem Proceeds.size_ne_zero (hread : read.Proceeds s) (h : read s c = .ok (some m)) :
    c.size ≠ 0 := by
  intro hsize
  rw [hread.atEnd ((atEnd_iff c).mpr hsize)] at h
  cases h

/-- Items that are read make up a row that ends. -/
theorem items_row (hread : read.Proceeds s) {budget : Nat} (hbudget : c.size ≤ budget)
    {m : Match (List (V s))} (h : items read s budget c = .ok m) :
    ∃ ms, read.Row s c ms ∧ read.RowEnds s c ms ∧ ms.length ≤ c.size ∧
      m = ⟨c.after ms ms.length, ms.map Match.value⟩ := by
  induction budget generalizing c m with
  | zero =>
    cases h
    have hend : c.atEnd = true := (atEnd_iff c).mpr (by omega)
    exact ⟨[], .nil read s c, Or.inl (hread.atEnd hend), Nat.zero_le _, rfl⟩
  | succ budget ih =>
    obtain ⟨o, ho, h⟩ := bind_eq_ok_iff.mp h
    cases o with
    | none =>
      cases h
      exact ⟨[], .nil read s c, Or.inl ho, Nat.zero_le _, rfl⟩
    | some m₁ =>
      have hsome := hread.size_ne_zero ho
      have hle := hread.le ho
      simp only at h
      split at h
      · rename_i hstall
        cases h
        have hstay : m₁.rest = c := ext_size (input_eq_of_le hle) hstall
        exact ⟨[m₁], .single ho, Or.inr ⟨0, rfl, hstay⟩, by simp; omega, rfl⟩
      · rename_i hconsumed
        obtain ⟨more, hmore, h⟩ := bind_eq_ok_iff.mp h
        cases h
        have hlt : m₁.rest.size < c.size := by
          have := size_le_of_le hle
          omega
        obtain ⟨ms, hrow, hends, hlength, rfl⟩ := ih (by omega) hmore
        refine ⟨m₁ :: ms, .cons ho hlt hrow, ?_, by simp; omega, rfl⟩
        rcases hends with habsent | ⟨n, hn, hstay⟩
        · exact Or.inl habsent
        · exact Or.inr ⟨n + 1, by simp [hn], hstay⟩

/-- Reading items fails just where the row breaks. -/
theorem items_eq_error_iff (hread : read.Proceeds s) {budget : Nat} (hbudget : c.size ≤ budget) :
    items read s budget c = .error halt ↔ read.RowBreaks s c halt := by
  induction budget generalizing c with
  | zero =>
    have hend : c.atEnd = true := (atEnd_iff c).mpr (by omega)
    have habsent := hread.atEnd hend
    constructor
    · intro h
      cases h
    · rintro ⟨ms, hrow, hfails⟩
      cases ms with
      | nil =>
        change read s c = .error halt at hfails
        rw [habsent] at hfails
        cases hfails
      | cons m ms =>
        rw [hrow.head] at habsent
        cases habsent
  | succ budget ih =>
    constructor
    · intro h
      rcases bind_eq_error_iff.mp h with h | ⟨o, ho, h⟩
      · exact ⟨[], .nil read s c, h⟩
      · cases o with
        | none => cases h
        | some m =>
          simp only at h
          split at h
          · cases h
          · rename_i hconsumed
            have hle := size_le_of_le (hread.le ho)
            rcases bind_eq_error_iff.mp h with h | ⟨more, -, h⟩
            · obtain ⟨ms, hrow, hfails⟩ := (ih (by omega)).mp h
              exact ⟨m :: ms, .cons ho (by omega) hrow, hfails⟩
            · cases h
    · rintro ⟨ms, hrow, hfails⟩
      cases ms with
      | nil => exact bind_eq_error_iff.mpr (Or.inl hfails)
      | cons m ms =>
        have hle := hread.le hrow.head
        -- An item that stalled would be found once more, and not fail.
        have hconsumed : m.rest.size ≠ c.size := by
          intro hstall
          have hstay : m.rest = c := ext_size (input_eq_of_le hle) hstall
          cases ms with
          | nil =>
            change read s m.rest = .error halt at hfails
            rw [hstay, hrow.head] at hfails
            cases hfails
          | cons m' ms =>
            have hlt : m.rest.size < c.size := hrow.consumes 0 (by simp)
            omega
        have hbudget : m.rest.size ≤ budget := by
          have := size_le_of_le hle
          omega
        have hrest := (ih hbudget).mpr ⟨ms, hrow.tail, hfails⟩
        refine bind_eq_error_iff.mpr (Or.inr ⟨some m, hrow.head, ?_⟩)
        simp only [hconsumed, if_false]
        exact bind_eq_error_iff.mpr (Or.inl hrest)

/-- A repetition fails where its row breaks. -/
theorem repetition_breaks (hread : read.Proceeds s) (h : read.RowBreaks s c halt) (least : Nat) :
    repetition read s least c = .error halt :=
  bind_eq_error_iff.mpr (Or.inl ((items_eq_error_iff hread le_rfl).mpr h))

/-- A repetition whose row does not break finds all of it. -/
theorem repetition_row (hread : read.Proceeds s) (h : ∀ halt, ¬ read.RowBreaks s c halt) :
    ∃ ms, read.Row s c ms ∧ read.RowEnds s c ms ∧ ms.length ≤ c.size ∧
      ∀ least, repetition read s least c =
        .ok (if ms.length < least then none
          else some ⟨c.after ms ms.length, ms.map Match.value⟩) := by
  cases hitems : items read s c.size c with
  | error halt => exact absurd ((items_eq_error_iff hread le_rfl).mp hitems) (h halt)
  | ok m =>
    obtain ⟨ms, hrow, hends, hlength, rfl⟩ := items_row hread le_rfl hitems
    refine ⟨ms, hrow, hends, hlength, fun least => ?_⟩
    refine bind_eq_ok_iff.mpr ⟨_, hitems, ?_⟩
    simp only [List.length_map]

end Reader

theorem Grammar.meaning_proceeds (g : Grammar S V) (s : S) : g.meaning.Proceeds s where
  le := (meaning_sound g).le
  atEnd := meaning_atEnd s

section Greedy

open Packrat.Parser

variable [DecidableEq S]

/-- What an engine answers for each symbol at each cursor. -/
def Engine.reader (e : Engine g) : Reader V := fun s c => (e.parseOne s c).answer

/-- Takes matches of `s` in a quantity, with calls nested at most `depth` deep. -/
def Parser.attempt (depth : Nat) (s : S) (c : Cursor) (q : Quantity) :
    Parser g (Outcome ((q.slotType s).Value V)) := component (call depth) c (.element s q)

/-- A repetition is greedy. In terms of what the engine answers for its items, it fails with the
first item that does, and else finds a row that can neither go on nor be longer than the tokens
left; one that asks for an item differs only where there is none. This holds at every stage of a
run, on whatever faithful table, unless the depth of calls cuts the repetition short. -/
theorem Engine.repetition_greedy {e : Engine g} (he : e.Reachable) (s : S) (c : Cursor) :
    (∀ halt, e.reader.RowBreaks s c halt →
      ∀ depth, g.symbols.length * c.size ≤ depth → ∀ w : Work g, w.engine.Faithful →
        (Parser.attempt depth s c .zeroOrMore).answer w = .error halt ∧
        (Parser.attempt depth s c .oneOrMore).answer w = .error halt) ∧
    ((∀ halt, ¬ e.reader.RowBreaks s c halt) →
      ∃ ms, e.reader.Row s c ms ∧ e.reader.RowEnds s c ms ∧ ms.length ≤ c.size ∧
        ∀ depth, g.symbols.length * c.size ≤ depth → ∀ w : Work g, w.engine.Faithful →
          (Parser.attempt depth s c .zeroOrMore).answer w =
            .ok (some ⟨c.after ms ms.length, ms.map Match.value⟩) ∧
          (1 ≤ ms.length → (Parser.attempt depth s c .oneOrMore).answer w =
            .ok (some ⟨c.after ms ms.length, ms.map Match.value⟩)) ∧
          (ms.length = 0 → (Parser.attempt depth s c .oneOrMore).answer w = .ok none)) ∧
    ∀ depth depth', g.symbols.length * c.size ≤ depth' → ∀ w w' : Work g, w.engine.Faithful →
      w'.engine.Faithful → ∀ q,
        (Parser.attempt depth s c q).answer w = .error .leftRecursion ∨
        (Parser.attempt depth s c q).answer w = (Parser.attempt depth' s c q).answer w' := by
  have hreader : e.reader = g.meaning := by
    funext t d
    exact he.answer_parseOne t d
  have houtcome : ∀ {depth}, g.symbols.length * c.size ≤ depth → ∀ {w : Work g},
      w.engine.Faithful → ∀ q, (Parser.attempt depth s c q).answer w =
        Reader.component g.meaning c (.element s q) :=
    fun hdepth _ hw q => answer_component hdepth hw (.element s q)
  have hproceeds := g.meaning_proceeds s
  rw [hreader]
  refine ⟨fun halt hbreaks depth hdepth w hw => ?_, fun hwhole => ?_, ?_⟩
  · rw [houtcome hdepth hw, houtcome hdepth hw]
    exact ⟨Reader.repetition_breaks hproceeds hbreaks 0,
      Reader.repetition_breaks hproceeds hbreaks 1⟩
  · obtain ⟨ms, hrow, hends, hlength, hfound⟩ := Reader.repetition_row hproceeds hwhole
    refine ⟨ms, hrow, hends, hlength, fun depth hdepth w hw => ?_⟩
    rw [houtcome hdepth hw, houtcome hdepth hw]
    refine ⟨hfound 0, fun hsome => ?_, fun hnone => ?_⟩
    · have hleast : ¬ ms.length < 1 := by omega
      exact (hfound 1).trans (congrArg Except.ok (if_neg hleast))
    · have hleast : ms.length < 1 := by omega
      exact (hfound 1).trans (congrArg Except.ok (if_pos hleast))
  · intro depth depth' hdepth' w w' hw hw' q
    rw [houtcome hdepth' hw']
    exact (component_within g depth c (.element s q) w hw).2.1

end Greedy

/-- Two numbers before something else. -/
def Schema.stalling : Input := .ofTexts ["1", "2", ";"]

/-- Two tails of a sum, the second of them broken off after its sign. -/
def Sample.tails : Input := .ofTexts ["+", "a", "+"]

/-- The tail that is found does not help: the next one lacks its term. -/
theorem Sample.tails_break : (Engine.fresh grammar true).reader.RowBreaks .tail tails.start
    (.failure (.parse "expected term after \x60+\x60" tails.endToken)) := by
  obtain ⟨m, hm, hrest⟩ : ∃ m, (Engine.fresh grammar true).reader .tail tails.start = .ok (some m) ∧
      m.rest = tails.start.drop 2 := ⟨_, rfl, rfl⟩
  refine ⟨[m], .single hm, ?_⟩
  change (Engine.fresh grammar true).reader .tail m.rest = _
  rw [hrest]
  rfl

/-- The third gap consumes nothing, is kept and ends the row. -/
theorem Schema.stalling_found :
    (Parser.attempt 12 1 stalling.start .zeroOrMore).answer
      { engine := Engine.fresh (grammar gaps) true } =
        .ok (some ⟨stalling.start.drop 2, List.replicate 3 (.record "Gap" [])⟩) := rfl

/-- A row of gaps has as many items as there are tokens, and its last one has consumed nothing. A
row of tails fails with its second, though it need not have any. -/
theorem repetition_stalls_or_breaks :
    (let e := Engine.fresh (Schema.grammar Schema.gaps) true
      ∃ ms, e.reader.Row 1 Schema.stalling.start ms ∧ ms.length = 3 ∧
        e.reader.RowEnds 1 Schema.stalling.start ms ∧
        (Parser.attempt 12 1 Schema.stalling.start .oneOrMore).answer { engine := e } =
          .ok (some ⟨Schema.stalling.start.after ms 3, ms.map Match.value⟩)) ∧
    (let w : Work Sample.grammar := { engine := Engine.fresh Sample.grammar true }
      let halt : Halt := .failure (.parse "expected term after \x60+\x60" Sample.tails.endToken)
      (Parser.attempt 50 .tail Sample.tails.start .zeroOrMore).answer w = .error halt ∧
        (Parser.attempt 50 .tail Sample.tails.start .oneOrMore).answer w = .error halt) := by
  refine ⟨?_, ?_⟩
  · intro e
    have he : e.Reachable := Engine.fresh_reachable (Schema.grammar Schema.gaps) true
    obtain ⟨hbreaks, hfinds, -⟩ := Engine.repetition_greedy he 1 Schema.stalling.start
    have hdepth : (Schema.grammar Schema.gaps).symbols.length * Schema.stalling.start.size ≤ 12 := by
      decide
    have hwhole : ∀ halt, ¬ e.reader.RowBreaks 1 Schema.stalling.start halt := by
      intro halt h
      have herror := (hbreaks halt h 12 hdepth { engine := e } he.faithful).1
      rw [Schema.stalling_found] at herror
      cases herror
    obtain ⟨ms, hrow, hends, -, houtcome⟩ := hfinds hwhole
    obtain ⟨hfound, hsome, -⟩ := houtcome 12 hdepth { engine := e } he.faithful
    have hlength : ms.length = 3 := by
      have hsame := Option.some.inj (Except.ok.inj (Schema.stalling_found.symm.trans hfound))
      rw [← List.length_map Match.value, ← (Match.mk.inj hsame).2, List.length_replicate]
    rw [hlength] at hsome
    exact ⟨ms, hrow, hlength, hends, hsome (by decide)⟩
  · intro w halt
    have he : (Engine.fresh Sample.grammar true).Reachable :=
      Engine.fresh_reachable Sample.grammar true
    obtain ⟨hbreaks, -, -⟩ := Engine.repetition_greedy he .tail Sample.tails.start
    exact hbreaks halt Sample.tails_break 50 (by decide) w he.faithful

end Packrat
