import Mathlib.Algebra.GroupWithZero.Nat
import Packrat.Proofs.Span

/-!
Chains of skips. A skip adds a 64-bit word to the offset, cut off at the largest word and then at
the length of the input, so over an input whose length is itself a word it moves as far as the
numbers say and stops at the end. A chain of skips is then one skip by the sum of its words, however
large that is. What lies ahead of a cursor, one token or several, is what it shows once it has been
moved there.
-/
namespace Packrat.Cursor

variable {c : Cursor}

/-- One skip after the other. -/
def skips (c : Cursor) (ns : List UInt64) : Cursor := ns.foldl skip c

/-- From the end on there is nothing to move over. -/
theorem drop_min_size (c : Cursor) (k : Nat) : c.drop (min k c.size) = c.drop k := by
  refine ext_size rfl ?_
  rw [size_drop, size_drop]
  omega

/-- However far the words of a chain add up, it drops as many tokens as their sum. -/
theorem skips_eq_drop (hshort : c.input.size < UInt64.size) (ns : List UInt64) :
    c.skips ns = c.drop (ns.map UInt64.toNat).sum := by
  induction ns generalizing c with
  | nil => exact c.drop_zero.symm
  | cons n rest ih =>
    have hskip : c.skip n = c.drop n.toNat := c.skip_eq_drop n hshort
    have hrest : (c.skip n).skips rest = (c.skip n).drop (rest.map UInt64.toNat).sum := ih hshort
    rw [List.map_cons, List.sum_cons, ← drop_drop, ← hskip, ← hrest]
    rfl

theorem offset_start_drop (input : Input) (k : Nat) :
    (input.start.drop k).offset = min k input.size := by
  simp only [drop, moveTo, Input.start, Input.size, Nat.zero_add]

theorem first_drop (k : Nat) (hk : k < c.size) :
    c.input.tokens[c.offset + k]? = some (c.drop k).first := by
  have hoffset := c.offset_add_size
  simp only [Input.size] at hoffset
  have hlt : c.offset + k < c.input.tokens.size := by omega
  have hmin : min (c.offset + k) c.input.tokens.size = c.offset + k := by omega
  simp [first, drop, moveTo, hmin, hlt]

/-- Over a short input no place that holds a token is out of reach of a word. -/
theorem peek?_eq (hshort : c.input.size < UInt64.size) (i : UInt64) :
    c.peek? i = c.input.tokens[c.offset + i.toNat]? := by
  rw [peek?]
  split
  · rfl
  · rename_i hlarge
    have hpast : c.input.tokens.size ≤ c.offset + i.toNat := by
      simp only [Input.size] at hshort
      omega
    exact (Array.getElem?_eq_none hpast).symm

theorem peek?_eq_none_iff (hshort : c.input.size < UInt64.size) (i : UInt64) :
    c.peek? i = none ↔ c.size ≤ i.toNat := by
  have hoffset := c.offset_le
  rw [peek?_eq hshort, Array.getElem?_eq_none_iff, size, Input.size]
  omega

/-- A look ahead finds the token that the cursor shows once it has been moved there. -/
theorem peek?_eq_some_iff (hshort : c.input.size < UInt64.size) (i : UInt64) (x : Token) :
    c.peek? i = some x ↔ i.toNat < c.size ∧ x = (c.skip i).first := by
  by_cases hi : i.toNat < c.size
  · rw [peek?_eq hshort, first_drop i.toNat hi, ← skip_eq_drop c i hshort, Option.some.injEq]
    constructor
    · intro hfirst
      exact ⟨hi, hfirst.symm⟩
    · rintro ⟨-, hx⟩
      exact hx.symm
  · have hnone : c.peek? i = none := (peek?_eq_none_iff hshort i).mpr (by omega)
    rw [hnone]
    constructor
    · intro hsome
      cases hsome
    · rintro ⟨hlt, -⟩
      exact absurd hlt hi

/-- Several texts in a row are each found by moving to their place, and there is one for each. -/
theorem beginsAll_iff_drop (c : Cursor) (literals : List String) :
    c.beginsAll literals = true ↔ literals.length ≤ c.size ∧
      ∀ i l, literals[i]? = some l → (c.drop i).begins l = true := by
  induction literals generalizing c with
  | nil => simp [beginsAll]
  | cons literal rest ih =>
    have hplaces : ∀ i, c.next.drop i = c.drop (i + 1) := by
      intro i
      rw [next, drop_drop, Nat.add_comm]
    rw [beginsAll, Bool.and_eq_true, ih, size_next]
    constructor
    · rintro ⟨hfirst, hlength, hrest⟩
      have hsize := size_ne_zero (atEnd_eq_false_of_text ((begins_iff c literal).mp hfirst))
      refine ⟨by rw [List.length_cons]; omega, fun i l hl => ?_⟩
      cases i with
      | zero =>
        obtain rfl : literal = l := by simpa using hl
        rwa [drop_zero]
      | succ i =>
        rw [← hplaces]
        exact hrest i l (by simpa using hl)
    · rintro ⟨hlength, hall⟩
      rw [List.length_cons] at hlength
      refine ⟨?_, by omega, fun i l hl => ?_⟩
      · have hfirst := hall 0 literal rfl
        rwa [drop_zero] at hfirst
      · rw [hplaces]
        exact hall (i + 1) l (by simpa using hl)

/-- Over a short input the places of the texts are words. -/
theorem beginsAll_iff (hshort : c.input.size < UInt64.size) (literals : List String) :
    c.beginsAll literals = true ↔ literals.length ≤ c.size ∧
      ∀ (i : UInt64) l, literals[i.toNat]? = some l → (c.skip i).begins l = true := by
  rw [beginsAll_iff_drop]
  refine and_congr_right fun hlength => ?_
  constructor
  · intro hall i l hl
    rw [skip_eq_drop c i hshort]
    exact hall i.toNat l hl
  · intro hall i l hl
    obtain ⟨hi, -⟩ := List.getElem?_eq_some_iff.mp hl
    have hsize := c.offset_add_size
    have hword : (UInt64.ofNat i).toNat = i := UInt64.toNat_ofNat_of_lt' (by omega)
    have hbegins := hall (UInt64.ofNat i) l (by rwa [hword])
    rwa [skip_eq_drop c _ hshort, hword] at hbegins

/-- Whatever words a chain of skips from the start of a short input adds up, it leads to the place
that their sum names, or to the end if that lies before, and so does one skip by a word. No look
ahead goes past the end, and each finds what a skip of the same width would show. -/
theorem skips_start (input : Input) (hshort : input.size < UInt64.size) (ns : List UInt64) :
    let view := input.start.skips ns
    let gone := min (ns.map UInt64.toNat).sum input.size
    (view.offset = gone ∧ view.offset ≤ input.size ∧ view.offset + view.size = input.size) ∧
    (view = input.start.skip (UInt64.ofNat gone) ∧ (UInt64.ofNat gone).toNat = gone) ∧
    view.size = input.size - gone ∧
    (∀ i x, view.peek? i = some x ↔ i.toNat < view.size ∧ x = (view.skip i).first) ∧
    (∀ i, view.peek? i = none ↔ view.size ≤ i.toNat) ∧
    ∀ literals, view.beginsAll literals = true ↔ literals.length ≤ view.size ∧
      ∀ (i : UInt64) l, literals[i.toNat]? = some l → (view.skip i).begins l = true := by
  intro view gone
  have hview : view = input.start.drop (ns.map UInt64.toNat).sum := skips_eq_drop hshort ns
  have hinput : view.input = input := by rw [hview, input_drop]; rfl
  have hoffset : view.offset = gone := by rw [hview, offset_start_drop]
  have hsum : view.offset + view.size = input.size := by rw [view.offset_add_size, hinput]
  have hgone : gone ≤ input.size := Nat.min_le_right _ _
  have hword : (UInt64.ofNat gone).toNat = gone := UInt64.toNat_ofNat_of_lt' (by omega)
  have hone : input.start.skip (UInt64.ofNat gone) = view := by
    have hcapped := drop_min_size input.start (ns.map UInt64.toNat).sum
    rw [skip_eq_drop _ _ hshort, hword, hview]
    exact hcapped
  have hviewShort : view.input.size < UInt64.size := by rwa [hinput]
  refine ⟨⟨hoffset, by omega, hsum⟩, ⟨hone.symm, hword⟩, by omega, ?_, ?_, ?_⟩
  · exact fun i x => peek?_eq_some_iff hviewShort i x
  · exact fun i => peek?_eq_none_iff hviewShort i
  · exact fun literals => beginsAll_iff hviewShort literals

/-- Two of the largest words lead to the end, though their sum is no word, and nothing can be seen
from there. The stored token without text is in sight one place before it, and begins with nothing. -/
theorem skips_past_words :
    let input : Input := ⟨0, #[⟨"a", some "x", 1, 1⟩, ⟨"a", some "y", 1, 2⟩, .endOf "b"]⟩
    let largest : UInt64 := 18446744073709551615
    input.size < UInt64.size ∧
    (input.start.skips [1, largest, largest]).offset = 3 ∧
    (input.start.skips [1, largest, largest]).peek? largest = none ∧
    (input.start.skips [1]).peek? 1 = some (.endOf "b") ∧
    (input.start.skips [1]).beginsAll ["y", ""] = false := by
  intro input largest
  have hshort : input.size < UInt64.size := by decide
  obtain ⟨⟨hoffset, -, -⟩, -, hsize, -, hnone, -⟩ := skips_start input hshort [1, largest, largest]
  obtain ⟨-, -, -, hpeek, -, hbegins⟩ := skips_start input hshort [1]
  refine ⟨hshort, hoffset, (hnone largest).mpr ?_, (hpeek 1 _).mpr (by decide), ?_⟩
  · rw [hsize]
    decide
  · rw [Bool.eq_false_iff]
    intro hall
    have hsecond := ((hbegins _).mp hall).2 1 "" rfl
    exact absurd hsecond (by decide)

end Packrat.Cursor
