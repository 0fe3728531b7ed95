import Packrat.Cursor
import Mathlib.Order.Basic

/-!
Stretches of one input. Cursors over the same input are ordered by their offsets. A stretch from
a cursor to a later one spells the texts of the tokens between the two, so it holds no token
without text. Stretches that meet can be joined.
-/
namespace Packrat.Cursor

/-- The tokens that are left. -/
def remaining (c : Cursor) : List Token := c.input.tokens.toList.drop c.offset

/-- A cursor comes before all later ones over the same input. -/
instance : PartialOrder Cursor where
  le c d := c.input = d.input ∧ c.offset ≤ d.offset
  le_refl c := ⟨rfl, Nat.le_refl _⟩
  le_trans c d e hcd hde := ⟨hcd.1.trans hde.1, Nat.le_trans hcd.2 hde.2⟩
  le_antisymm c d hcd hdc := by
    obtain ⟨input, offset, _⟩ := c
    obtain ⟨_, offset', _⟩ := d
    obtain ⟨rfl, hle⟩ := hcd
    obtain rfl : offset = offset' := Nat.le_antisymm hle hdc.2
    rfl

theorem le_iff_size (c d : Cursor) : c ≤ d ↔ c.input = d.input ∧ d.size ≤ c.size := by
  have hc := c.offset_add_size
  have hd := d.offset_add_size
  constructor
  · rintro ⟨hi, ho⟩
    refine ⟨hi, ?_⟩
    rw [← hi] at hd
    omega
  · rintro ⟨hi, hs⟩
    refine ⟨hi, ?_⟩
    rw [← hi] at hd
    omega

theorem input_eq_of_le {c d : Cursor} (h : c ≤ d) : d.input = c.input := h.1.symm

theorem size_le_of_le {c d : Cursor} (h : c ≤ d) : d.size ≤ c.size := ((le_iff_size c d).mp h).2

theorem eq_or_size_lt_of_le {c d : Cursor} (h : c ≤ d) : d = c ∨ d.size < c.size := by
  rcases Nat.lt_or_eq_of_le (size_le_of_le h) with hlt | heq
  · exact Or.inr hlt
  · exact Or.inl (ext_size (input_eq_of_le h) heq)

theorem le_drop (c : Cursor) (k : Nat) : c ≤ c.drop k := by
  rw [le_iff_size, size_drop]
  exact ⟨rfl, Nat.sub_le _ _⟩

theorem le_next (c : Cursor) : c ≤ c.next := le_drop c 1

theorem drop_zero (c : Cursor) : c.drop 0 = c := ext_size rfl (size_drop c 0)

theorem drop_drop (c : Cursor) (j k : Nat) : (c.drop j).drop k = c.drop (j + k) := by
  refine ext_size (by rfl) ?_
  simp only [size_drop]
  omega

/-- A later cursor lies as many tokens ahead as it has fewer left. -/
theorem eq_drop_of_le {c d : Cursor} (h : c ≤ d) : d = c.drop (c.size - d.size) := by
  have hs := size_le_of_le h
  refine ext_size (by simpa using input_eq_of_le h) ?_
  rw [size_drop]
  omega

theorem length_remaining (c : Cursor) : c.remaining.length = c.size := by
  simp [remaining, size, Input.size]

theorem remaining_drop (c : Cursor) (k : Nat) : (c.drop k).remaining = c.remaining.drop k := by
  have ho := c.offset_le
  simp only [remaining, drop, moveTo, List.drop_drop]
  by_cases hk : c.offset + k ≤ c.input.tokens.size
  · rw [Nat.min_eq_left hk]
  · rw [Nat.min_eq_right (by omega), List.drop_of_length_le (by simp),
      List.drop_of_length_le (by rw [Array.length_toList]; omega)]

theorem remaining_of_le {c d : Cursor} (h : c ≤ d) :
    c.remaining.drop (c.size - d.size) = d.remaining := by
  rw [← remaining_drop, ← eq_drop_of_le h]

/-- The tokens up to a later cursor come before those that it has left. -/
theorem exists_remaining_eq_append {c d : Cursor} (h : c ≤ d) :
    ∃ tokens, c.remaining = tokens ++ d.remaining :=
  ⟨c.remaining.take (c.size - d.size), by rw [← remaining_of_le h, List.take_append_drop]⟩

theorem remaining_of_atEnd {c : Cursor} (h : c.atEnd = true) : c.remaining = [] := by
  rw [← List.length_eq_zero_iff, length_remaining]
  exact (atEnd_iff c).mp h

theorem first_of_atEnd {c : Cursor} (h : c.atEnd = true) : c.first = c.input.endToken := by
  have hs := (atEnd_iff c).mp h
  have ho := c.offset_add_size
  have hnone : c.input.tokens[c.offset]? = none := by
    rw [Array.getElem?_eq_none_iff]
    simp only [Input.size] at ho
    omega
  simp [first, hnone]

theorem size_ne_zero {c : Cursor} (h : c.atEnd = false) : c.size ≠ 0 := by
  intro hz
  rw [(atEnd_iff c).mpr hz] at h
  cases h

/-- Before the end, the first token left is the current one. -/
theorem remaining_eq_cons {c : Cursor} (h : c.atEnd = false) :
    c.remaining = c.first :: c.next.remaining := by
  have hs := size_ne_zero h
  have ho := c.offset_add_size
  simp only [Input.size] at ho
  have hlt : c.offset < c.input.tokens.size := by omega
  have hfirst : c.first = c.input.tokens[c.offset] := by simp [first, hlt]
  rw [next, remaining_drop, hfirst]
  simp only [remaining]
  rw [List.drop_eq_getElem_cons (by simpa using hlt)]
  simp

theorem atEnd_eq_false_of_text {c : Cursor} {text : String} (h : c.first.text = some text) :
    c.atEnd = false := by
  by_contra hend
  rw [Bool.not_eq_false] at hend
  rw [first_of_atEnd hend] at h
  simp [Input.endToken, Token.endOf] at h

theorem begins_iff (c : Cursor) (literal : String) :
    c.begins literal = true ↔ c.first.text = some literal := by simp [begins]

/-- The tokens from `c` to `d` have the texts `words`, one each. -/
structure Spells (c : Cursor) (words : List String) (d : Cursor) : Prop where
  rest_eq : d = c.drop words.length
  texts_eq : (c.remaining.take words.length).map Token.text = words.map some

namespace Spells

theorem nil (c : Cursor) : Spells c [] c := ⟨(drop_zero c).symm, by simp⟩

theorem one {c : Cursor} {text : String} (h : c.first.text = some text) :
    Spells c [text] c.next where
  rest_eq := rfl
  texts_eq := by simp [remaining_eq_cons (atEnd_eq_false_of_text h), h]

theorem append {c d e : Cursor} {us ws : List String} (hu : Spells c us d)
    (hw : Spells d ws e) : Spells c (us ++ ws) e where
  rest_eq := by rw [hw.rest_eq, hu.rest_eq, drop_drop, List.length_append]
  texts_eq := by
    have htexts := hw.texts_eq
    rw [hu.rest_eq, remaining_drop] at htexts
    rw [List.length_append, List.take_add, List.map_append, hu.texts_eq, htexts,
      List.map_append]

theorem le {c d : Cursor} {ws : List String} (h : Spells c ws d) : c ≤ d := by
  rw [h.rest_eq]
  exact le_drop c ws.length

theorem length_le {c d : Cursor} {ws : List String} (h : Spells c ws d) :
    ws.length ≤ c.size := by
  have hlen := congrArg List.length h.texts_eq
  simp only [List.length_map, List.length_take, length_remaining] at hlen
  omega

/-- A stretch is as long as the words it spells. -/
theorem size_eq {c d : Cursor} {ws : List String} (h : Spells c ws d) :
    d.size = c.size - ws.length := by rw [h.rest_eq, size_drop]

/-- A stretch can be cut wherever its words can. -/
theorem of_append {c e : Cursor} {us ws : List String} (h : Spells c (us ++ ws) e) :
    ∃ d, Spells c us d ∧ Spells d ws e := by
  have hlength := h.length_le
  have htexts := h.texts_eq
  rw [List.length_append] at hlength
  rw [List.length_append, List.take_add, List.map_append, List.map_append] at htexts
  have htaken : ((c.remaining.take us.length).map Token.text).length = (us.map some).length := by
    simp only [List.length_map, List.length_take, length_remaining]
    omega
  obtain ⟨hu, hw⟩ := List.append_inj htexts htaken
  refine ⟨c.drop us.length, ⟨rfl, hu⟩, ⟨?_, ?_⟩⟩
  · rw [h.rest_eq, drop_drop, List.length_append]
  · rw [remaining_drop, hw]

theorem eq_of_nil {c d : Cursor} (h : Spells c [] d) : d = c := by
  rw [h.rest_eq]
  exact drop_zero c

theorem of_cons {c d : Cursor} {word : String} {ws : List String}
    (h : Spells c (word :: ws) d) : c.first.text = some word ∧ Spells c.next ws d := by
  have hsplit : Spells c ([word] ++ ws) d := h
  obtain ⟨e, hword, hws⟩ := hsplit.of_append
  obtain rfl : e = c.next := hword.rest_eq
  have hlength := hword.length_le
  have hend : c.atEnd = false := by
    rw [atEnd, beq_eq_false_iff_ne]
    simp only [List.length_singleton] at hlength
    omega
  have htexts := hword.texts_eq
  rw [remaining_eq_cons hend] at htexts
  exact ⟨by simpa using htexts, hws⟩

theorem eq_nil_of_self {c : Cursor} {ws : List String} (h : Spells c ws c) : ws = [] := by
  have hsize := h.size_eq
  have hle := h.length_le
  exact List.length_eq_zero_iff.mp (by omega)

end Spells

/-- What is spelled up to the end is all that is left. -/
theorem spells_atEnd_iff {c : Cursor} {ws : List String} :
    (∃ d, Spells c ws d ∧ d.atEnd = true) ↔ c.remaining.map Token.text = ws.map some := by
  constructor
  · rintro ⟨d, hspells, hend⟩
    have hsize := hspells.size_eq
    have hzero := (atEnd_iff d).mp hend
    have hall : c.remaining.length ≤ ws.length := by
      rw [length_remaining]
      omega
    rw [← hspells.texts_eq, List.take_of_length_le hall]
  · intro h
    have hall : c.remaining.length = ws.length := by simpa using congrArg List.length h
    refine ⟨c.drop ws.length, ⟨rfl, ?_⟩, ?_⟩
    · rw [List.take_of_length_le (Nat.le_of_eq hall), h]
    · rw [length_remaining] at hall
      rw [atEnd_iff, size_drop]
      omega

end Packrat.Cursor
