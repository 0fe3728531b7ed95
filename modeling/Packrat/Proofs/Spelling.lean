import Packrat.Sample

/-!
How the values of the arithmetic language are written. A number is one word of digits, which need
not be the shortest, and an identifier is its own word; all else is signs and parentheses around
the words of the parts. A value that has the sign of the language wherever it has a sign can be
written, and its print is one way to do so; any other value cannot.
-/
namespace Packrat

namespace Number

/-- The text is made of digits whose value is `n`. -/
structure Spelled (n : Number) (text : String) : Prop where
  nonempty : text.toList ≠ []
  digits : ∀ c ∈ text.toList, c.isDigit = true
  value_eq : Nat.ofDigitChars 10 text.toList 0 = n.value

theorem ofDigits_eq (digits : List Char) : ofDigits digits = Nat.ofDigitChars 10 digits 0 :=
  Nat.ofDigitChars_eq_foldl.symm

/-- A text is read as the number that it spells. -/
theorem ofText?_eq_some_iff {text : String} {n : Number} :
    ofText? text = some n ↔ n.Spelled text := by
  obtain ⟨value, hvalue⟩ := n
  simp only [ofText?, Bool.and_eq_true, Bool.not_eq_true', List.isEmpty_eq_false_iff,
    List.all_eq_true, ofDigits_eq]
  constructor
  · intro h
    split at h
    · rename_i hdigits
      split at h
      · cases h
        exact ⟨hdigits.1, hdigits.2, rfl⟩
      · cases h
    · cases h
  · rintro ⟨hne, hdigits, rfl⟩
    rw [if_pos ⟨hne, hdigits⟩, dif_pos hvalue]

/-- The text of a number without leading zeros. -/
theorem spelled_toString (n : Number) : n.Spelled (toString n.value) := by
  rw [Nat.toString_eq_ofList_toDigits]
  refine ⟨?_, ?_, ?_⟩ <;> rw [String.toList_ofList]
  · exact Nat.toDigits_ne_nil
  · exact fun c hc => Nat.isDigit_of_mem_toDigits (by decide) (by decide) hc
  · exact Nat.ofDigitChars_ten_toDigits

end Number

namespace Identifier

/-- The text is a small letter or an underscore, then any number of these and of digits. -/
def Spelled (text : String) : Prop :=
  ∃ c rest, text.toList = c :: rest ∧ (c.isLower = true ∨ c = '_') ∧
    ∀ d ∈ rest, d.isLower = true ∨ d = '_' ∨ d.isDigit = true

theorem isWord_iff {text : String} : isWord text = true ↔ Spelled text := by
  unfold isWord Spelled
  cases text.toList with
  | nil => simp
  | cons c rest =>
    have hword : (isStart c && rest.all isPart) = true ↔ (c.isLower = true ∨ c = '_') ∧
        ∀ d ∈ rest, d.isLower = true ∨ d = '_' ∨ d.isDigit = true := by
      simp [isStart, isPart, or_assoc]
    rw [hword]
    constructor
    · exact fun ⟨hstart, hrest⟩ => ⟨c, rest, rfl, hstart, hrest⟩
    · rintro ⟨_, _, ⟨⟩, hstart, hrest⟩
      exact ⟨hstart, hrest⟩

theorem spelled_text (x : Identifier) : Spelled x.text := isWord_iff.mp x.isWord_text

theorem ofText?_eq_some_iff {text : String} {x : Identifier} :
    ofText? text = some x ↔ text = x.text := by
  obtain ⟨word, hword⟩ := x
  unfold ofText?
  split
  · simp
  · rename_i hnot
    refine iff_of_false (by simp) ?_
    rintro rfl
    exact hnot hword

/-- No number is spelled like an identifier. -/
theorem not_spelled_number (x : Identifier) (n : Number) : ¬ n.Spelled x.text := by
  intro h
  obtain ⟨c, rest, htext, hstart, -⟩ := x.spelled_text
  have hdigit := h.digits c (by rw [htext]; exact List.mem_cons_self)
  rcases hstart with hlower | rfl
  · have hle : c.toNat ≤ '9'.toNat := (Char.isDigit_iff_toNat.mp hdigit).2
    have hge : 'a'.toNat ≤ c.toNat := by
      have hbounds : (decide (c.val ≥ 'a'.val) && decide (c.val ≤ 'z'.val)) = true := hlower
      rw [Bool.and_eq_true, decide_eq_true_eq] at hbounds
      exact UInt32.le_iff_toNat_le.mp hbounds.1
    exact absurd (Nat.le_trans hge hle) (by decide)
  · exact absurd hdigit (by decide)

end Identifier

namespace Sample

mutual

/-- The term may be written with these words. -/
inductive Term.Spelled : Term → List String → Prop
  | number {n : Number} {text : String} (h : n.Spelled text) : Term.Spelled (.number n) [text]
  | identifier {x : Identifier} (h : Identifier.Spelled x.text) :
      Term.Spelled (.identifier x) [x.text]
  | paren {e : Expr} {ws : List String} (hinner : Expr.Spelled e ws) :
      Term.Spelled (.paren ⟨e⟩) ("(" :: ws ++ [")"])

/-- The tails may be written with these words. What a tail has for its sign is the sign itself. -/
inductive TailsSpelled : List Tail → List String → Prop
  | nil : TailsSpelled [] []
  | cons {t : Term} {rest : List Tail} {us ws : List String} (hterm : Term.Spelled t us)
      (hrest : TailsSpelled rest ws) : TailsSpelled (⟨plus, t⟩ :: rest) (plus :: us ++ ws)

/-- The sum may be written with these words. -/
inductive Expr.Spelled : Expr → List String → Prop
  | sum {first : Term} {rest : List Tail} {us ws : List String} (hfirst : Term.Spelled first us)
      (hrest : TailsSpelled rest ws) : Expr.Spelled ⟨first, rest⟩ (us ++ ws)

end

mutual

/-- The words that a term is printed as. -/
def Term.words : Term → List String
  | .number n => [toString n.value]
  | .identifier x => [x.text]
  | .paren ⟨e⟩ => "(" :: e.words ++ [")"]

/-- The words that tails are printed as, each with a sign. -/
def tailWords : List Tail → List String
  | [] => []
  | ⟨_, t⟩ :: rest => plus :: t.words ++ tailWords rest

/-- The words that a sum is printed as. -/
def Expr.words : Expr → List String
  | ⟨first, rest⟩ => first.words ++ tailWords rest

end

mutual

/-- Wherever the term has a sign, it is the one of the language. -/
def Term.Signed : Term → Prop
  | .number _ => True
  | .identifier _ => True
  | .paren ⟨e⟩ => e.Signed

def TailsSigned : List Tail → Prop
  | [] => True
  | ⟨op, t⟩ :: rest => op = plus ∧ t.Signed ∧ TailsSigned rest

/-- Wherever the sum has a sign, it is the one of the language. -/
def Expr.Signed : Expr → Prop
  | ⟨first, rest⟩ => first.Signed ∧ TailsSigned rest

end

mutual

/-- What has the right signs is spelled by its print. -/
theorem Term.Signed.spelled_words : {t : Term} → t.Signed → t.Spelled t.words
  | .number n, _ => .number n.spelled_toString
  | .identifier x, _ => .identifier x.spelled_text
  | .paren ⟨_⟩, h => .paren (Expr.Signed.spelled_words h)

theorem TailsSigned.spelled_words : {ts : List Tail} → TailsSigned ts → TailsSpelled ts (tailWords ts)
  | [], _ => .nil
  | ⟨_, _⟩ :: _, ⟨rfl, hterm, hrest⟩ => .cons hterm.spelled_words hrest.spelled_words

theorem Expr.Signed.spelled_words : {e : Expr} → e.Signed → e.Spelled e.words
  | ⟨_, _⟩, ⟨hfirst, hrest⟩ => .sum hfirst.spelled_words hrest.spelled_words

end

example : Expr.words ⟨.identifier ⟨"x", rfl⟩, [⟨plus, .paren ⟨⟨.number ⟨7, by decide⟩, []⟩⟩⟩]⟩ =
    ["x", "+", "(", "7", ")"] := by decide

mutual

/-- Nothing else can be spelled. -/
theorem Term.Spelled.signed {t : Term} {ws : List String} : t.Spelled ws → t.Signed
  | .number _ => trivial
  | .identifier _ => trivial
  | .paren hinner => hinner.signed

theorem TailsSpelled.signed {ts : List Tail} {ws : List String} : TailsSpelled ts ws → TailsSigned ts
  | .nil => trivial
  | .cons hterm hrest => ⟨rfl, hterm.signed, hrest.signed⟩

theorem Expr.Spelled.signed {e : Expr} {ws : List String} : e.Spelled ws → e.Signed
  | .sum hfirst hrest => ⟨hfirst.signed, hrest.signed⟩

end

end Sample

end Packrat
