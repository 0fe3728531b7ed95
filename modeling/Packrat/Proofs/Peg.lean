import Packrat.Proofs.Span

/-!
Parsing expression grammars over tokens. An expression either fails on the tokens ahead or takes
so many of them. Choices are ordered and repetitions are greedy, and neither is reconsidered for
the sake of what follows; a repetition stops once an iteration takes nothing.
-/
namespace Packrat

inductive Peg (N : Type) where
  | empty
  /-- One token that passes a test. -/
  | token (accepts : Token → Bool)
  | symbol (n : N)
  | seq (first next : Peg N)
  | choice (first other : Peg N)
  | star (e : Peg N)
  | not (e : Peg N)

namespace Peg

variable {N : Type}

def any : Peg N := token fun _ => true

/-- One token whose text passes a test. A token without text passes none. -/
def text (accepts : String → Bool) : Peg N := token fun t => t.text.any accepts

def literal (word : String) : Peg N := text fun w => w == word

def fail : Peg N := not empty

/-- Succeeds where `e` does, and takes nothing. -/
def and (e : Peg N) : Peg N := not (not e)

def optional (e : Peg N) : Peg N := choice e empty

def plus (e : Peg N) : Peg N := seq e (star e)

/-- One or more `e` with a `d` between neighbours. -/
def separated (e d : Peg N) : Peg N := seq e (star (seq d e))

/-- On these tokens the expression takes so many, or fails. -/
inductive Recognises (rule : N → Peg N) : Peg N → List Token → Option Nat → Prop
  | empty (ts : List Token) : Recognises rule .empty ts (some 0)
  | token {accepts : Token → Bool} {t : Token} {ts : List Token} (ht : accepts t = true) :
      Recognises rule (.token accepts) (t :: ts) (some 1)
  | mismatch {accepts : Token → Bool} {t : Token} {ts : List Token} (ht : accepts t = false) :
      Recognises rule (.token accepts) (t :: ts) none
  | noToken (accepts : Token → Bool) : Recognises rule (.token accepts) [] none
  | symbol {n : N} {ts : List Token} {r : Option Nat} (h : Recognises rule (rule n) ts r) :
      Recognises rule (.symbol n) ts r
  | seq {a b : Peg N} {ts : List Token} {j : Nat} {r : Option Nat}
      (ha : Recognises rule a ts (some j)) (hb : Recognises rule b (ts.drop j) r) :
      Recognises rule (.seq a b) ts (r.map fun k => j + k)
  | seqFailed {a b : Peg N} {ts : List Token} (ha : Recognises rule a ts none) :
      Recognises rule (.seq a b) ts none
  | choice {a b : Peg N} {ts : List Token} {j : Nat} (ha : Recognises rule a ts (some j)) :
      Recognises rule (.choice a b) ts (some j)
  | otherwise {a b : Peg N} {ts : List Token} {r : Option Nat}
      (ha : Recognises rule a ts none) (hb : Recognises rule b ts r) :
      Recognises rule (.choice a b) ts r
  | starEnd {e : Peg N} {ts : List Token} (he : Recognises rule e ts none) :
      Recognises rule (.star e) ts (some 0)
  | starStall {e : Peg N} {ts : List Token} (he : Recognises rule e ts (some 0)) :
      Recognises rule (.star e) ts (some 0)
  | starMore {e : Peg N} {ts : List Token} {j k : Nat} (hj : 0 < j)
      (he : Recognises rule e ts (some j))
      (hmore : Recognises rule (.star e) (ts.drop j) (some k)) :
      Recognises rule (.star e) ts (some (j + k))
  | not {e : Peg N} {ts : List Token} (he : Recognises rule e ts none) :
      Recognises rule (.not e) ts (some 0)
  | notFailed {e : Peg N} {ts : List Token} {j : Nat} (he : Recognises rule e ts (some j)) :
      Recognises rule (.not e) ts none

variable {rule : N → Peg N}

/-- No two ways to run an expression come to different ends. -/
theorem Recognises.unique {e : Peg N} {ts : List Token} {r r' : Option Nat}
    (h : Recognises rule e ts r) (h' : Recognises rule e ts r') : r = r' := by
  induction h generalizing r' with
  | empty => cases h'; rfl
  | token ht =>
    cases h' with
    | token => rfl
    | mismatch ht' => simp [ht] at ht'
  | mismatch ht =>
    cases h' with
    | token ht' => simp [ht] at ht'
    | mismatch => rfl
  | noToken => cases h'; rfl
  | symbol _ ih =>
    cases h' with
    | symbol h' => exact ih h'
  | seq _ _ iha ihb =>
    cases h' with
    | seq ha' hb' =>
      obtain rfl := Option.some.inj (iha ha')
      rw [ihb hb']
    | seqFailed ha' => cases iha ha'
  | seqFailed _ iha =>
    cases h' with
    | seq ha' _ => cases iha ha'
    | seqFailed => rfl
  | choice _ iha =>
    cases h' with
    | choice ha' => exact iha ha'
    | otherwise ha' _ => cases iha ha'
  | otherwise _ _ iha ihb =>
    cases h' with
    | choice ha' => cases iha ha'
    | otherwise _ hb' => exact ihb hb'
  | starEnd _ ihe =>
    cases h' with
    | starEnd => rfl
    | starStall => rfl
    | starMore _ he' _ => cases ihe he'
  | starStall _ ihe =>
    cases h' with
    | starEnd => rfl
    | starStall => rfl
    | starMore hj he' _ =>
      obtain rfl := Option.some.inj (ihe he')
      omega
  | starMore hj _ _ ihe ihmore =>
    cases h' with
    | starEnd he' => cases ihe he'
    | starStall he' =>
      obtain rfl := Option.some.inj (ihe he')
      omega
    | starMore _ he' hmore' =>
      obtain rfl := Option.some.inj (ihe he')
      rw [Option.some.inj (ihmore hmore')]
  | not _ ihe =>
    cases h' with
    | not => rfl
    | notFailed he' => cases ihe he'
  | notFailed _ ihe =>
    cases h' with
    | not he' => cases ihe he'
    | notFailed => rfl

/-- From `c` the expression takes all tokens up to `d`. -/
structure Reaches (rule : N → Peg N) (e : Peg N) (c d : Cursor) : Prop where
  le : c ≤ d
  recognises : Recognises rule e c.remaining (some (c.size - d.size))

def Fails (rule : N → Peg N) (e : Peg N) (c : Cursor) : Prop :=
  Recognises rule e c.remaining none

variable {a b e f : Peg N} {c d u : Cursor}

theorem reaches_self (h : Recognises rule e c.remaining (some 0)) : Reaches rule e c c := by
  refine ⟨le_rfl, ?_⟩
  rw [Nat.sub_self]
  exact h

theorem reaches_empty (c : Cursor) : Reaches rule empty c c := reaches_self (.empty _)

theorem reaches_token {accepts : Token → Bool} (hend : c.atEnd = false)
    (h : accepts c.first = true) : Reaches rule (token accepts) c c.next := by
  refine ⟨Cursor.le_next c, ?_⟩
  have hsome := Cursor.size_ne_zero hend
  have hnext := Cursor.size_next c
  have htaken : c.size - c.next.size = 1 := by omega
  rw [htaken, Cursor.remaining_eq_cons hend]
  exact .token h

theorem fails_token {accepts : Token → Bool} (h : accepts c.first = false) :
    Fails rule (token accepts) c := by
  unfold Fails
  cases hend : c.atEnd with
  | true =>
    rw [Cursor.remaining_of_atEnd hend]
    exact .noToken accepts
  | false =>
    rw [Cursor.remaining_eq_cons hend]
    exact .mismatch h

theorem Reaches.seq (ha : Reaches rule a c d) (hb : Reaches rule b d u) :
    Reaches rule (.seq a b) c u := by
  refine ⟨ha.le.trans hb.le, ?_⟩
  have hcd := Cursor.size_le_of_le ha.le
  have hdu := Cursor.size_le_of_le hb.le
  have htaken : c.size - u.size = (c.size - d.size) + (d.size - u.size) := by omega
  have hnext := hb.recognises
  rw [← Cursor.remaining_of_le ha.le] at hnext
  rw [htaken]
  exact .seq ha.recognises hnext

theorem Reaches.seq_fails (ha : Reaches rule a c d) (hb : Fails rule b d) :
    Fails rule (.seq a b) c := by
  unfold Fails at hb
  rw [← Cursor.remaining_of_le ha.le] at hb
  exact .seq ha.recognises hb

/-- What a sequence takes, its first part and then its next part take. -/
theorem Reaches.of_seq (h : Reaches rule (.seq a b) c u) :
    ∃ d, Reaches rule a c d ∧ Reaches rule b d u := by
  have hsize := Cursor.size_le_of_le h.le
  have htaken := h.recognises
  generalize hr : some (c.size - u.size) = r at htaken
  cases htaken with
  | @seq _ _ _ j r ha hb =>
    cases r with
    | none => cases hr
    | some k =>
      have hjk : c.size - u.size = j + k := Option.some.inj hr
      have hd := Cursor.size_drop c j
      refine ⟨c.drop j, ⟨Cursor.le_drop c j, ?_⟩, ⟨?_, ?_⟩⟩
      · have hj : c.size - (c.drop j).size = j := by omega
        rw [hj]
        exact ha
      · rw [Cursor.le_iff_size]
        exact ⟨(Cursor.input_eq_of_le h.le).symm, by omega⟩
      · have hk : (c.drop j).size - u.size = k := by omega
        rw [hk, Cursor.remaining_drop]
        exact hb
  | seqFailed _ => cases hr

theorem Fails.seq (ha : Fails rule a c) : Fails rule (.seq a b) c := .seqFailed ha

theorem Reaches.choice (ha : Reaches rule a c d) : Reaches rule (.choice a b) c d :=
  ⟨ha.le, .choice ha.recognises⟩

theorem Fails.choice_reaches (ha : Fails rule a c) (hb : Reaches rule b c d) :
    Reaches rule (.choice a b) c d := ⟨hb.le, .otherwise ha hb.recognises⟩

theorem Fails.choice_fails (ha : Fails rule a c) (hb : Fails rule b c) :
    Fails rule (.choice a b) c := .otherwise ha hb

theorem Fails.not (he : Fails rule e c) : Reaches rule (.not e) c c := reaches_self (.not he)

theorem Reaches.not (he : Reaches rule e c d) : Fails rule (.not e) c := .notFailed he.recognises

theorem Reaches.and (he : Reaches rule e c d) : Reaches rule (and e) c c := he.not.not

theorem Fails.and (he : Fails rule e c) : Fails rule (and e) c := he.not.not

theorem fails_fail (c : Cursor) : Fails rule fail c := (reaches_empty c).not

theorem Reaches.optional (he : Reaches rule e c d) : Reaches rule (optional e) c d := he.choice

theorem Fails.optional (he : Fails rule e c) : Reaches rule (optional e) c c :=
  he.choice_reaches (reaches_empty c)

theorem Fails.star (he : Fails rule e c) : Reaches rule (.star e) c c :=
  reaches_self (.starEnd he)

/-- An iteration that takes nothing is the last. -/
theorem Reaches.star_stall (he : Reaches rule e c c) : Reaches rule (.star e) c c := by
  have h := he.recognises
  rw [Nat.sub_self] at h
  exact reaches_self (.starStall h)

theorem Reaches.star_more (he : Reaches rule e c d) (hlt : d.size < c.size)
    (hmore : Reaches rule (.star e) d u) : Reaches rule (.star e) c u := by
  refine ⟨he.le.trans hmore.le, ?_⟩
  have hdu := Cursor.size_le_of_le hmore.le
  have htaken : c.size - u.size = (c.size - d.size) + (d.size - u.size) := by omega
  have hnext := hmore.recognises
  rw [← Cursor.remaining_of_le he.le] at hnext
  rw [htaken]
  exact .starMore (by omega) he.recognises hnext

theorem reaches_literal {word : String} (h : c.begins word = true) :
    Reaches rule (literal word) c c.next := by
  have htext := (Cursor.begins_iff c word).mp h
  apply reaches_token (Cursor.atEnd_eq_false_of_text htext)
  simp [htext]

theorem fails_literal {word : String} (h : c.begins word = false) :
    Fails rule (literal word) c := by
  apply fails_token
  cases htext : c.first.text with
  | none => rfl
  | some w =>
    rw [Cursor.begins, htext] at h
    simpa using h

end Peg

end Packrat
