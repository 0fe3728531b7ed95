import Mathlib.Data.List.Forall2
import Packrat.Proofs.ErrorSource

/-!
Two readings in step. An alignment says which cursors of the first reading go with which of the
second, and likewise for the halts; with some halts the first may stop alone. If two readers keep
step on symbols, then they do on every part of a shape, as long as the labels of the components
are absent in step.
-/
namespace Packrat

variable {S : Type} {V : S → Type} {α β γ δ : Type}

structure Alignment where
  cursors : Cursor → Cursor → Prop
  halts : Halt → Halt → Prop
  /-- With these the first reading stops, whatever the second comes to. -/
  stops : Halt → Prop
  text_eq : ∀ {c d}, cursors c d → c.first.text = d.first.text
  size_eq : ∀ {c d}, cursors c d → c.size = d.size
  next : ∀ {c d}, cursors c d → cursors c.next d.next

namespace Alignment

/-- The two results are related by `R`, or the readings halt in step, or the first stops. -/
inductive InStep (A : Alignment) (R : α → β → Prop) : Except Halt α → Except Halt β → Prop
  | ok {a : α} {b : β} (h : R a b) : InStep A R (.ok a) (.ok b)
  | halt {halt halt' : Halt} (h : A.halts halt halt') : InStep A R (.error halt) (.error halt')
  | stop {halt : Halt} {t : Except Halt β} (h : A.stops halt) : InStep A R (.error halt) t

structure Matches (A : Alignment) (m m' : Match α) : Prop where
  rest : A.cursors m.rest m'.rest
  value : m.value = m'.value

def Outcomes (A : Alignment) : Outcome α → Outcome α → Prop := Option.Rel A.Matches

/-- What becomes of a component that is absent, by its labels in the two readings. -/
inductive Absences (A : Alignment) (c d : Cursor) : Option String → Option String → Prop
  | silent : Absences A c d none none
  | both {label label' : String}
      (h : A.halts (.failure (.parse label c.first)) (.failure (.parse label' d.first))) :
      Absences A c d (some label) (some label')
  | first {label : String} {label' : Option String}
      (h : A.stops (.failure (.parse label c.first))) : Absences A c d (some label) label'

/-- Symbols are read in step. -/
def Readers (A : Alignment) (read read' : Reader V) : Prop :=
  ∀ s c d, A.cursors c d → A.InStep A.Outcomes (read s c) (read' s d)

/-- Components that differ at most in their labels, and whose absences go together. -/
def Components (A : Alignment) (read : Reader V) (d d' : Component S) : Prop :=
  ∃ label, d' = { d with label := label } ∧ ∀ c c', A.cursors c c' →
    Reader.component read c d.policy = .ok none → A.Absences c c' d.label label

variable {A : Alignment} {read read' : Reader V} {c d : Cursor}

theorem InStep.bind {R : α → β → Prop} {Q : γ → δ → Prop} {r : Except Halt α}
    {t : Except Halt β} {f : α → Except Halt γ} {k : β → Except Halt δ} (h : A.InStep R r t)
    (hf : ∀ a b, r = .ok a → R a b → A.InStep Q (f a) (k b)) :
    A.InStep Q (r >>= f) (t >>= k) := by
  cases h with
  | ok hab => exact hf _ _ rfl hab
  | halt hhalt => exact .halt hhalt
  | stop hstop => exact .stop hstop

theorem begins_eq (h : A.cursors c d) (word : String) : c.begins word = d.begins word := by
  rw [Cursor.begins, Cursor.begins, A.text_eq h]

theorem atEnd_eq (h : A.cursors c d) : c.atEnd = d.atEnd := by
  rw [Cursor.atEnd, Cursor.atEnd, A.size_eq h]

theorem terminal_aligned (h : A.cursors c d) (matcher : String → Option α) :
    A.Outcomes (Reader.terminal matcher c) (Reader.terminal matcher d) := by
  unfold Reader.terminal
  rw [A.text_eq h]
  cases d.first.text.bind matcher with
  | none => exact .none
  | some value => exact .some ⟨A.next h, rfl⟩

theorem keyword_aligned (h : A.cursors c d) (literal : Literal) :
    A.Outcomes (Parser.keyword literal c) (Parser.keyword literal d) := by
  unfold Parser.keyword
  rw [begins_eq h]
  split
  · exact .some ⟨A.next h, rfl⟩
  · exact .none

theorem alternation_aligned (hread : A.Readers read read') (h : A.cursors c d)
    (alternatives : List (Alternative V α)) :
    A.InStep A.Outcomes (Reader.alternation read c alternatives)
      (Reader.alternation read' d alternatives) := by
  induction alternatives with
  | nil => exact .ok .none
  | cons a rest ih =>
    refine (hread a.symbol c d h).bind fun o o' _ ho => ?_
    cases ho with
    | some hm => exact .ok (.some ⟨hm.rest, congrArg a.wrap hm.value⟩)
    | none => exact ih

theorem optional_aligned (hread : A.Readers read read') (h : A.cursors c d) (s : S) :
    A.InStep A.Outcomes (Reader.optional read s c) (Reader.optional read' s d) := by
  refine (hread s c d h).bind fun o o' _ ho => ?_
  cases ho with
  | some hm => exact .ok (.some ⟨hm.rest, congrArg some hm.value⟩)
  | none => exact .ok (.some ⟨h, rfl⟩)

theorem items_aligned (hread : A.Readers read read') (h : A.cursors c d) (s : S)
    (budget : Nat) :
    A.InStep A.Matches (Reader.items read s budget c) (Reader.items read' s budget d) := by
  induction budget generalizing c d with
  | zero => exact .ok ⟨h, rfl⟩
  | succ budget ih =>
    refine (hread s c d h).bind fun o o' _ ho => ?_
    cases ho with
    | none => exact .ok ⟨h, rfl⟩
    | @some m m' hm =>
      have hstall : (m.rest.size = c.size) = (m'.rest.size = d.size) := by
        rw [A.size_eq hm.rest, A.size_eq h]
      simp only [hstall]
      split
      · exact .ok ⟨hm.rest, congrArg (fun v => [v]) hm.value⟩
      · refine (ih hm.rest).bind fun more more' _ hmore => ?_
        exact .ok ⟨hmore.rest, congrArg₂ (· :: ·) hm.value hmore.value⟩

theorem repetition_aligned (hread : A.Readers read read') (h : A.cursors c d) (s : S)
    (least : Nat) :
    A.InStep A.Outcomes (Reader.repetition read s least c)
      (Reader.repetition read' s least d) := by
  unfold Reader.repetition
  rw [A.size_eq h]
  refine (items_aligned hread h s d.size).bind fun m m' _ hm => ?_
  rw [hm.value]
  split
  · exact .ok .none
  · exact .ok (.some hm)

theorem listing_aligned (hread : A.Readers read read') (h : A.cursors c d) (s : S)
    (delimiter : Literal) (budget : Nat) :
    A.InStep A.Matches (Reader.listing read s delimiter budget c)
      (Reader.listing read' s delimiter budget d) := by
  induction budget generalizing c d with
  | zero => exact .ok ⟨h, rfl⟩
  | succ budget ih =>
    refine (hread s c d h).bind fun o o' _ ho => ?_
    cases ho with
    | none => exact .ok ⟨h, rfl⟩
    | @some m m' hm =>
      simp only [begins_eq hm.rest]
      split
      · refine (ih (A.next hm.rest)).bind fun more more' _ hmore => ?_
        refine .ok ⟨hmore.rest, ?_⟩
        simp only [Match.value_map, hm.value, hmore.value]
      · refine .ok ⟨hm.rest, ?_⟩
        simp only [hm.value]

theorem delimited_aligned (hread : A.Readers read read') (h : A.cursors c d) (s : S)
    (delimiter : Literal) (trailing empty : Bool) :
    A.InStep A.Outcomes (Reader.delimited read s delimiter trailing empty c)
      (Reader.delimited read' s delimiter trailing empty d) := by
  unfold Reader.delimited
  rw [A.size_eq h]
  refine (listing_aligned hread h s delimiter d.size).bind fun m m' _ hm => ?_
  rw [hm.value]
  split
  · exact .ok (.some ⟨hm.rest, congrArg Parser.Listing.items hm.value⟩)
  · exact .ok .none

theorem component_aligned (hread : A.Readers read read') (h : A.cursors c d) (p : Policy S) :
    A.InStep A.Outcomes (Reader.component read c p) (Reader.component read' d p) := by
  match p with
  | .keyword literal => exact .ok (keyword_aligned h literal)
  | .element s .required => exact hread s c d h
  | .element s .optional => exact optional_aligned hread h s
  | .element s .oneOrMore => exact repetition_aligned hread h s 1
  | .element s .zeroOrMore => exact repetition_aligned hread h s 0
  | .element s (.delimited delimiter trailing empty) =>
    exact delimited_aligned hread h s delimiter trailing empty

theorem components_aligned (hread : A.Readers read read') (h : A.cursors c d)
    {ds ds' : List (Component S)} (hds : List.Forall₂ (A.Components read) ds ds')
    (fields : Fields V) :
    A.InStep A.Outcomes (Reader.components read ds c fields)
      (Reader.components read' ds' d fields) := by
  induction hds generalizing c d fields with
  | nil => exact .ok (.some ⟨h, rfl⟩)
  | @cons e _ _ _ he _ ih =>
    obtain ⟨label, rfl, habsent⟩ := he
    refine (component_aligned hread h e.policy).bind fun o o' ho haligned => ?_
    cases haligned with
    | some hm =>
      simp only [hm.value]
      exact ih hm.rest _
    | none =>
      have habsence := habsent c d h ho
      simp only
      generalize e.label = label' at habsence ⊢
      cases habsence with
      | silent => exact .ok .none
      | both hhalt => exact .halt hhalt
      | first hstop => exact .stop hstop

/-- The refusals of an assembler must go with themselves. -/
theorem assemble_aligned {m m' : Match (Fields V)} (hm : A.Matches m m')
    (assembler : Assembler V α)
    (h : ∀ error left, assembler m'.value = .error error left →
      A.halts (.failure error) (.failure error)) :
    A.InStep A.Outcomes (Reader.assemble assembler m) (Reader.assemble assembler m') := by
  unfold Reader.assemble
  rw [hm.value]
  cases hresult : assembler m'.value with
  | ok value left => exact .ok (.some ⟨hm.rest, rfl⟩)
  | error error left => exact .halt (h error left hresult)

/-- If declarations are read in step wherever symbols are, then symbols are at every depth. -/
theorem read_aligned (g g' : Grammar S V) (hcut : A.halts .leftRecursion .leftRecursion)
    (hstep : ∀ depth, A.Readers (g.read depth) (g'.read depth) → ∀ s c d, A.cursors c d →
      A.InStep A.Outcomes (g.readSymbol (g.read depth) s c) (g'.readSymbol (g'.read depth) s d))
    (depth : Nat) : A.Readers (g.read depth) (g'.read depth) := by
  induction depth with
  | zero =>
    intro s c d h
    simp only [Grammar.read, atEnd_eq h]
    cases d.atEnd with
    | true => exact .ok .none
    | false => exact .halt hcut
  | succ depth ih =>
    intro s c d h
    cases hend : d.atEnd with
    | true =>
      rw [Grammar.read_atEnd _ _ (atEnd_eq h ▸ hend), Grammar.read_atEnd _ _ hend]
      exact .ok .none
    | false =>
      rw [Grammar.read_succ _ _ (atEnd_eq h ▸ hend), Grammar.read_succ _ _ hend]
      exact hstep depth ih s c d h

end Alignment

end Packrat
