import Packrat.Proofs.Exploration
import Packrat.Proofs.LeftRecursion
import Packrat.Proofs.Soundness

/-!
Where errors come from. A symbol fails either on its own account, because its declaration is
invalid, a labeled component of it is absent or its assembler refuses, or because a symbol that
it called has failed. A call at the very place of its caller is a left call.
-/
namespace Packrat

variable {S : Type} {V : S → Type} {g : Grammar S V} {α : Type}

open Grammar Cursor

namespace Grammar

/-- An error that `s` raises itself at `c`, when its parts are read by `read`. -/
inductive Raises (g : Grammar S V) (read : Reader V) (s : S) (c : Cursor) : Error → Prop
  | declaration {flaw : Flaw} (hflaw : (g.shape s).flaw? = some flaw) :
      Raises g read s c (.declaration (g.name s) flaw)
  | label {seq : Sequence V (V s)} {d : Component S} {label : String} {at_ : Cursor}
      (hshape : g.shape s = .sequence seq) (hd : d ∈ Component.byPriority seq.components)
      (hlabel : d.label = some label) (hat : c ≤ at_)
      (habsent : Reader.component read at_ d.policy = .ok none) :
      Raises g read s c (.parse label at_.first)
  | assembler {seq : Sequence V (V s)} {fields left : Fields V} {ws : List String}
      {error : Error} (hshape : g.shape s = .sequence seq)
      (hfields : g.DerivesFields (Component.byPriority seq.components) (g.noFields s) fields ws)
      (herror : seq.assemble fields = .error error left) : Raises g read s c error

/-- An error that no label raises: a declaration is flawed, or an assembler refuses its fields. -/
inductive Refuses (g : Grammar S V) : Error → Prop
  | declaration {s : S} {flaw : Flaw} (hflaw : (g.shape s).flaw? = some flaw) :
      Refuses g (.declaration (g.name s) flaw)
  | assembler {s : S} {seq : Sequence V (V s)} {fields left : Fields V} {error : Error}
      (hshape : g.shape s = .sequence seq)
      (herror : seq.assemble fields = .error error left) : Refuses g error

theorem checked_eq_error_iff {s : S} {error : Error} :
    g.checked s = .error error ↔
      ∃ flaw, (g.shape s).flaw? = some flaw ∧ error = .declaration (g.name s) flaw := by
  simp only [checked, Shape.checked]
  cases (g.shape s).flaw? with
  | some flaw => simp [eq_comm]
  | none => simp

theorem refuses_of_checked {s : S} {error : Error} (h : g.checked s = .error error) :
    g.Refuses error := by
  obtain ⟨flaw, hflaw, rfl⟩ := checked_eq_error_iff.mp h
  exact .declaration hflaw

end Grammar

namespace Reader

variable {read : Reader V} {halt : Halt}

theorem alternation_error {c : Cursor} {alternatives : List (Alternative V α)}
    (h : alternation read c alternatives = .error halt) :
    ∃ a ∈ alternatives, read a.symbol c = .error halt := by
  induction alternatives with
  | nil => cases h
  | cons a rest ih =>
    rcases bind_eq_error_iff.mp h with h | ⟨o, -, h⟩
    · exact ⟨a, List.mem_cons_self, h⟩
    · cases o with
      | some m => cases h
      | none =>
        obtain ⟨b, hb, hfailed⟩ := ih h
        exact ⟨b, List.mem_cons_of_mem a hb, hfailed⟩

theorem items_error (hread : read.Sound g) {s : S} {budget : Nat} {c : Cursor}
    (h : items read s budget c = .error halt) : ∃ d, c ≤ d ∧ read s d = .error halt := by
  induction budget generalizing c with
  | zero => cases h
  | succ budget ih =>
    rcases bind_eq_error_iff.mp h with h | ⟨o, ho, h⟩
    · exact ⟨c, le_rfl, h⟩
    · cases o with
      | none => cases h
      | some m =>
        simp only at h
        split at h
        · cases h
        · rcases bind_eq_error_iff.mp h with h | ⟨more, -, h⟩
          · obtain ⟨d, hd, hfailed⟩ := ih h
            exact ⟨d, (hread.le ho).trans hd, hfailed⟩
          · cases h

theorem listing_error (hread : read.Sound g) {s : S} {delimiter : Literal} {budget : Nat}
    {c : Cursor} (h : listing read s delimiter budget c = .error halt) :
    ∃ d, c ≤ d ∧ read s d = .error halt := by
  induction budget generalizing c with
  | zero => cases h
  | succ budget ih =>
    rcases bind_eq_error_iff.mp h with h | ⟨o, ho, h⟩
    · exact ⟨c, le_rfl, h⟩
    · cases o with
      | none => cases h
      | some m =>
        simp only at h
        split at h
        · rcases bind_eq_error_iff.mp h with h | ⟨more, -, h⟩
          · obtain ⟨d, hd, hfailed⟩ := ih h
            exact ⟨d, ((hread.le ho).trans (le_next m.rest)).trans hd, hfailed⟩
          · cases h
        · cases h

/-- A component fails only because the symbol that it takes does. -/
theorem component_error (hread : read.Sound g) {p : Policy S} {c : Cursor}
    (h : component read c p = .error halt) :
    ∃ t d, p.symbol? = some t ∧ c ≤ d ∧ read t d = .error halt := by
  match p with
  | .keyword literal => cases h
  | .element s .required => exact ⟨s, c, rfl, le_rfl, h⟩
  | .element s .optional =>
    rcases bind_eq_error_iff.mp h with h | ⟨o, -, h⟩
    · exact ⟨s, c, rfl, le_rfl, h⟩
    · cases o <;> cases h
  | .element s .oneOrMore =>
    rcases bind_eq_error_iff.mp h with h | ⟨m, -, h⟩
    · obtain ⟨d, hd, hfailed⟩ := items_error hread h
      exact ⟨s, d, rfl, hd, hfailed⟩
    · cases h
  | .element s .zeroOrMore =>
    rcases bind_eq_error_iff.mp h with h | ⟨m, -, h⟩
    · obtain ⟨d, hd, hfailed⟩ := items_error hread h
      exact ⟨s, d, rfl, hd, hfailed⟩
    · cases h
  | .element s (.delimited delimiter trailing empty) =>
    rcases bind_eq_error_iff.mp h with h | ⟨m, -, h⟩
    · obtain ⟨d, hd, hfailed⟩ := listing_error hread h
      exact ⟨s, d, rfl, hd, hfailed⟩
    · cases h

/-- A component that consumes nothing is nullable. -/
theorem component_nullable (hread : read.Sound g) {p : Policy S} {c : Cursor}
    {m : Match (p.slotType.Value V)} (h : component read c p = .ok (some m)) (hrest : m.rest = c) :
    g.NullablePart p := by
  obtain ⟨ws, hspells, hv⟩ := component_sound hread h
  rw [hrest] at hspells
  exact nullablePart_of_derivesPart hv hspells.eq_nil_of_self

/-- Among components, one fails after all before it have matched; its label is raised, or the
symbol that it takes fails. If that is where the components began, those before are nullable. -/
theorem components_error (hread : read.Sound g) {ds : List (Component S)} {c : Cursor}
    {fields : Fields V} (h : components read ds c fields = .error halt) :
    ∃ before d after e, ds = before ++ d :: after ∧ c ≤ e ∧
      (e = c → ∀ b ∈ before, g.NullablePart b.policy) ∧
      ((∃ t f, d.policy.symbol? = some t ∧ e ≤ f ∧ read t f = .error halt) ∨
        ∃ label, d.label = some label ∧ component read e d.policy = .ok none ∧
          halt = .failure (.parse label e.first)) := by
  induction ds generalizing c fields with
  | nil => cases h
  | cons d rest ih =>
    rcases bind_eq_error_iff.mp h with h | ⟨o, ho, h⟩
    · obtain ⟨t, f, ht, hf, hfailed⟩ := component_error hread h
      exact ⟨[], d, rest, c, rfl, le_rfl, by simp, Or.inl ⟨t, f, ht, hf, hfailed⟩⟩
    · cases o with
      | some m =>
        obtain ⟨before, d', after, e, rfl, he, hnull, hcause⟩ := ih h
        obtain ⟨ws, hspells, -⟩ := component_sound hread ho
        refine ⟨d :: before, d', after, e, rfl, hspells.le.trans he, ?_, hcause⟩
        rintro rfl
        have hrest : m.rest = e := le_antisymm he hspells.le
        exact List.forall_mem_cons.mpr
          ⟨component_nullable hread ho hrest, hnull hrest.symm⟩
      | none =>
        refine ⟨[], d, rest, c, rfl, le_rfl, by simp, Or.inr ?_⟩
        cases hlabel : d.label with
        | some label =>
          simp only [hlabel] at h
          cases h
          exact ⟨label, rfl, ho, rfl⟩
        | none =>
          simp only [hlabel] at h
          cases h

end Reader

namespace Grammar

/-- An error of a symbol is its own, or that of a symbol that it mentions and calls further on, or
that of one that it left-calls. -/
theorem readSymbol_error {read : Reader V} (hread : read.Sound g) {s : S} {c : Cursor}
    {halt : Halt} (h : g.readSymbol read s c = .error halt) :
    (∃ error, halt = .failure error ∧ g.Raises read s c error) ∨
      ∃ t d, g.Mentions s t ∧ c ≤ d ∧ (d = c → g.LeftCalls s t) ∧ read t d = .error halt := by
  unfold readSymbol at h
  split at h
  · rename_i error hchecked
    cases h
    obtain ⟨flaw, hflaw, rfl⟩ := checked_eq_error_iff.mp hchecked
    exact Or.inl ⟨_, rfl, .declaration hflaw⟩
  · rename_i shape hchecked
    obtain ⟨-, rfl⟩ := checked_eq_ok_iff.mp hchecked
    cases hshape : g.shape s with
    | terminal matcher =>
      rw [hshape] at h
      cases h
    | alternation alternatives =>
      rw [hshape] at h
      obtain ⟨a, ha, hfailed⟩ := Reader.alternation_error h
      exact Or.inr ⟨a.symbol, c, .alternative hshape ha, le_rfl, fun _ => .alternative hshape ha,
        hfailed⟩
    | sequence seq =>
      rw [hshape] at h
      rcases bind_eq_error_iff.mp h with h | ⟨o, ho, h⟩
      · obtain ⟨before, d, after, e, hsplit, he, hnull, hcause⟩ :=
          Reader.components_error hread h
        change Component.byPriority seq.components = before ++ d :: after at hsplit
        have hmem : d ∈ Component.byPriority seq.components := by simp [hsplit]
        rcases hcause with ⟨t, f, ht, hf, hfailed⟩ | ⟨label, hlabel, habsent, rfl⟩
        · have hd := (Component.byPriority_perm _).mem_iff.mp hmem
          refine Or.inr ⟨t, f, .element hshape hd ht, he.trans hf, ?_, hfailed⟩
          rintro rfl
          exact .component hshape hsplit (hnull (le_antisymm hf he)) ht
        · exact Or.inl ⟨_, rfl, .label hshape hmem hlabel he habsent⟩
      · cases o with
        | none => cases h
        | some m =>
          obtain ⟨ws, -, hfields⟩ := Reader.components_sound hread ho
          change Reader.assemble seq.assemble m = .error halt at h
          unfold Reader.assemble at h
          split at h
          · cases h
          · rename_i error left herror
            cases h
            exact Or.inl ⟨error, rfl, .assembler hshape hfields herror⟩

end Grammar

end Packrat
