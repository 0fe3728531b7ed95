import Mathlib.Data.Finset.Card
import Mathlib.Logic.Relation
import Packrat.Proofs.Derivation

/-!
Left calls. A symbol is nullable if its declaration admits a match that consumes no token. It
left-calls each alternative, and the element of each component that only nullable ones precede:
these are the symbols that it may call where it was called itself. A grammar in which no symbol
leads back to itself by left calls is free of left recursion, and its left calls are well-founded.
-/
namespace Packrat.Grammar

variable {S : Type} {V : S → Type}

mutual

/-- A symbol that may match without consuming a token. -/
inductive Nullable (g : Grammar S V) : S → Prop
  | alternation {s : S} {alternatives : List (Alternative V (V s))} {a : Alternative V (V s)}
      (hshape : g.shape s = .alternation alternatives) (ha : a ∈ alternatives)
      (hnull : Nullable g a.symbol) : Nullable g s
  | sequence {s : S} {seq : Sequence V (V s)} (hshape : g.shape s = .sequence seq)
      (hnull : ∀ d ∈ seq.components, NullablePart g d.policy) : Nullable g s

/-- A policy under which a component may match without consuming a token. -/
inductive NullablePart (g : Grammar S V) : Policy S → Prop
  | required {s : S} (hnull : Nullable g s) : NullablePart g (.element s .required)
  | optional (s : S) : NullablePart g (.element s .optional)
  | oneOrMore {s : S} (hnull : Nullable g s) : NullablePart g (.element s .oneOrMore)
  | zeroOrMore (s : S) : NullablePart g (.element s .zeroOrMore)
  | emptyList (s : S) (delimiter : Literal) (trailing : Bool) :
      NullablePart g (.element s (.delimited delimiter trailing true))
  | delimited {s : S} {delimiter : Literal} {trailing empty : Bool} (hnull : Nullable g s) :
      NullablePart g (.element s (.delimited delimiter trailing empty))

end

/-- `s` may call `t` before it has consumed a token. -/
inductive LeftCalls (g : Grammar S V) (s : S) : S → Prop
  | alternative {alternatives : List (Alternative V (V s))} {a : Alternative V (V s)}
      (hshape : g.shape s = .alternation alternatives) (ha : a ∈ alternatives) :
      LeftCalls g s a.symbol
  | component {seq : Sequence V (V s)} {before after : List (Component S)} {d : Component S}
      {t : S} (hshape : g.shape s = .sequence seq)
      (hsplit : Component.byPriority seq.components = before ++ d :: after)
      (hbefore : ∀ e ∈ before, NullablePart g e.policy) (ht : d.policy.symbol? = some t) :
      LeftCalls g s t

/-- No symbol leads back to itself by left calls. -/
def LeftRecursionFree (g : Grammar S V) : Prop := ∀ s, ¬ Relation.TransGen g.LeftCalls s s

variable {g : Grammar S V}

mutual

/-- What a symbol reads from no words, it matches without consuming. -/
theorem nullable_of_derives {s : S} {v : V s} {ws : List String} :
    g.Derives s v ws → ws = [] → g.Nullable s
  | .alternation hshape ha hv, h => .alternation hshape ha (nullable_of_derives hv h)
  | .sequence hshape hfields _, h => by
    refine .sequence hshape fun d hd => nullablePart_of_derivesFields hfields h d ?_
    exact (Component.byPriority_perm _).mem_iff.mpr hd

theorem nullablePart_of_derivesFields {ds : List (Component S)} {fields filled : Fields V}
    {ws : List String} :
    g.DerivesFields ds fields filled ws → ws = [] → ∀ d ∈ ds, g.NullablePart d.policy
  | .nil _, _ => by simp
  | .cons hv hrest, h =>
    List.forall_mem_cons.mpr
      ⟨nullablePart_of_derivesPart hv (List.append_eq_nil_iff.mp h).1,
        nullablePart_of_derivesFields hrest (List.append_eq_nil_iff.mp h).2⟩

theorem nullablePart_of_derivesPart {p : Policy S} {v : p.slotType.Value V} {ws : List String} :
    g.DerivesPart p v ws → ws = [] → g.NullablePart p
  | .required hv, h => .required (nullable_of_derives hv h)
  | .absent s, _ => .optional s
  | .present _, _ => .optional _
  | .zeroOrMore _, _ => .zeroOrMore _
  | .oneOrMore (.cons hv _) _, h =>
    .oneOrMore (nullable_of_derives hv (List.append_eq_nil_iff.mp h).1)
  | .noItems s delimiter trailing, _ => .emptyList s delimiter trailing
  | .delimited (.cons hv hvs) _, h => .delimited (nullable_of_derives hv (by
      cases hvs with
      | nil => simpa [List.intercalate] using h
      | cons => simp [List.intercalate] at h))
  | .trailing _ _, h => by simp at h

end

/-- A rank that falls with every left call rules out left recursion. -/
theorem leftRecursionFree_of_rank (rank : S → Nat)
    (h : ∀ s t, g.LeftCalls s t → rank t < rank s) : g.LeftRecursionFree := by
  have falls : ∀ {s t}, Relation.TransGen g.LeftCalls s t → rank t < rank s := by
    intro s t hst
    induction hst with
    | single hcall => exact h _ _ hcall
    | tail _ hcall ih => exact Nat.lt_trans (h _ _ hcall) ih
  exact fun s hs => Nat.lt_irrefl _ (falls hs)

/-- The symbols of components up to the first keyword. -/
def leading : List (Component S) → List S
  | [] => []
  | d :: rest =>
    match d.policy.symbol? with
    | some t => t :: leading rest
    | none => []

/-- The symbols that a shape may call before it has consumed a token, and perhaps some more. -/
def leadingOf {α : Type} : Shape V α → List S
  | .terminal _ => []
  | .alternation alternatives => alternatives.map Alternative.symbol
  | .sequence seq => leading (Component.byPriority seq.components)

/-- A keyword always consumes its token. -/
theorem NullablePart.exists_symbol {p : Policy S} (h : g.NullablePart p) :
    ∃ t, p.symbol? = some t := by
  cases h <;> exact ⟨_, rfl⟩

theorem mem_leading {before after : List (Component S)} {d : Component S} {t : S}
    (hbefore : ∀ e ∈ before, g.NullablePart e.policy) (ht : d.policy.symbol? = some t) :
    t ∈ leading (before ++ d :: after) := by
  induction before with
  | nil => simp [leading, ht]
  | cons e before ih =>
    obtain ⟨he, hbefore⟩ := List.forall_mem_cons.mp hbefore
    have hmem := ih hbefore
    obtain ⟨u, hu⟩ := he.exists_symbol
    simp [leading, hu, hmem]

theorem LeftCalls.mem_leadingOf {s t : S} (h : g.LeftCalls s t) : t ∈ leadingOf (g.shape s) := by
  cases h with
  | alternative hshape ha =>
    rw [hshape]
    exact List.mem_map_of_mem ha
  | component hshape hsplit hbefore ht =>
    rw [hshape, leadingOf, hsplit]
    exact mem_leading hbefore ht

/-- A rank that can be checked without asking what is nullable. -/
theorem leftRecursionFree_of_leading (rank : S → Nat)
    (h : ∀ s, ∀ t ∈ leadingOf (g.shape s), rank t < rank s) : g.LeftRecursionFree :=
  leftRecursionFree_of_rank rank fun s t hcall => h s t hcall.mem_leadingOf

/-- A rank below the number of symbols, which falls with every left call. -/
structure Ranked (g : Grammar S V) (rank : S → Nat) : Prop where
  lt_length : ∀ s, rank s < g.symbols.length
  falls : ∀ s t, g.LeftCalls s t → rank t < rank s

/-- The number of symbols that left calls lead to is such a rank. -/
theorem LeftRecursionFree.exists_ranked (h : g.LeftRecursionFree) : ∃ rank, g.Ranked rank := by
  classical
  let below (s : S) : Finset S := g.symbols.toFinset.filter (Relation.TransGen g.LeftCalls s)
  have hmem : ∀ s t, t ∈ below s ↔ Relation.TransGen g.LeftCalls s t := by
    intro s t
    simp [below, g.mem_symbols]
  have hself : ∀ s, s ∉ below s := fun s hs => h s ((hmem s s).mp hs)
  refine ⟨fun s => (below s).card, fun s => ?_, fun s t hcall => ?_⟩
  · have hlt : (below s).card < g.symbols.toFinset.card := by
      apply Finset.card_lt_card
      rw [Finset.ssubset_iff_of_subset (Finset.filter_subset _ _)]
      exact ⟨s, List.mem_toFinset.mpr (g.mem_symbols s), hself s⟩
    exact hlt.trans_le g.symbols.toFinset_card_le
  · apply Finset.card_lt_card
    rw [Finset.ssubset_iff_of_subset]
    · exact ⟨t, (hmem s t).mpr (.single hcall), hself t⟩
    · intro u hu
      exact (hmem s u).mpr (.head hcall ((hmem t u).mp hu))

theorem LeftRecursionFree.wellFounded (h : g.LeftRecursionFree) :
    WellFounded fun t s => g.LeftCalls s t := by
  obtain ⟨rank, hrank⟩ := h.exists_ranked
  exact Subrelation.wf (fun hcall => hrank.falls _ _ hcall) (measure rank).wf

end Packrat.Grammar
