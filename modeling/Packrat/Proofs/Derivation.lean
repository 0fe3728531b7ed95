import Packrat.Grammar

/-!
Derivations: which words a value can be read from, going by the declarations alone. Choices are
free here; that an earlier alternative or a longer row of items is preferred is left to readings.
-/
namespace Packrat.Grammar

variable {S : Type} {V : S → Type}

/-- The fields of `s` before any of its slots is filled. -/
def noFields (g : Grammar S V) (s : S) : Fields V := ⟨g.name s, g.typeName, []⟩

mutual

/-- The value of a symbol reads the words. -/
inductive Derives (g : Grammar S V) : (s : S) → V s → List String → Prop
  | terminal {s : S} {matcher : String → Option (V s)} {word : String} {v : V s}
      (hshape : g.shape s = .terminal matcher) (hmatch : matcher word = some v) :
      Derives g s v [word]
  | alternation {s : S} {alternatives : List (Alternative V (V s))} {a : Alternative V (V s)}
      {v : V a.symbol} {ws : List String}
      (hshape : g.shape s = .alternation alternatives) (ha : a ∈ alternatives)
      (hv : Derives g a.symbol v ws) : Derives g s (a.wrap v) ws
  | sequence {s : S} {seq : Sequence V (V s)} {fields left : Fields V} {v : V s}
      {ws : List String} (hshape : g.shape s = .sequence seq)
      (hfields : DerivesFields g (Component.byPriority seq.components) (g.noFields s) fields ws)
      (hv : seq.assemble fields = .ok v left) : Derives g s v ws

/-- Each component in turn reads its words into its slot. -/
inductive DerivesFields (g : Grammar S V) :
    List (Component S) → Fields V → Fields V → List String → Prop
  | nil (fields : Fields V) : DerivesFields g [] fields fields []
  | cons {d : Component S} {rest : List (Component S)} {fields filled : Fields V}
      {v : d.policy.slotType.Value V} {us ws : List String}
      (hv : DerivesPart g d.policy v us)
      (hrest : DerivesFields g rest (fields.insert d.slot ⟨_, v⟩) filled ws) :
      DerivesFields g (d :: rest) fields filled (us ++ ws)

/-- The value for a slot reads the words, as the policy of the slot has it. -/
inductive DerivesPart (g : Grammar S V) :
    (p : Policy S) → p.slotType.Value V → List String → Prop
  | keyword (literal : Literal) :
      DerivesPart g (.keyword literal) literal.text [literal.text]
  | required {s : S} {v : V s} {ws : List String} (hv : Derives g s v ws) :
      DerivesPart g (.element s .required) v ws
  | absent (s : S) : DerivesPart g (.element s .optional) none []
  | present {s : S} {v : V s} {ws : List String} (hv : Derives g s v ws) :
      DerivesPart g (.element s .optional) (some v) ws
  | zeroOrMore {s : S} {vs : List (V s)} {wss : List (List String)}
      (hvs : DerivesEach g s vs wss) : DerivesPart g (.element s .zeroOrMore) vs wss.flatten
  | oneOrMore {s : S} {vs : List (V s)} {wss : List (List String)}
      (hvs : DerivesEach g s vs wss) (hne : vs ≠ []) :
      DerivesPart g (.element s .oneOrMore) vs wss.flatten
  | noItems (s : S) (delimiter : Literal) (trailing : Bool) :
      DerivesPart g (.element s (.delimited delimiter trailing true)) [] []
  | delimited {s : S} {vs : List (V s)} {wss : List (List String)} {delimiter : Literal}
      {trailing empty : Bool} (hvs : DerivesEach g s vs wss) (hne : vs ≠ []) :
      DerivesPart g (.element s (.delimited delimiter trailing empty)) vs
        ([delimiter.text].intercalate wss)
  | trailing {s : S} {vs : List (V s)} {wss : List (List String)} {delimiter : Literal}
      {empty : Bool} (hvs : DerivesEach g s vs wss) (hne : vs ≠ []) :
      DerivesPart g (.element s (.delimited delimiter true empty)) vs
        ([delimiter.text].intercalate wss ++ [delimiter.text])

/-- Each value reads the words at its place in the list. -/
inductive DerivesEach (g : Grammar S V) :
    (s : S) → List (V s) → List (List String) → Prop
  | nil (s : S) : DerivesEach g s [] []
  | cons {s : S} {v : V s} {vs : List (V s)} {ws : List String} {wss : List (List String)}
      (hv : Derives g s v ws) (hvs : DerivesEach g s vs wss) :
      DerivesEach g s (v :: vs) (ws :: wss)

end

variable {g : Grammar S V} {s : S} {v : V s} {ws : List String}

/-- A derivation of a terminal reads one word. -/
theorem Derives.of_terminal (h : g.Derives s v ws) {matcher : String → Option (V s)}
    (hshape : g.shape s = .terminal matcher) : ∃ word, ws = [word] ∧ matcher word = some v := by
  cases h with
  | terminal hshape' hmatch =>
    rw [hshape'] at hshape
    cases hshape
    exact ⟨_, rfl, hmatch⟩
  | alternation hshape' => rw [hshape'] at hshape; cases hshape
  | sequence hshape' => rw [hshape'] at hshape; cases hshape

/-- A derivation of an alternation is one of an alternative. -/
theorem Derives.of_alternation (h : g.Derives s v ws) {alternatives : List (Alternative V (V s))}
    (hshape : g.shape s = .alternation alternatives) :
    ∃ a ∈ alternatives, ∃ u, g.Derives a.symbol u ws ∧ v = a.wrap u := by
  cases h with
  | terminal hshape' => rw [hshape'] at hshape; cases hshape
  | alternation hshape' ha hv =>
    rw [hshape'] at hshape
    cases hshape
    exact ⟨_, ha, _, hv, rfl⟩
  | sequence hshape' => rw [hshape'] at hshape; cases hshape

/-- A derivation of a sequence fills its slots and assembles them. -/
theorem Derives.of_sequence (h : g.Derives s v ws) {seq : Sequence V (V s)}
    (hshape : g.shape s = .sequence seq) :
    ∃ fields left, g.DerivesFields (Component.byPriority seq.components) (g.noFields s) fields ws ∧
      seq.assemble fields = .ok v left := by
  cases h with
  | terminal hshape' => rw [hshape'] at hshape; cases hshape
  | alternation hshape' => rw [hshape'] at hshape; cases hshape
  | sequence hshape' hfields hv =>
    rw [hshape'] at hshape
    cases hshape
    exact ⟨_, _, hfields, hv⟩

end Packrat.Grammar
