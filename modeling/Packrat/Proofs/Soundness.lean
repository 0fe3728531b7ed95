import Packrat.Proofs.Reading
import Packrat.Proofs.Span

/-!
Every match is a derivation. A match spells the words between the cursor and its rest, and its
value derives these words. The statement passes from a reader to all parts of a shape read
through it, and so from one depth of calls to the next.
-/
namespace Packrat

variable {S : Type} {V : S → Type} {g : Grammar S V} {α : Type}

open Grammar Cursor

namespace Reader

/-- Matches spell words that their values derive. -/
def Sound (g : Grammar S V) (read : Reader V) : Prop :=
  ∀ s c m, read s c = .ok (some m) → ∃ ws, c.Spells ws m.rest ∧ g.Derives s m.value ws

variable {read : Reader V}

theorem Sound.le (hread : read.Sound g) {s : S} {c : Cursor} {m : Match (V s)}
    (h : read s c = .ok (some m)) : c ≤ m.rest := by
  obtain ⟨ws, hspells, -⟩ := hread s c m h
  exact hspells.le

theorem terminal_sound {matcher : String → Option α} {c : Cursor} {m : Match α}
    (h : terminal matcher c = some m) :
    ∃ word, c.Spells [word] m.rest ∧ matcher word = some m.value := by
  simp only [terminal, Option.map_eq_some_iff, Option.bind_eq_some_iff] at h
  obtain ⟨v, ⟨word, hword, hv⟩, rfl⟩ := h
  exact ⟨word, Spells.one hword, hv⟩

theorem keyword_sound {literal : Literal} {c : Cursor} {m : Match String}
    (h : Parser.keyword literal c = some m) :
    c.Spells [literal.text] m.rest ∧ m.value = literal.text := by
  unfold Parser.keyword at h
  split at h
  · rename_i hb
    cases h
    exact ⟨Spells.one ((begins_iff c literal.text).mp hb), rfl⟩
  · cases h

/-- The chosen alternative is one that matches here. -/
theorem alternation_sound {c : Cursor} {alternatives : List (Alternative V α)} {m : Match α}
    (h : alternation read c alternatives = .ok (some m)) :
    ∃ a ∈ alternatives, ∃ m', read a.symbol c = .ok (some m') ∧ m = m'.map a.wrap := by
  induction alternatives with
  | nil => cases h
  | cons a rest ih =>
    obtain ⟨o, ho, h⟩ := bind_eq_ok_iff.mp h
    cases o with
    | some m' =>
      cases h
      exact ⟨a, List.mem_cons_self, m', ho, rfl⟩
    | none =>
      obtain ⟨b, hb, m', hm', heq⟩ := ih h
      exact ⟨b, List.mem_cons_of_mem a hb, m', hm', heq⟩

theorem items_sound (hread : read.Sound g) {s : S} {budget : Nat} {c : Cursor}
    {m : Match (List (V s))} (h : items read s budget c = .ok m) :
    ∃ wss, c.Spells wss.flatten m.rest ∧ g.DerivesEach s m.value wss := by
  induction budget generalizing c m with
  | zero =>
    cases h
    exact ⟨[], Spells.nil c, .nil s⟩
  | succ budget ih =>
    obtain ⟨o, ho, h⟩ := bind_eq_ok_iff.mp h
    cases o with
    | none =>
      cases h
      exact ⟨[], Spells.nil c, .nil s⟩
    | some m₁ =>
      obtain ⟨ws, hws, hv⟩ := hread s c m₁ ho
      simp only at h
      split at h
      · cases h
        exact ⟨[ws], by simpa using hws, .cons hv (.nil s)⟩
      · obtain ⟨more, hmore, h⟩ := bind_eq_ok_iff.mp h
        cases h
        obtain ⟨wss, hwss, hvs⟩ := ih hmore
        exact ⟨ws :: wss, by simpa using hws.append hwss, .cons hv hvs⟩

/-- A list that is left open has read one more delimiter than a closed one. -/
def listWords (delimiter : String) (isOpen : Bool) (wss : List (List String)) : List String :=
  [delimiter].intercalate wss ++ if isOpen && !wss.isEmpty then [delimiter] else []

theorem listWords_cons (delimiter : String) (isOpen : Bool) (ws : List String)
    (wss : List (List String)) (h : isOpen = true ∨ wss ≠ []) :
    listWords delimiter isOpen (ws :: wss) =
      ws ++ [delimiter] ++ listWords delimiter isOpen wss := by
  cases wss with
  | nil =>
    obtain rfl : isOpen = true := by simpa using h
    simp [listWords, List.intercalate]
  | cons us wss => simp [listWords, List.intercalate]

theorem listing_sound (hread : read.Sound g) {s : S} {delimiter : Literal} {budget : Nat}
    {c : Cursor} {m : Match (Parser.Listing (V s))}
    (h : listing read s delimiter budget c = .ok m) :
    ∃ wss, c.Spells (listWords delimiter.text m.value.isOpen wss) m.rest ∧
      g.DerivesEach s m.value.items wss ∧ (m.value.isOpen = true ∨ wss ≠ []) := by
  induction budget generalizing c m with
  | zero =>
    cases h
    exact ⟨[], Spells.nil c, .nil s, Or.inl rfl⟩
  | succ budget ih =>
    obtain ⟨o, ho, h⟩ := bind_eq_ok_iff.mp h
    cases o with
    | none =>
      cases h
      exact ⟨[], Spells.nil c, .nil s, Or.inl rfl⟩
    | some m₁ =>
      obtain ⟨ws, hws, hv⟩ := hread s c m₁ ho
      simp only at h
      split at h
      · rename_i hbegins
        obtain ⟨more, hmore, h⟩ := bind_eq_ok_iff.mp h
        cases h
        obtain ⟨wss, hwss, hvs, hopen⟩ := ih hmore
        have hdelimiter := Spells.one ((begins_iff _ _).mp hbegins)
        refine ⟨ws :: wss, ?_, .cons hv hvs, Or.inr (by simp)⟩
        change c.Spells (listWords delimiter.text more.value.isOpen (ws :: wss)) more.rest
        rw [listWords_cons _ _ _ _ hopen]
        exact (hws.append hdelimiter).append hwss
      · cases h
        exact ⟨[ws], by simpa [listWords, List.intercalate] using hws, .cons hv (.nil s),
          Or.inr (by simp)⟩

theorem derivesPart_of_accepted {s : S} {l : Parser.Listing (V s)} {delimiter : Literal}
    {trailing empty : Bool} {wss : List (List String)} (hvs : g.DerivesEach s l.items wss)
    (hopen : l.isOpen = true ∨ wss ≠ []) (h : l.accepted trailing empty = true) :
    g.DerivesPart (.element s (.delimited delimiter trailing empty)) l.items
      (listWords delimiter.text l.isOpen wss) := by
  obtain ⟨items, isOpen⟩ := l
  cases hvs with
  | nil =>
    obtain rfl : isOpen = true := by simpa using hopen
    obtain rfl : empty = true := by simpa [Parser.Listing.accepted] using h
    simpa [listWords, List.intercalate] using DerivesPart.noItems s delimiter trailing
  | cons hv hvs =>
    cases isOpen with
    | false =>
      simpa [listWords] using DerivesPart.delimited (.cons hv hvs) (List.cons_ne_nil _ _)
    | true =>
      obtain rfl : trailing = true := by simpa [Parser.Listing.accepted] using h
      simpa [listWords] using DerivesPart.trailing (.cons hv hvs) (List.cons_ne_nil _ _)

theorem component_sound (hread : read.Sound g) {p : Policy S} {c : Cursor}
    {m : Match (p.slotType.Value V)} (h : component read c p = .ok (some m)) :
    ∃ ws, c.Spells ws m.rest ∧ g.DerivesPart p m.value ws := by
  match p with
  | .keyword literal =>
    obtain ⟨hspells, hvalue⟩ := keyword_sound (Except.ok.inj h)
    refine ⟨[literal.text], hspells, ?_⟩
    rw [hvalue]
    exact .keyword literal
  | .element s .required =>
    obtain ⟨ws, hspells, hv⟩ := hread s c m h
    exact ⟨ws, hspells, .required hv⟩
  | .element s .optional =>
    obtain ⟨o, ho, h⟩ := bind_eq_ok_iff.mp h
    cases o with
    | none =>
      cases h
      exact ⟨[], Spells.nil c, .absent s⟩
    | some m' =>
      cases h
      obtain ⟨ws, hspells, hv⟩ := hread s c m' ho
      exact ⟨ws, hspells, .present hv⟩
  | .element s .oneOrMore =>
    obtain ⟨m', hm', h⟩ := bind_eq_ok_iff.mp h
    obtain ⟨wss, hspells, hvs⟩ := items_sound hread hm'
    replace h := Except.ok.inj h
    split at h
    · cases h
    · rename_i hleast
      cases h
      exact ⟨wss.flatten, hspells, .oneOrMore hvs (fun hnil => hleast (by simp [hnil]))⟩
  | .element s .zeroOrMore =>
    obtain ⟨m', hm', h⟩ := bind_eq_ok_iff.mp h
    obtain ⟨wss, hspells, hvs⟩ := items_sound hread hm'
    simp only [Nat.not_lt_zero, if_false] at h
    cases h
    exact ⟨wss.flatten, hspells, .zeroOrMore hvs⟩
  | .element s (.delimited delimiter trailing empty) =>
    obtain ⟨m', hm', h⟩ := bind_eq_ok_iff.mp h
    obtain ⟨wss, hspells, hvs, hopen⟩ := listing_sound hread hm'
    replace h := Except.ok.inj h
    split at h
    · rename_i haccepted
      cases h
      exact ⟨_, hspells, derivesPart_of_accepted hvs hopen haccepted⟩
    · cases h

theorem components_sound (hread : read.Sound g) {ds : List (Component S)} {c : Cursor}
    {fields : Fields V} {m : Match (Fields V)}
    (h : components read ds c fields = .ok (some m)) :
    ∃ ws, c.Spells ws m.rest ∧ g.DerivesFields ds fields m.value ws := by
  induction ds generalizing c fields with
  | nil =>
    cases h
    exact ⟨[], Spells.nil c, .nil fields⟩
  | cons d rest ih =>
    obtain ⟨o, ho, h⟩ := bind_eq_ok_iff.mp h
    cases o with
    | some m' =>
      obtain ⟨us, hus, hv⟩ := component_sound hread ho
      obtain ⟨ws, hws, hrest⟩ := ih h
      exact ⟨us ++ ws, hus.append hws, .cons hv hrest⟩
    | none =>
      simp only at h
      split at h
      · cases h
      · cases h

theorem assemble_sound {assembler : Assembler V α} {m : Match (Fields V)} {m' : Match α}
    (h : assemble assembler m = .ok (some m')) :
    m'.rest = m.rest ∧ ∃ left, assembler m.value = .ok m'.value left := by
  unfold assemble at h
  split at h
  · rename_i value left hvalue
    cases h
    exact ⟨rfl, left, hvalue⟩
  · cases h

end Reader

namespace Grammar

/-- A valid shape is used with its components in the order of attempts. -/
theorem checked_eq_ok_iff {s : S} {shape : Shape V (V s)} :
    g.checked s = .ok shape ↔ g.isValid s = true ∧ shape = (g.shape s).inOrder := by
  simp only [checked, Shape.checked, isValid]
  split
  · rename_i flaw hflaw
    simp [hflaw]
  · rename_i hflaw
    simp [hflaw, eq_comm]

theorem readSymbol_sound {read : Reader V} (hread : read.Sound g) {s : S} {c : Cursor}
    {m : Match (V s)} (h : g.readSymbol read s c = .ok (some m)) :
    ∃ ws, c.Spells ws m.rest ∧ g.Derives s m.value ws := by
  unfold readSymbol at h
  split at h
  · cases h
  · rename_i shape hchecked
    obtain ⟨-, rfl⟩ := checked_eq_ok_iff.mp hchecked
    match hshape : g.shape s with
    | .terminal matcher =>
      simp only [hshape, Shape.inOrder] at h
      obtain ⟨word, hspells, hmatch⟩ := Reader.terminal_sound (Except.ok.inj h)
      exact ⟨[word], hspells, .terminal hshape hmatch⟩
    | .alternation alternatives =>
      simp only [hshape, Shape.inOrder] at h
      obtain ⟨a, ha, m', hm', rfl⟩ := Reader.alternation_sound h
      obtain ⟨ws, hspells, hv⟩ := hread a.symbol c m' hm'
      exact ⟨ws, hspells, .alternation hshape ha hv⟩
    | .sequence seq =>
      simp only [hshape, Shape.inOrder] at h
      obtain ⟨o, ho, h⟩ := bind_eq_ok_iff.mp h
      cases o with
      | none => cases h
      | some m' =>
        obtain ⟨ws, hspells, hfields⟩ := Reader.components_sound hread ho
        obtain ⟨hrest, left, hv⟩ := Reader.assemble_sound h
        rw [hrest]
        exact ⟨ws, hspells, .sequence hshape hfields hv⟩

theorem read_sound (g : Grammar S V) (depth : Nat) : (g.read depth).Sound g := by
  induction depth with
  | zero =>
    intro s c m h
    simp only [read] at h
    split at h <;> cases h
  | succ depth ih =>
    intro s c m h
    simp only [read] at h
    split at h
    · cases h
    · exact readSymbol_sound ih h

theorem meaning_sound (g : Grammar S V) : g.meaning.Sound g :=
  fun s c m h => read_sound g _ s c m h

end Grammar

end Packrat
