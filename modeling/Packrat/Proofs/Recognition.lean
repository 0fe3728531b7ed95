import Mathlib.Tactic.FinCases
import Packrat.Proofs.Peg
import Packrat.Proofs.Termination

/-!
Recognition. A grammar stands for a parsing expression grammar: a symbol fails where no token is
left, an alternation is a choice, a sequence puts its components one after the other, and each
policy has an expression of its own. What is read of a symbol is what its expression recognises,
so the single pass over a delimited list does the work of an expression that may look at the last
delimiter twice.
-/
namespace Packrat

variable {S : Type} {V : S → Type} {g : Grammar S V} {α : Type}

open Cursor

/-- The expression of a delimited list. A list that may not end in a delimiter fails before one. -/
def Peg.delimited (item delimiter : Peg S) : (trailing empty : Bool) → Peg S
  | false, false => .seq (.separated item delimiter) (.not delimiter)
  | true, false => .seq (.separated item delimiter) (.optional delimiter)
  | false, true =>
    .choice (.seq (.separated item delimiter) (.not delimiter)) (.not item)
  | true, true =>
    .choice (.seq (.separated item delimiter) (.optional delimiter)) .empty

def Policy.peg : Policy S → Peg S
  | .keyword word => .literal word.text
  | .element s .required => .symbol s
  | .element s .optional => .optional (.symbol s)
  | .element s .oneOrMore => .plus (.symbol s)
  | .element s .zeroOrMore => .star (.symbol s)
  | .element s (.delimited delimiter trailing empty) =>
    .delimited (.symbol s) (.literal delimiter.text) trailing empty

def Shape.peg : Shape V α → Peg S
  | .terminal matcher => .text fun word => (matcher word).isSome
  | .alternation alternatives =>
    alternatives.foldr (fun a e => .choice (.symbol a.symbol) e) .fail
  | .sequence seq =>
    (Component.byPriority seq.components).foldr (fun d e => .seq d.policy.peg e) .empty

/-- The rule of a symbol: there is a token, and the shape matches. -/
def Grammar.rule (g : Grammar S V) (s : S) : Peg S := .seq (.and .any) (g.shape s).peg

open Peg (Reaches Fails reaches_token fails_token reaches_empty fails_fail reaches_literal
  fails_literal)

namespace Reader

/-- Whatever is read of a symbol, its expression recognises. -/
structure Recognised (g : Grammar S V) (read : Reader V) : Prop where
  found : ∀ {s c m}, read s c = .ok (some m) → Reaches g.rule (.symbol s) c m.rest
  absent : ∀ {s c}, read s c = .ok none → Fails g.rule (.symbol s) c

variable {read : Reader V} {c : Cursor}

theorem fails_atEnd (s : S) (h : c.atEnd = true) : Fails g.rule (.symbol s) c := by
  have hany : Fails g.rule .any c := by
    unfold Fails
    rw [remaining_of_atEnd h]
    exact .noToken _
  exact .symbol hany.and.seq

theorem terminal_found {matcher : String → Option α} {m : Match α}
    (h : terminal matcher c = some m) :
    Reaches g.rule (.text fun word => (matcher word).isSome) c m.rest := by
  simp only [terminal, Option.map_eq_some_iff, Option.bind_eq_some_iff] at h
  obtain ⟨v, ⟨word, hword, hv⟩, rfl⟩ := h
  apply reaches_token (atEnd_eq_false_of_text hword)
  simp [hword, hv]

theorem terminal_absent {matcher : String → Option α} (h : terminal matcher c = none) :
    Fails g.rule (.text fun word => (matcher word).isSome) c := by
  apply fails_token
  cases hword : c.first.text with
  | none => rfl
  | some word =>
    simp only [terminal, hword, Option.bind_some, Option.map_eq_none_iff] at h
    simp [h]

theorem alternation_found (hread : read.Recognised g) {alternatives : List (Alternative V α)}
    {m : Match α} (h : alternation read c alternatives = .ok (some m)) :
    Reaches g.rule (Shape.peg (.alternation alternatives)) c m.rest := by
  induction alternatives with
  | nil => cases h
  | cons a rest ih =>
    obtain ⟨o, ho, h⟩ := bind_eq_ok_iff.mp h
    cases o with
    | some m' =>
      cases h
      exact (hread.found ho).choice
    | none => exact (hread.absent ho).choice_reaches (ih h)

theorem alternation_absent (hread : read.Recognised g) {alternatives : List (Alternative V α)}
    (h : alternation read c alternatives = .ok none) :
    Fails g.rule (Shape.peg (.alternation alternatives)) c := by
  induction alternatives with
  | nil => exact fails_fail c
  | cons a rest ih =>
    obtain ⟨o, ho, h⟩ := bind_eq_ok_iff.mp h
    cases o with
    | some m' => cases h
    | none => exact (hread.absent ho).choice_fails (ih h)

/-- A row is what the repetition takes, and if it has an item, what the same takes that asks for
one. -/
theorem items_recognised (hread : read.Recognised g) {s : S} {budget : Nat}
    {m : Match (List (V s))} (hbudget : c.size ≤ budget) (h : items read s budget c = .ok m) :
    Reaches g.rule (.star (.symbol s)) c m.rest ∧
      (m.value = [] → Fails g.rule (.symbol s) c) ∧
      (m.value ≠ [] → Reaches g.rule (.plus (.symbol s)) c m.rest) := by
  induction budget generalizing c m with
  | zero =>
    cases h
    have hfails : Fails g.rule (.symbol s) c := fails_atEnd s ((atEnd_iff c).mpr (by omega))
    exact ⟨hfails.star, fun _ => hfails, fun hne => absurd rfl hne⟩
  | succ budget ih =>
    obtain ⟨o, ho, h⟩ := bind_eq_ok_iff.mp h
    cases o with
    | none =>
      cases h
      have hfails := hread.absent ho
      exact ⟨hfails.star, fun _ => hfails, fun hne => absurd rfl hne⟩
    | some m₁ =>
      have hitem := hread.found ho
      simp only at h
      split at h
      · rename_i hstall
        cases h
        obtain hself : m₁.rest = c := ext_size (input_eq_of_le hitem.le) hstall
        rw [hself] at hitem ⊢
        exact ⟨hitem.star_stall, by simp, fun _ => hitem.seq hitem.star_stall⟩
      · rename_i hmoves
        obtain ⟨more, hmore, h⟩ := bind_eq_ok_iff.mp h
        cases h
        have hlt : m₁.rest.size < c.size := by
          have := size_le_of_le hitem.le
          omega
        obtain ⟨hstar, -, -⟩ := ih (by omega) hmore
        exact ⟨hitem.star_more hlt hstar, by simp, fun _ => hitem.seq hstar⟩

/-- Where a list ends: before an item is missing at its start, or at the end `d` of its items, or
after a delimiter that follows them. -/
inductive ListEnds (g : Grammar S V) (s : S) (delimiter : Literal) (c : Cursor) :
    Match (Parser.Listing (V s)) → Prop
  | noItems (hitem : Fails g.rule (.symbol s) c) : ListEnds g s delimiter c ⟨c, [], true⟩
  | closed {d : Cursor} {vs : List (V s)} (hne : vs ≠ [])
      (hitems : Reaches g.rule (.separated (.symbol s) (.literal delimiter.text)) c d)
      (hdelimiter : Fails g.rule (.literal delimiter.text) d) :
      ListEnds g s delimiter c ⟨d, vs, false⟩
  | opened {d e : Cursor} {vs : List (V s)} (hne : vs ≠ [])
      (hitems : Reaches g.rule (.separated (.symbol s) (.literal delimiter.text)) c d)
      (hdelimiter : Reaches g.rule (.literal delimiter.text) d e) :
      ListEnds g s delimiter c ⟨e, vs, true⟩

/-- One more item and a delimiter in front of a list. -/
theorem ListEnds.cons {s : S} {delimiter : Literal} {d : Cursor} {v : V s}
    {more : Match (Parser.Listing (V s))} (hitem : Reaches g.rule (.symbol s) c d)
    (hdelimiter : Reaches g.rule (.literal delimiter.text) d d.next) (hlt : d.next.size < d.size)
    (hmore : ListEnds g s delimiter d.next more) :
    ListEnds g s delimiter c (more.map fun l => ⟨v :: l.items, l.isOpen⟩) := by
  -- The row `(d e)*` starts at `d` with what the list after the delimiter starts with.
  have hrow : ∀ {e : Cursor},
      Reaches g.rule (.separated (.symbol s) (.literal delimiter.text)) d.next e →
      Reaches g.rule (.star (.seq (.literal delimiter.text) (.symbol s))) d e := by
    intro e hitems
    obtain ⟨f, hfirst, hrest⟩ := hitems.of_seq
    have hf := size_le_of_le hfirst.le
    exact (hdelimiter.seq hfirst).star_more (by omega) hrest
  cases hmore with
  | noItems hfails =>
    exact .opened (by simp) (hitem.seq (hdelimiter.seq_fails hfails).star) hdelimiter
  | closed hne hitems hend => exact .closed (by simp) (hitem.seq (hrow hitems)) hend
  | opened hne hitems hend => exact .opened (by simp) (hitem.seq (hrow hitems)) hend

theorem listing_recognised (hread : read.Recognised g) {s : S} {delimiter : Literal}
    {budget : Nat} {m : Match (Parser.Listing (V s))} (hbudget : c.size ≤ budget)
    (h : listing read s delimiter budget c = .ok m) : ListEnds g s delimiter c m := by
  induction budget generalizing c m with
  | zero =>
    cases h
    exact .noItems (fails_atEnd s ((atEnd_iff c).mpr (by omega)))
  | succ budget ih =>
    obtain ⟨o, ho, h⟩ := bind_eq_ok_iff.mp h
    cases o with
    | none =>
      cases h
      exact .noItems (hread.absent ho)
    | some m₁ =>
      have hitem := hread.found ho
      have hsize := size_le_of_le hitem.le
      simp only at h
      split at h
      · rename_i hbegins
        obtain ⟨more, hmore, h⟩ := bind_eq_ok_iff.mp h
        cases h
        have hsome := size_ne_zero (atEnd_eq_false_of_text ((begins_iff _ _).mp hbegins))
        have hnext := size_next m₁.rest
        exact .cons hitem (reaches_literal hbegins) (by omega) (ih (by omega) hmore)
      · rename_i hbegins
        cases h
        have hfails : Fails g.rule (.literal delimiter.text) m₁.rest :=
          fails_literal (by simpa using hbegins)
        exact .closed (by simp) (hitem.seq hfails.seq.star) hfails

/-- The last delimiter is where the flags matter: strict lists fail before it. -/
theorem delimited_found (hread : read.Recognised g) {s : S} {delimiter : Literal}
    {trailing empty : Bool} {m : Match (List (V s))}
    (h : delimited read s delimiter trailing empty c = .ok (some m)) :
    Reaches g.rule (.delimited (.symbol s) (.literal delimiter.text) trailing empty) c m.rest := by
  obtain ⟨l, hl, h⟩ := bind_eq_ok_iff.mp h
  have hends := listing_recognised hread le_rfl hl
  replace h := Except.ok.inj h
  split at h
  · rename_i haccepted
    cases h
    cases hends with
    | noItems hitem =>
      obtain rfl : empty = true := haccepted
      have hnone : Fails g.rule (.separated (.symbol s) (.literal delimiter.text)) c := hitem.seq
      cases trailing with
      | false => exact hnone.seq.choice_reaches hitem.not
      | true => exact hnone.seq.choice_reaches (reaches_empty c)
    | closed hne hitems hend =>
      cases trailing with
      | false =>
        have hlist := hitems.seq hend.not
        cases empty with
        | false => exact hlist
        | true => exact hlist.choice
      | true =>
        have hlist := hitems.seq hend.optional
        cases empty with
        | false => exact hlist
        | true => exact hlist.choice
    | opened hne hitems hend =>
      obtain rfl : trailing = true := by simpa [Parser.Listing.accepted, hne] using haccepted
      have hlist := hitems.seq hend.optional
      cases empty with
      | false => exact hlist
      | true => exact hlist.choice
  · cases h

theorem delimited_absent (hread : read.Recognised g) {s : S} {delimiter : Literal}
    {trailing empty : Bool} (h : delimited read s delimiter trailing empty c = .ok none) :
    Fails g.rule (.delimited (.symbol s) (.literal delimiter.text) trailing empty) c := by
  obtain ⟨l, hl, h⟩ := bind_eq_ok_iff.mp h
  have hends := listing_recognised hread le_rfl hl
  replace h := Except.ok.inj h
  split at h
  · cases h
  · rename_i hrefused
    cases hends with
    | noItems hitem =>
      obtain rfl : empty = false := by simpa [Parser.Listing.accepted] using hrefused
      cases trailing with
      | false => exact hitem.seq.seq
      | true => exact hitem.seq.seq
    | closed hne hitems hend => simp [Parser.Listing.accepted, hne] at hrefused
    | opened hne hitems hend =>
      obtain rfl : trailing = false := by simpa [Parser.Listing.accepted, hne] using hrefused
      have hlist := hitems.seq_fails hend.not
      obtain ⟨d, hitem, -⟩ := hitems.of_seq
      cases empty with
      | false => exact hlist
      | true => exact hlist.choice_fails hitem.not

theorem keyword_found {literal : Literal} {m : Match String}
    (h : Parser.keyword literal c = some m) : Reaches g.rule (.literal literal.text) c m.rest := by
  unfold Parser.keyword at h
  split at h
  · rename_i hbegins
    cases h
    exact reaches_literal hbegins
  · cases h

theorem keyword_absent {literal : Literal} (h : Parser.keyword literal c = none) :
    Fails g.rule (.literal literal.text) c := by
  unfold Parser.keyword at h
  split at h
  · cases h
  · rename_i hbegins
    exact fails_literal (by simpa using hbegins)

theorem component_found (hread : read.Recognised g) {p : Policy S}
    {m : Match (p.slotType.Value V)} (h : component read c p = .ok (some m)) :
    Reaches g.rule p.peg c m.rest := by
  match p with
  | .keyword literal => exact keyword_found (Except.ok.inj h)
  | .element s .required => exact hread.found h
  | .element s .optional =>
    obtain ⟨o, ho, h⟩ := bind_eq_ok_iff.mp h
    cases o with
    | none =>
      cases h
      exact (hread.absent ho).optional
    | some m' =>
      cases h
      exact (hread.found ho).optional
  | .element s .oneOrMore =>
    obtain ⟨m', hm', h⟩ := bind_eq_ok_iff.mp h
    obtain ⟨-, -, hplus⟩ := items_recognised hread le_rfl hm'
    replace h := Except.ok.inj h
    split at h
    · cases h
    · rename_i hleast
      cases h
      exact hplus (fun hnil => hleast (by simp [hnil]))
  | .element s .zeroOrMore =>
    obtain ⟨m', hm', h⟩ := bind_eq_ok_iff.mp h
    obtain ⟨hstar, -, -⟩ := items_recognised hread le_rfl hm'
    simp only [Nat.not_lt_zero, if_false] at h
    cases h
    exact hstar
  | .element s (.delimited delimiter trailing empty) => exact delimited_found hread h

theorem component_absent (hread : read.Recognised g) {p : Policy S}
    (h : component read c p = .ok none) : Fails g.rule p.peg c := by
  match p with
  | .keyword literal => exact keyword_absent (Except.ok.inj h)
  | .element s .required => exact hread.absent h
  | .element s .optional =>
    obtain ⟨o, ho, h⟩ := bind_eq_ok_iff.mp h
    cases o <;> cases h
  | .element s .oneOrMore =>
    obtain ⟨m', hm', h⟩ := bind_eq_ok_iff.mp h
    obtain ⟨-, hitem, -⟩ := items_recognised hread le_rfl hm'
    replace h := Except.ok.inj h
    split at h
    · rename_i hleast
      have hnil : m'.value = [] := by
        rw [← List.length_eq_zero_iff]
        omega
      exact (hitem hnil).seq
    · cases h
  | .element s .zeroOrMore =>
    obtain ⟨m', hm', h⟩ := bind_eq_ok_iff.mp h
    simp only [Nat.not_lt_zero, if_false] at h
    cases h
  | .element s (.delimited delimiter trailing empty) => exact delimited_absent hread h

theorem components_found (hread : read.Recognised g) {ds : List (Component S)}
    {fields : Fields V} {m : Match (Fields V)}
    (h : components read ds c fields = .ok (some m)) :
    Reaches g.rule (ds.foldr (fun d e => .seq d.policy.peg e) .empty) c m.rest := by
  induction ds generalizing c fields with
  | nil =>
    cases h
    exact reaches_empty c
  | cons d rest ih =>
    obtain ⟨o, ho, h⟩ := bind_eq_ok_iff.mp h
    cases o with
    | some m' => exact (component_found hread ho).seq (ih h)
    | none =>
      cases hlabel : d.label with
      | some label =>
        simp only [hlabel] at h
        cases h
      | none =>
        simp only [hlabel] at h
        cases h

theorem components_absent (hread : read.Recognised g) {ds : List (Component S)}
    {fields : Fields V} (h : components read ds c fields = .ok none) :
    Fails g.rule (ds.foldr (fun d e => .seq d.policy.peg e) .empty) c := by
  induction ds generalizing c fields with
  | nil => cases h
  | cons d rest ih =>
    obtain ⟨o, ho, h⟩ := bind_eq_ok_iff.mp h
    cases o with
    | some m' => exact (component_found hread ho).seq_fails (ih h)
    | none => exact (component_absent hread ho).seq

end Reader

namespace Grammar

variable {read : Reader V} {c : Cursor}

theorem readShape_found (hread : read.Recognised g) {s : S} {shape : Shape V (V s)}
    {m : Match (V s)} (h : g.readShape read s c shape.inOrder = .ok (some m)) :
    Reaches g.rule shape.peg c m.rest := by
  match shape with
  | .terminal matcher => exact Reader.terminal_found (Except.ok.inj h)
  | .alternation alternatives => exact Reader.alternation_found hread h
  | .sequence seq =>
    obtain ⟨o, ho, h⟩ := bind_eq_ok_iff.mp h
    cases o with
    | none => cases h
    | some m' =>
      obtain ⟨hrest, -⟩ := Reader.assemble_sound h
      rw [hrest]
      exact Reader.components_found hread ho

theorem readShape_absent (hread : read.Recognised g) {s : S} {shape : Shape V (V s)}
    (h : g.readShape read s c shape.inOrder = .ok none) : Fails g.rule shape.peg c := by
  match shape with
  | .terminal matcher => exact Reader.terminal_absent (Except.ok.inj h)
  | .alternation alternatives => exact Reader.alternation_absent hread h
  | .sequence seq =>
    obtain ⟨o, ho, h⟩ := bind_eq_ok_iff.mp h
    cases o with
    | none => exact Reader.components_absent hread ho
    | some m' =>
      change Reader.assemble seq.assemble m' = .ok none at h
      unfold Reader.assemble at h
      split at h
      · cases h
      · cases h

theorem reaches_guard (h : c.atEnd = false) : Reaches g.rule (.and .any) c c := by
  have hany : Reaches g.rule .any c c.next := reaches_token h rfl
  exact hany.and

theorem readSymbol_found (hread : read.Recognised g) (hend : c.atEnd = false) {s : S}
    {m : Match (V s)} (h : g.readSymbol read s c = .ok (some m)) :
    Reaches g.rule (.symbol s) c m.rest := by
  unfold readSymbol at h
  split at h
  · cases h
  · rename_i shape hchecked
    obtain ⟨-, rfl⟩ := checked_eq_ok_iff.mp hchecked
    have hrule := (reaches_guard hend).seq (readShape_found hread h)
    exact ⟨hrule.le, .symbol hrule.recognises⟩

theorem readSymbol_absent (hread : read.Recognised g) (hend : c.atEnd = false) {s : S}
    (h : g.readSymbol read s c = .ok none) : Fails g.rule (.symbol s) c := by
  unfold readSymbol at h
  split at h
  · cases h
  · rename_i shape hchecked
    obtain ⟨-, rfl⟩ := checked_eq_ok_iff.mp hchecked
    exact .symbol ((reaches_guard hend).seq_fails (readShape_absent hread h))

theorem read_recognised (g : Grammar S V) (depth : Nat) : (g.read depth).Recognised g := by
  induction depth with
  | zero =>
    constructor
    · intro s c m h
      simp only [read] at h
      split at h <;> cases h
    · intro s c h
      simp only [read] at h
      split at h
      · rename_i hend
        exact Reader.fails_atEnd s hend
      · cases h
  | succ depth ih =>
    constructor
    · intro s c m h
      simp only [read] at h
      split at h
      · cases h
      · rename_i hend
        exact readSymbol_found ih (by simpa using hend) h
    · intro s c h
      simp only [read] at h
      split at h
      · rename_i hend
        exact Reader.fails_atEnd s hend
      · rename_i hend
        exact readSymbol_absent ih (by simpa using hend) h

theorem meaning_recognised (g : Grammar S V) : g.meaning.Recognised g where
  found h := (read_recognised g _).found h
  absent h := (read_recognised g _).absent h

/-- A grammar none of whose symbols can fail: all declarations are valid, no symbol leads back to
itself by left calls, nothing is labeled, and no assembler refuses fields that can be read. -/
structure Plain (g : Grammar S V) : Prop where
  valid : ∀ s, g.isValid s = true
  leftRecursionFree : g.LeftRecursionFree
  unlabeled : ∀ s seq, g.shape s = .sequence seq → ∀ d ∈ seq.components, d.label = none
  assembles : ∀ s seq fields words, g.shape s = .sequence seq →
    g.DerivesFields (Component.byPriority seq.components) (g.noFields s) fields words →
    ∃ v left, seq.assemble fields = .ok v left

theorem Plain.not_raises (hg : g.Plain) {s : S} {error : Error} :
    ¬ g.Raises read s c error := by
  intro h
  cases h with
  | declaration hflaw =>
    have hvalid := hg.valid s
    simp [isValid, hflaw] at hvalid
  | label hshape hd hlabel _ _ =>
    have hmem := (Component.byPriority_perm _).mem_iff.mp hd
    rw [hg.unlabeled s _ hshape _ hmem] at hlabel
    cases hlabel
  | assembler hshape hfields herror =>
    obtain ⟨v, left, hv⟩ := hg.assembles s _ _ _ hshape hfields
    rw [hv] at herror
    cases herror

theorem Plain.exists_meaning (hg : g.Plain) (s : S) (c : Cursor) :
    ∃ o, g.meaning s c = .ok o := by
  cases h : g.meaning s c with
  | ok o => exact ⟨o, rfl⟩
  | error halt =>
    obtain ⟨error, t, d, -, -, hraises⟩ :=
      exists_raises_of_meaning_error hg.leftRecursionFree h
    exact absurd hraises hg.not_raises

/-- A symbol is absent exactly where its expression fails. -/
theorem Plain.meaning_eq_none_iff (hg : g.Plain) (s : S) (c : Cursor) :
    g.meaning s c = .ok none ↔ Peg.Recognises g.rule (.symbol s) c.remaining none := by
  constructor
  · intro h
    exact (meaning_recognised g).absent h
  · intro hfails
    obtain ⟨o, ho⟩ := hg.exists_meaning s c
    cases o with
    | none => exact ho
    | some m =>
      have hreaches := (meaning_recognised g).found ho
      cases hfails.unique hreaches.recognises

/-- A symbol takes so many tokens exactly where its expression does. -/
theorem Plain.exists_match_iff (hg : g.Plain) (s : S) (c : Cursor) (k : Nat) :
    (k ≤ c.size ∧ ∃ v, g.meaning s c = .ok (some ⟨c.drop k, v⟩)) ↔
      Peg.Recognises g.rule (.symbol s) c.remaining (some k) := by
  constructor
  · rintro ⟨hk, v, hv⟩
    have htaken := ((meaning_recognised g).found hv).recognises
    have hcount : c.size - (c.drop k).size = k := by
      rw [size_drop]
      omega
    rwa [hcount] at htaken
  · intro hk
    obtain ⟨o, ho⟩ := hg.exists_meaning s c
    cases o with
    | none => cases hk.unique ((meaning_recognised g).absent ho)
    | some m =>
      have hreaches := (meaning_recognised g).found ho
      have hrest := eq_drop_of_le hreaches.le
      have hcount : k = c.size - m.rest.size :=
        Option.some.inj (hk.unique hreaches.recognises)
      refine ⟨by omega, m.value, ?_⟩
      rw [hcount, ← hrest]
      exact ho

end Grammar

namespace Engine

variable [DecidableEq S]

/-- An engine matches and takes so many tokens exactly if the expression of the symbol does, and
finds nothing exactly if that fails. -/
theorem parseOne_iff_recognises (hg : g.Plain) (memoize : Bool) (s : S) (c : Cursor) :
    (∀ k, (k ≤ c.size ∧
        ∃ v, ((fresh g memoize).parseOne s c).answer = .ok (some ⟨c.drop k, v⟩)) ↔
      Peg.Recognises g.rule (.symbol s) c.remaining (some k)) ∧
    (((fresh g memoize).parseOne s c).answer = .ok none ↔
      Peg.Recognises g.rule (.symbol s) c.remaining none) := by
  rw [(fresh_reachable g memoize).answer_parseOne]
  exact ⟨hg.exists_match_iff s c, hg.meaning_eq_none_iff s c⟩

end Engine

namespace Schema

theorem gaps_plain : (grammar gaps).Plain where
  valid := by decide
  leftRecursionFree := gaps_leftRecursionFree
  unlabeled s seq hshape := by
    fin_cases s <;> cases hshape <;> decide
  assembles s seq fields words hshape _ := by
    fin_cases s <;> cases hshape <;> exact ⟨_, _, rfl⟩

/-- All of the input is a list; its last delimiter follows a number that is left out. -/
theorem gaps_recognised :
    Peg.Recognises (grammar gaps).rule (.symbol 3) gapped.start.remaining (some 4) :=
  ((Engine.parseOne_iff_recognises gaps_plain true 3 gapped.start).1 4).mp ⟨by decide, _, rfl⟩

end Schema

end Packrat
