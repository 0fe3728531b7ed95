import Packrat.Proofs.History

/-!
The flags of delimited lists. Whatever they are, a list is gone through in the same way: items are
called for until one is missing or no delimiter follows, and the flags only decide afterwards
whether what was found is accepted. So a list that is accepted under some flags is accepted, with
the same items and the same rest, under flags that allow more.
-/
namespace Packrat

variable {S : Type} {V : S → Type} {g : Grammar S V}

open Cursor

/-- The items from a cursor on, as `read` finds them, with the tokens that they and the delimiters
after them take up, the number of delimiters, and the rest. -/
inductive Listed (read : Reader V) (s : S) (delimiter : Literal) :
    Cursor → List (V s) → List Token → Nat → Cursor → Prop
  | missing {c : Cursor} (hmissing : read s c = .ok none) : Listed read s delimiter c [] [] 0 c
  | last {c : Cursor} {m : Match (V s)} {tokens : List Token} (hitem : read s c = .ok (some m))
      (htokens : c.remaining = tokens ++ m.rest.remaining)
      (hend : m.rest.begins delimiter.text = false) :
      Listed read s delimiter c [m.value] tokens 0 m.rest
  | more {c d : Cursor} {m : Match (V s)} {items : List (V s)} {tokens later : List Token}
      {delimiters : Nat} (hitem : read s c = .ok (some m))
      (htokens : c.remaining = tokens ++ m.rest.remaining)
      (hdelimiter : m.rest.begins delimiter.text = true)
      (hmore : Listed read s delimiter m.rest.next items later delimiters d) :
      Listed read s delimiter c (m.value :: items) (tokens ++ m.rest.first :: later)
        (delimiters + 1) d

namespace Listed

variable {read : Reader V} {s : S} {delimiter : Literal} {c d : Cursor} {items : List (V s)}
  {tokens : List Token} {delimiters : Nat}

theorem remaining_eq (h : Listed read s delimiter c items tokens delimiters d) :
    c.remaining = tokens ++ d.remaining := by
  induction h with
  | missing => rfl
  | last _ htokens _ => exact htokens
  | more _ htokens hdelimiter _ ih =>
    have hleft := atEnd_eq_false_of_text ((begins_iff _ _).mp hdelimiter)
    rw [htokens, remaining_eq_cons hleft, ih, List.append_assoc, List.cons_append]

/-- There is a delimiter after each item, except perhaps the last. -/
theorem delimiters_eq (h : Listed read s delimiter c items tokens delimiters d) :
    delimiters = items.length ∨ delimiters + 1 = items.length := by
  induction h with
  | missing => exact Or.inl rfl
  | last => exact Or.inr rfl
  | more _ _ _ _ ih => simpa using ih

theorem rest_eq_of_nil (h : Listed read s delimiter c [] tokens delimiters d) : d = c := by
  cases h
  rfl

theorem not_begins (h : Listed read s delimiter c items tokens delimiters d)
    (hclosed : delimiters < items.length) : d.begins delimiter.text = false := by
  induction h with
  | missing => cases hclosed
  | last _ _ hend => exact hend
  | more _ _ _ _ ih => exact ih (Nat.lt_of_succ_lt_succ hclosed)

end Listed

namespace Reader

variable {read : Reader V} {s : S} {delimiter : Literal} {c : Cursor}

/-- A list is left open just if there is a delimiter after each of its items. -/
theorem listing_listed (hread : read.Sound g) (hend : ∀ d, d.atEnd = true → read s d = .ok none)
    {budget : Nat} (hbudget : c.size ≤ budget) {m : Match (Parser.Listing (V s))}
    (h : listing read s delimiter budget c = .ok m) :
    ∃ tokens delimiters,
      Listed read s delimiter c m.value.items tokens delimiters m.rest ∧
        m.value.isOpen = decide (delimiters = m.value.items.length) := by
  induction budget generalizing c m with
  | zero =>
    -- Each further item costs a delimiter, so the budget is not used up before the input is.
    cases h
    exact ⟨[], 0, .missing (hend c ((atEnd_iff c).mpr (by omega))), rfl⟩
  | succ budget ih =>
    obtain ⟨o, ho, h⟩ := bind_eq_ok_iff.mp h
    cases o with
    | none =>
      cases h
      exact ⟨[], 0, .missing ho, rfl⟩
    | some item =>
      have hle : c ≤ item.rest := hread.le ho
      have hsize := size_le_of_le hle
      obtain ⟨tokens, htokens⟩ := exists_remaining_eq_append hle
      simp only at h
      split at h
      · rename_i hbegins
        obtain ⟨more, hmore, h⟩ := bind_eq_ok_iff.mp h
        cases h
        have hleft := size_ne_zero (atEnd_eq_false_of_text ((begins_iff _ _).mp hbegins))
        have hnext := size_next item.rest
        obtain ⟨later, delimiters, hlisted, hopen⟩ := ih (by omega) hmore
        refine ⟨_, _, .more ho htokens hbegins hlisted, ?_⟩
        simp [hopen]
      · rename_i hbegins
        cases h
        exact ⟨tokens, 0, .last ho htokens (by simpa using hbegins), rfl⟩

end Reader

namespace Parser.Listing

variable {α : Type} {l : Listing α} {trailing trailing' empty empty' : Bool}

theorem accepted_eq_false_iff :
    l.accepted trailing empty = false ↔
      (l.items = [] ∧ empty = false) ∨
        (l.items ≠ [] ∧ l.isOpen = true ∧ trailing = false) := by
  unfold accepted
  cases l.items <;> simp

theorem accepted_of_allowed (l : Listing α) : l.accepted true true = true := by
  unfold accepted
  cases l.items <;> simp

/-- What is accepted is accepted where more is allowed. -/
theorem accepted_mono (htrailing : trailing = true → trailing' = true)
    (hempty : empty = true → empty' = true) (h : l.accepted trailing empty = true) :
    l.accepted trailing' empty' = true := by
  unfold accepted at h ⊢
  cases hitems : l.items with
  | nil =>
    rw [hitems] at h
    exact hempty h
  | cons v vs =>
    simp only [hitems, List.isEmpty_cons, Bool.false_eq_true, if_false, Bool.or_eq_true] at h ⊢
    exact h.imp_right htrailing

end Parser.Listing

namespace Engine

open Packrat.Parser

variable [DecidableEq S]

/-- What comes of a delimited component with these flags, with calls nested at most `depth`
deep. -/
def listOutcome (e : Engine g) (depth : Nat) (s : S) (delimiter : Literal) (c : Cursor)
    (trailing empty : Bool) : Except Halt (Outcome (List (V s))) :=
  ((component (call depth) c (.element s (.delimited delimiter trailing empty))).runOn e).answer

/-- The flags come in only after the list has been gone through. -/
theorem listOutcome_eq (e : Engine g) (depth : Nat) (s : S) (delimiter : Literal) (c : Cursor)
    (trailing empty : Bool) :
    e.listOutcome depth s delimiter c trailing empty =
      (listing (call depth) s delimiter c.size c).answer { engine := e } >>= fun m =>
        .ok (if m.value.accepted trailing empty then some (m.map Listing.items) else none) := by
  change ((delimited (call depth) s delimiter trailing empty c).runOn e).answer = _
  rw [answer_runOn, delimited, answer_bind]
  refine congrArg (_ >>= ·) (funext fun m => ?_)
  cases m.value.accepted trailing empty <;> rfl

/-- What a list holds is what the engine finds where it is asked for the items one by one. -/
theorem Faithful.listing_listed {e : Engine g} (he : e.Faithful) {depth : Nat} {s : S}
    {delimiter : Literal} {c : Cursor} {m : Match (Listing (V s))}
    (h : (listing (call depth) s delimiter c.size c).answer { engine := e } = .ok m) :
    ∃ tokens delimiters,
      Listed (fun t d => (e.parseOne t d).answer) s delimiter c m.value.items tokens delimiters
        m.rest ∧
      m.value.isOpen = decide (delimiters = m.value.items.length) := by
  have hmeaning : (fun t d => (e.parseOne t d).answer) = g.meaning :=
    funext fun t => funext fun d => he.answer_serve (.one t d)
  have hwithin := within_of_scripted (g := g) (c := c) (fun _ hbase =>
    listing_scripted hbase (fun _ hd => hd) (s := s) delimiter c.size) depth
  obtain ⟨-, hanswer, -⟩ := hwithin { engine := e } he
  rw [h] at hanswer
  rw [hmeaning]
  exact Reader.listing_listed (Grammar.meaning_sound g) (fun _ => Grammar.meaning_atEnd s) le_rfl
    hanswer.eq_ok

/-- Either the list fails, or it is gone through to its end and then put to the flags. -/
theorem Faithful.listOutcome_cases {e : Engine g} (he : e.Faithful) (depth : Nat) (s : S)
    (delimiter : Literal) (c : Cursor) :
    (∃ halt, ∀ trailing empty, e.listOutcome depth s delimiter c trailing empty = .error halt) ∨
    ∃ (m : Match (Listing (V s))) (tokens : List Token) (delimiters : Nat),
      (∀ trailing empty, e.listOutcome depth s delimiter c trailing empty =
        .ok (if m.value.accepted trailing empty then some (m.map Listing.items) else none)) ∧
      Listed (fun t d => (e.parseOne t d).answer) s delimiter c m.value.items tokens delimiters
        m.rest ∧
      m.value.isOpen = decide (delimiters = m.value.items.length) := by
  have houtcome := e.listOutcome_eq depth s delimiter c
  cases hanswer : (listing (call depth) s delimiter c.size c).answer { engine := e } with
  | error halt =>
    rw [hanswer] at houtcome
    exact Or.inl ⟨halt, houtcome⟩
  | ok m =>
    rw [hanswer] at houtcome
    obtain ⟨tokens, delimiters, hlisted, hopen⟩ := he.listing_listed hanswer
    exact Or.inr ⟨m, tokens, delimiters, houtcome, hlisted, hopen⟩

/-- A list under any flags is the list under both, or absent if it is empty or ends in a delimiter
and a flag forbids it. It fails just if the list under both flags does, with the same error. -/
theorem listOutcome_filters {e : Engine g} (he : e.Faithful) (depth : Nat) (s : S)
    (delimiter : Literal) (c : Cursor) :
    let outcome := e.listOutcome depth s delimiter c
    outcome true true ≠ .ok none ∧
    (∀ halt, outcome true true = .error halt →
      ∀ trailing empty, outcome trailing empty = .error halt) ∧
    (∀ rest items, outcome true true = .ok (some ⟨rest, items⟩) →
      ∃ tokens delimiters,
        Listed (fun t d => (e.parseOne t d).answer) s delimiter c items tokens delimiters rest ∧
        c.remaining = tokens ++ rest.remaining ∧
        (delimiters = items.length ∨ delimiters + 1 = items.length) ∧
        (delimiters < items.length → rest.begins delimiter.text = false) ∧
        (items = [] → rest = c) ∧
        ∀ trailing empty,
          let forbidden := (items = [] ∧ empty = false) ∨
            (items ≠ [] ∧ delimiters = items.length ∧ trailing = false)
          (forbidden → outcome trailing empty = .ok none) ∧
            (¬ forbidden → outcome trailing empty = .ok (some ⟨rest, items⟩))) ∧
    ∀ trailing trailing' empty empty' m, (trailing = true → trailing' = true) →
      (empty = true → empty' = true) → outcome trailing empty = .ok (some m) →
      outcome trailing' empty' = .ok (some m) := by
  intro outcome
  rcases he.listOutcome_cases depth s delimiter c with
    ⟨halt, herror⟩ | ⟨m, tokens, delimiters, hfiltered, hlisted, hopen⟩
  · simp [outcome, herror]
  · replace hfiltered : ∀ trailing empty, outcome trailing empty =
      .ok (if m.value.accepted trailing empty then some (m.map Listing.items) else none) := hfiltered
    have hallowed : outcome true true = .ok (some ⟨m.rest, m.value.items⟩) := by
      rw [hfiltered, if_pos m.value.accepted_of_allowed]
      rfl
    refine ⟨by simp [hallowed], by simp [hallowed], fun rest items hfound => ?_, ?_⟩
    · rw [hallowed] at hfound
      cases hfound
      refine ⟨tokens, delimiters, hlisted, hlisted.remaining_eq, hlisted.delimiters_eq,
        hlisted.not_begins, fun hnil => ?_, fun trailing empty => ?_⟩
      · rw [hnil] at hlisted
        exact hlisted.rest_eq_of_nil
      · intro forbidden
        have hforbidden : forbidden ↔ m.value.accepted trailing empty = false := by
          rw [Listing.accepted_eq_false_iff, hopen, decide_eq_true_iff]
        rw [hforbidden, hfiltered]
        constructor
        · intro hrejected
          rw [hrejected]
          rfl
        · intro haccepted
          rw [if_pos (by simpa using haccepted)]
          rfl
    · intro trailing trailing' empty empty' found htrailing hempty hfound
      rw [hfiltered] at hfound ⊢
      split at hfound
      · rename_i haccepted
        rwa [if_pos (Listing.accepted_mono htrailing hempty haccepted)]
      · cases hfound

end Engine

namespace Sample

/-- Two numbers with two delimiters make a list only where it may end in one. -/
theorem numbers_listed :
    let outcome := (Engine.fresh grammar true).listOutcome 1 .num ⟨";"⟩ numbers.start
    let items : List Number := [⟨1, by decide⟩, ⟨2, by decide⟩]
    outcome true true = .ok (some ⟨numbers.start.drop 4, items⟩) ∧
    outcome true false = .ok (some ⟨numbers.start.drop 4, items⟩) ∧
    outcome false true = .ok none ∧
    ∃ tokens, numbers.start.remaining = tokens ++ (numbers.start.drop 4).remaining ∧
      Listed (fun t d => ((Engine.fresh grammar true).parseOne t d).answer) .num ⟨";"⟩
        numbers.start items tokens 2 (numbers.start.drop 4) := by
  intro outcome items
  have hfound : outcome true true = .ok (some ⟨numbers.start.drop 4, items⟩) := rfl
  have habsent : outcome false true = .ok none := rfl
  obtain ⟨-, -, hlists, -⟩ := Engine.listOutcome_filters (Engine.fresh_faithful grammar true) 1 .num
    ⟨";"⟩ numbers.start
  obtain ⟨tokens, delimiters, hlisted, htokens, -, -, -, hfilters⟩ := hlists _ _ hfound
  have htwo : delimiters = 2 := by
    by_contra hclosed
    have hkept := (hfilters false true).2 (by simp [items, hclosed])
    cases habsent.symm.trans hkept
  subst htwo
  exact ⟨hfound, (hfilters true false).2 (by simp [items]), habsent, tokens, htokens, hlisted⟩

end Sample

end Packrat
