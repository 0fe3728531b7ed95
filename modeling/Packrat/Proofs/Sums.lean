import Packrat.Proofs.Spelling
import Packrat.Proofs.Termination

/-!
The grammar of sums reads exactly the sums. What it derives are spellings, by induction on their
length. Conversely a spelling is read to its end: a row of tails stops only where no sign follows,
which is so after an expression that is closed or complete, and labels speak up only where a
spelling would have gone on differently.
-/
namespace Packrat.Sample

open Cursor

section Derivations

variable {ws : List String}

theorem derives_tail {tail : Tail} (h : grammar.Derives .tail tail ws) :
    ∃ us t, ws = plus :: us ∧ tail = ⟨plus, t⟩ ∧ grammar.Derives .term t us := by
  obtain ⟨fields, left, hfields, hv⟩ := h.of_sequence rfl
  cases hfields with
  | cons hop hrest =>
    cases hrest with
    | cons hterm hrest =>
      cases hop
      cases hterm with
      | required hterm =>
        cases hrest
        cases hv
        exact ⟨_, _, by simp [plus], rfl, hterm⟩

theorem derives_paren {p : Paren} (h : grammar.Derives .paren p ws) :
    ∃ us e, ws = "(" :: us ++ [")"] ∧ p = ⟨e⟩ ∧ grammar.Derives .expr e us := by
  obtain ⟨fields, left, hfields, hv⟩ := h.of_sequence rfl
  cases hfields with
  | cons hopen hrest =>
    cases hrest with
    | cons hinner hrest =>
      cases hrest with
      | cons hclose hrest =>
        cases hopen
        cases hclose
        cases hinner with
        | required hinner =>
          cases hrest
          cases hv
          exact ⟨_, _, by simp, rfl, hinner⟩

theorem derives_expr {e : Expr} (h : grammar.Derives .expr e ws) :
    ∃ us wss t ts, ws = us ++ wss.flatten ∧ e = ⟨t, ts⟩ ∧ grammar.Derives .term t us ∧
      grammar.DerivesEach .tail ts wss := by
  obtain ⟨fields, left, hfields, hv⟩ := h.of_sequence rfl
  cases hfields with
  | cons hfirst hrest =>
    cases hrest with
    | cons htails hrest =>
      cases hfirst with
      | required hfirst =>
        cases htails with
        | zeroOrMore htails =>
          cases hrest
          cases hv
          exact ⟨_, _, _, _, by simp, rfl, hfirst, htails⟩

theorem derives_term {t : Term} (h : grammar.Derives .term t ws) :
    (∃ n text, t = .number n ∧ ws = [text] ∧ n.Spelled text) ∨
    (∃ x, t = .identifier x ∧ ws = [x.text]) ∨
    ∃ p, t = .paren p ∧ grammar.Derives .paren p ws := by
  obtain ⟨a, ha, u, hu, rfl⟩ := h.of_alternation rfl
  simp only [List.mem_cons, List.not_mem_nil, or_false] at ha
  rcases ha with rfl | rfl | rfl
  · obtain ⟨text, rfl, hmatch⟩ := hu.of_terminal rfl
    exact Or.inl ⟨u, text, rfl, rfl, Number.ofText?_eq_some_iff.mp hmatch⟩
  · obtain ⟨text, rfl, hmatch⟩ := hu.of_terminal rfl
    exact Or.inr (Or.inl ⟨u, rfl, by rw [Identifier.ofText?_eq_some_iff.mp hmatch]⟩)
  · exact Or.inr (Or.inr ⟨u, rfl, hu⟩)

end Derivations

mutual

theorem term_spelled {t : Term} {ws : List String} (h : grammar.Derives .term t ws) :
    t.Spelled ws := by
  rcases derives_term h with ⟨n, text, rfl, rfl, hn⟩ | ⟨x, rfl, rfl⟩ | ⟨p, rfl, hparen⟩
  · exact .number hn
  · exact .identifier x.spelled_text
  · obtain ⟨us, e, hws, rfl, hexpr⟩ := derives_paren hparen
    have hlength : ws.length = us.length + 2 := by simp [hws]
    rw [hws]
    exact .paren (expr_spelled hexpr)
termination_by 3 * ws.length + 1

theorem tails_spelled {ts : List (Value .tail)} {wss : List (List String)}
    (h : grammar.DerivesEach .tail ts wss) : TailsSpelled ts wss.flatten := by
  cases h with
  | nil => exact .nil
  | @cons _ tail ts ws wss htail hrest =>
    obtain ⟨us, t, rfl, rfl, hterm⟩ := derives_tail htail
    have hlength : ((plus :: us) :: wss).flatten.length = us.length + 1 + wss.flatten.length := by
      rw [List.flatten_cons, List.length_append, List.length_cons]
    exact .cons (term_spelled hterm) (tails_spelled hrest)
termination_by 3 * wss.flatten.length

/-- A derivation of a sum spells it. -/
theorem expr_spelled {e : Expr} {ws : List String} (h : grammar.Derives .expr e ws) :
    e.Spelled ws := by
  obtain ⟨us, wss, t, ts, hws, rfl, hfirst, hrest⟩ := derives_expr h
  have hlength : ws.length = us.length + wss.flatten.length := by simp [hws]
  rw [hws]
  exact .sum (term_spelled hfirst) (tails_spelled hrest)
termination_by 3 * ws.length + 2

end

section Readings

variable {c d u : Cursor}

theorem meaning_number {text : String} (h : c.first.text = some text) :
    grammar.meaning .num c = .ok ((Number.ofText? text).map fun n => ⟨c.next, n⟩) := by
  rw [Grammar.meaning_eq Symbol.num (atEnd_eq_false_of_text h)]
  change Except.ok (Reader.terminal Number.ofText? c) = _
  simp [Reader.terminal, h]

theorem meaning_identifier {text : String} (h : c.first.text = some text) :
    grammar.meaning .ident c = .ok ((Identifier.ofText? text).map fun x => ⟨c.next, x⟩) := by
  rw [Grammar.meaning_eq Symbol.ident (atEnd_eq_false_of_text h)]
  change Except.ok (Reader.terminal Identifier.ofText? c) = _
  simp [Reader.terminal, h]

theorem meaning_paren {e : Expr} (hopen : c.begins "(" = true)
    (hinner : grammar.meaning .expr c.next = .ok (some ⟨d, e⟩)) (hclose : d.begins ")" = true) :
    grammar.meaning .paren c = .ok (some ⟨d.next, ⟨e⟩⟩) := by
  have hend := atEnd_eq_false_of_text ((begins_iff _ _).mp hopen)
  rw [Grammar.meaning_eq Symbol.paren hend]
  change grammar.readShape grammar.meaning .paren c parenShape = _
  simp only [Grammar.readShape, parenShape, Reader.components, Reader.component,
    Component.keyword, Component.required, Component.element, Component.labeled, Parser.keyword,
    hopen, hclose, if_true, hinner, Except.bind, bind]
  rfl

theorem meaning_tail {t : Term} (hsign : c.begins plus = true)
    (hterm : grammar.meaning .term c.next = .ok (some ⟨d, t⟩)) :
    grammar.meaning .tail c = .ok (some ⟨d, ⟨plus, t⟩⟩) := by
  have hend := atEnd_eq_false_of_text ((begins_iff _ _).mp hsign)
  rw [Grammar.meaning_eq Symbol.tail hend]
  change grammar.readShape grammar.meaning .tail c tailShape = _
  simp only [Grammar.readShape, tailShape, Reader.components, Reader.component,
    Component.keyword, Component.required, Component.element, Component.labeled, Parser.keyword,
    hsign, if_true, hterm, Except.bind, bind]
  rfl

/-- Without its sign a tail is absent, which is no error. -/
theorem meaning_tail_absent (hsign : c.begins plus = false) :
    grammar.meaning .tail c = .ok none := by
  cases hend : c.atEnd with
  | true => exact Grammar.meaning_atEnd _ hend
  | false =>
    rw [Grammar.meaning_eq Symbol.tail hend]
    change grammar.readShape grammar.meaning .tail c tailShape = _
    simp only [Grammar.readShape, tailShape, Reader.components, Reader.component,
      Component.keyword, Parser.keyword, hsign, Except.bind, bind]
    rfl

theorem meaning_expr {t : Term} {ts : List Tail}
    (hterm : grammar.meaning .term c = .ok (some ⟨d, t⟩))
    (htails : Reader.items grammar.meaning .tail d.size d = .ok ⟨u, ts⟩) :
    grammar.meaning .expr c = .ok (some ⟨u, ⟨t, ts⟩⟩) := by
  have hend : c.atEnd = false := by
    by_contra hend
    rw [Grammar.meaning_atEnd Symbol.term (by simpa using hend)] at hterm
    cases hterm
  rw [Grammar.meaning_eq Symbol.expr hend]
  change grammar.readShape grammar.meaning .expr c exprShape = _
  simp only [Grammar.readShape, exprShape, Reader.components, Reader.component,
    Reader.repetition, Component.zeroOrMore, Component.required, Component.element, hterm, htails,
    Except.bind, bind]
  rfl

theorem meaning_term {text : String} (h : c.first.text = some text) :
    grammar.meaning .term c =
      match Number.ofText? text, Identifier.ofText? text with
      | some n, _ => .ok (some ⟨c.next, .number n⟩)
      | none, some x => .ok (some ⟨c.next, .identifier x⟩)
      | none, none => (grammar.meaning .paren c).map (Option.map (Match.map Term.paren)) := by
  rw [Grammar.meaning_eq Symbol.term (atEnd_eq_false_of_text h)]
  change grammar.readShape grammar.meaning .term c termShape = _
  simp only [Grammar.readShape, termShape, Reader.alternation, meaning_number h,
    meaning_identifier h]
  cases Number.ofText? text with
  | some n => rfl
  | none =>
    cases Identifier.ofText? text with
    | some x => rfl
    | none =>
      cases grammar.meaning .paren c with
      | error halt => rfl
      | ok o => cases o <;> rfl

/-- Where no sign follows, a row of tails is over. -/
theorem items_tail_nil (hsign : c.begins plus = false) (budget : Nat) :
    Reader.items grammar.meaning .tail budget c = .ok ⟨c, []⟩ := by
  cases budget with
  | zero => rfl
  | succ budget =>
    simp only [Reader.items, meaning_tail_absent hsign]
    rfl

theorem items_tail_cons {t : Tail} {ts : List Tail} {budget : Nat}
    (htail : grammar.meaning .tail c = .ok (some ⟨d, t⟩)) (hlt : d.size < c.size)
    (hitems : Reader.items grammar.meaning .tail budget d = .ok ⟨u, ts⟩) :
    Reader.items grammar.meaning .tail (budget + 1) c = .ok ⟨u, t :: ts⟩ := by
  simp only [Reader.items, htail, hitems, bind, Except.bind, if_neg hlt.ne]
  rfl

end Readings

mutual

/-- A term is read whatever follows it. -/
theorem meaning_of_spelled {t : Term} {ws : List String} {c d : Cursor} :
    t.Spelled ws → c.Spells ws d → grammar.meaning .term c = .ok (some ⟨d, t⟩)
  | .number hn, hspells => by
    obtain ⟨htext, hrest⟩ := hspells.of_cons
    obtain rfl := hrest.eq_of_nil
    rw [meaning_term htext, Number.ofText?_eq_some_iff.mpr hn]
  | .identifier (x := x) _, hspells => by
    obtain ⟨htext, hrest⟩ := hspells.of_cons
    obtain rfl := hrest.eq_of_nil
    have hnumber : Number.ofText? x.text = none := by
      rw [Option.eq_none_iff_forall_ne_some]
      exact fun n hn => x.not_spelled_number n (Number.ofText?_eq_some_iff.mp hn)
    rw [meaning_term htext, hnumber, Identifier.ofText?_eq_some_iff.mpr rfl]
  | .paren hinner, hspells => by
    obtain ⟨htext, hspells⟩ := hspells.of_cons
    obtain ⟨e, hwords, hclose⟩ := hspells.of_append
    obtain ⟨hclosed, hnil⟩ := hclose.of_cons
    obtain rfl := hnil.eq_of_nil
    have hbegins : e.begins ")" = true := (begins_iff _ _).mpr hclosed
    have hfollow : e.begins plus = false := by simp [begins, hclosed, plus]
    have hopen : c.begins "(" = true := (begins_iff _ _).mpr htext
    have hparen := meaning_paren hopen (meaning_expr_of_spelled hinner hwords hfollow) hbegins
    rw [meaning_term htext, hparen]
    rfl

/-- A row of tails is read if no sign follows it. -/
theorem items_of_tailsSpelled {ts : List Tail} {ws : List String} {c d : Cursor} {budget : Nat} :
    TailsSpelled ts ws → c.Spells ws d → d.begins plus = false → c.size ≤ budget →
      Reader.items grammar.meaning .tail budget c = .ok ⟨d, ts⟩
  | .nil, hspells, hfollow, _ => by
    obtain rfl := hspells.eq_of_nil
    exact items_tail_nil hfollow budget
  | .cons hfirst hrest, hspells, hfollow, hbudget => by
    obtain ⟨htext, hspells⟩ := hspells.of_cons
    obtain ⟨e, hus, hws⟩ := hspells.of_append
    have hsign : c.begins plus = true := (begins_iff _ _).mpr htext
    have htail := meaning_tail hsign (meaning_of_spelled hfirst hus)
    have hsize := size_ne_zero (atEnd_eq_false_of_text htext)
    have hnext := size_next c
    have hle := size_le_of_le hus.le
    obtain ⟨budget, rfl⟩ := Nat.exists_eq_succ_of_ne_zero (show budget ≠ 0 by omega)
    exact items_tail_cons htail (by omega)
      (items_of_tailsSpelled hrest hws hfollow (by omega))

/-- A sum is read if no sign follows it. -/
theorem meaning_expr_of_spelled {e : Expr} {ws : List String} {c d : Cursor} :
    e.Spelled ws → c.Spells ws d → d.begins plus = false →
      grammar.meaning .expr c = .ok (some ⟨d, e⟩)
  | .sum hfirst hrest, hspells, hfollow => by
    obtain ⟨f, hus, hws⟩ := hspells.of_append
    exact meaning_expr (meaning_of_spelled hfirst hus)
      (items_of_tailsSpelled hrest hws hfollow le_rfl)

end

theorem begins_of_atEnd {c : Cursor} (hend : c.atEnd = true) (word : String) :
    c.begins word = false := by
  simp [begins, first_of_atEnd hend, Input.endToken, Token.endOf]

/-- A sum is all that the words left can be read as just if they spell it. -/
theorem meaningAll_expr_iff {c : Cursor} {v : Expr} :
    grammar.meaningAll .expr c = .ok v ↔
      ∃ words : List String, c.remaining.map Token.text = words.map some ∧ v.Spelled words := by
  constructor
  · intro h
    obtain ⟨o, ho, h⟩ := bind_eq_ok_iff.mp h
    cases o with
    | none => cases h
    | some m =>
      simp only at h
      split at h
      · rename_i hend
        cases h
        obtain ⟨words, hspells, hderives⟩ := Grammar.meaning_sound grammar _ c m ho
        exact ⟨words, spells_atEnd_iff.mp ⟨m.rest, hspells, hend⟩, expr_spelled hderives⟩
      · cases h
  · rintro ⟨words, htexts, hspelled⟩
    obtain ⟨d, hspells, hend⟩ := spells_atEnd_iff.mpr htexts
    have hexpr := meaning_expr_of_spelled hspelled hspells (begins_of_atEnd hend plus)
    simp only [Grammar.meaningAll, hexpr, bind, Except.bind, hend, if_true]

theorem meaningAll_expr_returns (c : Cursor) :
    (∃ v, grammar.meaningAll .expr c = .ok v) ∨
      ∃ error, grammar.meaningAll .expr c = .error (.failure error) := by
  unfold Grammar.meaningAll
  rcases Grammar.meaning_returns leftRecursionFree Symbol.expr c with ⟨o, ho⟩ | ⟨error, herror⟩
  · rw [ho]
    cases o with
    | none => exact Or.inr ⟨_, rfl⟩
    | some m =>
      simp only [bind, Except.bind]
      split
      · exact Or.inl ⟨_, rfl⟩
      · exact Or.inr ⟨_, rfl⟩
  · rw [herror]
    exact Or.inr ⟨error, rfl⟩

/-- Whatever an engine has served before, it reads a sum from all words that spell it and from no
others, and where the words spell no sum, it fails. So the print of a sum is read as this very sum,
signs included, just if all its signs are the one that the language has. -/
theorem parseComplete_expr (memoize : Bool) (history : List (Request Symbol)) :
    let e := (Engine.fresh grammar memoize).serveAll history
    (∀ (c : Cursor) (v : Expr), (e.parseComplete .expr c).answer = .ok v ↔
      ∃ words : List String, c.remaining.map Token.text = words.map some ∧ v.Spelled words) ∧
    (∀ c : Cursor, (∃ error, (e.parseComplete .expr c).answer = .error (.failure error)) ↔
      ¬ ∃ (v : Expr) (words : List String),
        c.remaining.map Token.text = words.map some ∧ v.Spelled words) ∧
    ∀ v : Expr, (e.parseComplete .expr (Input.ofTexts v.words).start).answer = .ok v ↔
      v.Signed := by
  intro e
  have he : e.Faithful := (Engine.fresh_faithful grammar memoize).serveAll history
  have hanswer : ∀ c, (e.parseComplete .expr c).answer = grammar.meaningAll .expr c := fun c =>
    he.answer_serve (.complete .expr c)
  simp only [hanswer]
  refine ⟨fun c v => meaningAll_expr_iff, fun c => ?_, fun v => ?_⟩
  · simp only [← meaningAll_expr_iff]
    rcases meaningAll_expr_returns c with ⟨v, hv⟩ | ⟨error, herror⟩
    · simp [hv]
    · simp [herror]
  · have hprint : (Input.ofTexts v.words).start.remaining.map Token.text = v.words.map some := by
      simp [Input.ofTexts, Input.start, remaining]
    rw [meaningAll_expr_iff]
    constructor
    · rintro ⟨_, -, hspelled⟩
      exact hspelled.signed
    · exact fun h => ⟨v.words, hprint, h.spelled_words⟩

end Packrat.Sample
