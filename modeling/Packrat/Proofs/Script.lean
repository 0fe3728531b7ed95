import Packrat.Parser.Matching
import Packrat.Proofs.ErrorSource

/-!
Scripts. Matching a shape notes remarks, calls symbols, and ends with a result or an error; what
it does next hangs on the answers to its calls only. A parser and a reading follow one script if
they go through the same calls and make the same use of the answers. Whatever the ways to call
and to read, much that holds of single calls then holds of all that the shape does with them.
-/
namespace Packrat

variable {S : Type} {V : S → Type} {g : Grammar S V} {α β : Type}

open Cursor

/-- The events of matching a shape, except that a matcher is run. -/
def Event.isRemark : Event S → Bool
  | alternation _ _ | chose _ _ | sequence _ _ | missed _ _ | repetition _ _ | delimited _ _
  | assembled _ _ => true
  | newInput _ | called _ _ | built _ | registered _ | evaluated _ _ | consulted _ _
  | settled _ _ | failed _ _ _ => false

/-- The remarks that come before an assembler is run. -/
def Event.isAttempt : Event S → Bool
  | assembled _ _ => false
  | event => event.isRemark

theorem Event.isRemark_of_isAttempt {event : Event S} (h : event.isAttempt = true) :
    event.isRemark = true := by
  cases event <;> first | exact h | cases h

namespace Parser

/-- The parser `p` and the reading `r` follow one script, which notes events of `E` and makes
calls of `C`. Only answers that `base` gives need to be followed up. -/
inductive Scripted (E : Event S → Prop) (C : S → Cursor → Prop) (base : Reader V) :
    (Caller g → Parser g α) → (Reader V → Except Halt α) → Prop
  | pure (a : α) : Scripted E C base (fun _ => pure a) (fun _ => .ok a)
  | fail (error : Error) :
      Scripted E C base (fun _ => fail error) (fun _ => .error (.failure error))
  | note {event : Event S} {p : Caller g → Parser g α} {r : Reader V → Except Halt α}
      (hevent : E event) (hp : Scripted E C base p r) :
      Scripted E C base (fun call => do note event; p call) r
  | call {s : S} {c : Cursor} {k : Outcome (V s) → Caller g → Parser g α}
      {f : Outcome (V s) → Reader V → Except Halt α} (hcall : C s c)
      (hk : ∀ o, base s c = .ok o → Scripted E C base (k o) (f o)) :
      Scripted E C base (fun call => do let o ← call s c; k o call)
        (fun read => do let o ← read s c; f o read)

section Combinators

variable {E : Event S → Prop} {C : S → Cursor → Prop} {base : Reader V} {c : Cursor} {s : S}

theorem Scripted.bind {p : Caller g → Parser g α} {r : Reader V → Except Halt α}
    {k : α → Caller g → Parser g β} {f : α → Reader V → Except Halt β}
    (hp : Scripted E C base p r) (hk : ∀ a, r base = .ok a → Scripted E C base (k a) (f a)) :
    Scripted E C base (fun call => do let a ← p call; k a call)
      (fun read => do let a ← r read; f a read) := by
  induction hp with
  | pure a => exact hk a rfl
  | fail error => exact .fail error
  | note hevent _ ih => exact .note hevent (ih hk)
  | @call t d l _ hcall _ ih =>
    simp only [bind_assoc]
    refine .call hcall fun o ho => ih o ho fun a ha => hk a ?_
    simp only [ho]
    exact ha

/-- One call, whose answer is the result. -/
theorem Scripted.once (hC : C s c) :
    Scripted (g := g) E C base (fun call => call s c) (fun read => read s c) := by
  have hp : Scripted (g := g) E C base (fun call => call s c >>= Pure.pure)
      (fun read => read s c >>= Pure.pure) := .call hC fun o _ => .pure o
  simpa only [bind_pure] using hp

theorem alternation_scripted (hE : ∀ event, event.isAttempt = true → E event) (s : S)
    {alternatives : List (Alternative V α)} (hC : ∀ a ∈ alternatives, C a.symbol c) :
    Scripted (g := g) E C base (fun call => alternation call s c alternatives)
      (fun read => Reader.alternation read c alternatives) := by
  induction alternatives with
  | nil => exact .pure none
  | cons a rest ih =>
    obtain ⟨ha, hrest⟩ := List.forall_mem_cons.mp hC
    refine .call ha fun o _ => ?_
    cases o with
    | some m => exact .note (hE _ rfl) (.pure _)
    | none => exact ih hrest

theorem optional_scripted (hC : C s c) :
    Scripted (g := g) E C base (fun call => optional call s c)
      (fun read => Reader.optional read s c) := by
  refine .call hC fun o _ => ?_
  cases o with
  | some m => exact .pure _
  | none => exact .pure _

theorem items_scripted (hbase : base.Sound g) (hC : ∀ d, c ≤ d → C s d) (budget : Nat) :
    Scripted (g := g) E C base (fun call => items call s budget c)
      (fun read => Reader.items read s budget c) := by
  induction budget generalizing c with
  | zero => exact .pure _
  | succ budget ih =>
    refine .call (hC c le_rfl) fun o ho => ?_
    cases o with
    | none => exact .pure _
    | some m =>
      have hle : c ≤ m.rest := hbase.le ho
      by_cases hstall : m.rest.size = c.size
      · simp only [hstall, if_true]
        exact .pure _
      · simp only [hstall, if_false]
        exact .bind (ih fun d hd => hC d (hle.trans hd)) fun more _ => .pure _

theorem repetition_scripted (hE : ∀ event, event.isAttempt = true → E event)
    (hbase : base.Sound g) (hC : ∀ d, c ≤ d → C s d) (least : Nat) :
    Scripted (g := g) E C base (fun call => repetition call s least c)
      (fun read => Reader.repetition read s least c) :=
  .bind (items_scripted hbase hC c.size) fun _ _ => .note (hE _ rfl) (.pure _)

theorem listing_scripted (hbase : base.Sound g) (hC : ∀ d, c ≤ d → C s d) (delimiter : Literal)
    (budget : Nat) :
    Scripted (g := g) E C base (fun call => listing call s delimiter budget c)
      (fun read => Reader.listing read s delimiter budget c) := by
  induction budget generalizing c with
  | zero => exact .pure _
  | succ budget ih =>
    refine .call (hC c le_rfl) fun o ho => ?_
    cases o with
    | none => exact .pure _
    | some m =>
      have hle : c ≤ m.rest.next := (hbase.le ho).trans (le_next m.rest)
      by_cases hbegins : m.rest.begins delimiter.text = true
      · simp only [hbegins, if_true]
        exact .bind (ih fun d hd => hC d (hle.trans hd)) fun more _ => .pure _
      · simp only [hbegins]
        exact .pure _

theorem delimited_scripted (hE : ∀ event, event.isAttempt = true → E event)
    (hbase : base.Sound g) (hC : ∀ d, c ≤ d → C s d) (delimiter : Literal)
    (trailing empty : Bool) :
    Scripted (g := g) E C base (fun call => delimited call s delimiter trailing empty c)
      (fun read => Reader.delimited read s delimiter trailing empty c) := by
  refine .bind (listing_scripted hbase hC delimiter c.size) fun m _ => ?_
  by_cases haccepted : m.value.accepted trailing empty = true
  · simp only [haccepted, if_true]
    exact .note (hE _ rfl) (.pure _)
  · simp only [haccepted]
    exact .pure _

theorem component_scripted (hE : ∀ event, event.isAttempt = true → E event)
    (hbase : base.Sound g) (p : Policy S)
    (hC : ∀ t, p.symbol? = some t → ∀ d, c ≤ d → C t d) :
    Scripted (g := g) E C base (fun call => component call c p)
      (fun read => Reader.component read c p) := by
  match p with
  | .keyword literal => exact .pure _
  | .element s .required => exact .once (hC s rfl c le_rfl)
  | .element s .optional => exact optional_scripted (hC s rfl c le_rfl)
  | .element s .oneOrMore => exact repetition_scripted hE hbase (hC s rfl) 1
  | .element s .zeroOrMore => exact repetition_scripted hE hbase (hC s rfl) 0
  | .element s (.delimited delimiter trailing empty) =>
    exact delimited_scripted hE hbase (hC s rfl) delimiter trailing empty

/-- Among components, a call that stays where they began is one that only nullable ones precede. -/
theorem components_scripted (hE : ∀ event, event.isAttempt = true → E event)
    (hbase : base.Sound g) (s : S) {ds : List (Component S)}
    (hC : ∀ before d after, ds = before ++ d :: after → ∀ t, d.policy.symbol? = some t →
      ∀ e, c ≤ e → (e = c → ∀ b ∈ before, g.NullablePart b.policy) → C t e)
    (fields : Fields V) :
    Scripted (g := g) E C base (fun call => components call s ds c fields)
      (fun read => Reader.components read ds c fields) := by
  induction ds generalizing c fields with
  | nil => exact .pure _
  | cons d rest ih =>
    have hfirst : ∀ t, d.policy.symbol? = some t → ∀ e, c ≤ e → C t e :=
      fun t ht e he => hC [] d rest rfl t ht e he (by simp)
    refine .bind (component_scripted hE hbase d.policy hfirst) fun o ho => ?_
    cases o with
    | some m =>
      obtain ⟨ws, hspells, -⟩ := Reader.component_sound hbase ho
      have hle : c ≤ m.rest := hspells.le
      refine ih (fun before d' after hsplit t ht e he hnull => ?_) _
      refine hC (d :: before) d' after (by rw [hsplit]; rfl) t ht e (hle.trans he) ?_
      rintro rfl
      have hstay : m.rest = e := le_antisymm he hle
      exact List.forall_mem_cons.mpr
        ⟨Reader.component_nullable hbase ho hstay, hnull hstay.symm⟩
    | none =>
      cases hlabel : d.label with
      | some label => exact .fail _
      | none => exact .note (hE _ rfl) (.pure _)

theorem assemble_scripted (hE : ∀ event, event.isRemark = true → E event) (s : S)
    (assembler : Assembler V α) (m : Match (Fields V)) :
    Scripted (g := g) E C base (fun _ => assemble s assembler m)
      (fun _ => Reader.assemble assembler m) := by
  unfold assemble Reader.assemble
  cases assembler m.value with
  | ok value left => exact .note (hE _ rfl) (.pure _)
  | error error left => exact .note (hE _ rfl) (.fail _)

end Combinators

end Parser

namespace Grammar

/-- Matching the shape of `s` at `c` may call `t` at `d`. -/
def MayCall (g : Grammar S V) (s : S) (c : Cursor) (t : S) (d : Cursor) : Prop :=
  c ≤ d ∧ (d = c → g.LeftCalls s t)

end Grammar

namespace Parser

/-- Matching a shape follows the script of its reading. Only a terminal consults a matcher. -/
theorem evaluate_scripted {E : Event S → Prop} {base : Reader V} (hbase : base.Sound g)
    (hE : ∀ event, event.isRemark = true → E event) {s : S} (c : Cursor)
    {shape : Shape V (V s)} (hshape : g.checked s = .ok shape)
    (hconsulted : ∀ matcher, g.shape s = .terminal matcher → E (.consulted s c.size)) :
    Scripted (g := g) E (g.MayCall s c) base (fun call => evaluate call s c shape)
      (fun read => g.readShape read s c shape) := by
  obtain ⟨-, rfl⟩ := Grammar.checked_eq_ok_iff.mp hshape
  have hattempt : ∀ event : Event S, event.isAttempt = true → E event :=
    fun event h => hE event (Event.isRemark_of_isAttempt h)
  cases hdeclared : g.shape s with
  | terminal matcher =>
    change Scripted E (g.MayCall s c) base (fun _ => terminal s matcher c)
      (fun _ => .ok (Reader.terminal matcher c))
    unfold terminal Reader.terminal
    cases c.first.text with
    | none => exact .pure _
    | some text => exact .note (hconsulted matcher hdeclared) (.pure _)
  | alternation alternatives =>
    refine .note (hE _ rfl) (alternation_scripted hattempt s fun a ha => ?_)
    exact ⟨le_rfl, fun _ => .alternative hdeclared ha⟩
  | sequence seq =>
    refine .note (hE _ rfl) (.bind (components_scripted hattempt hbase s ?_ _) fun o _ => ?_)
    · intro before d after hsplit t ht e he hnull
      exact ⟨he, fun hstay => .component hdeclared hsplit (hnull hstay) ht⟩
    · cases o with
      | some m => exact assemble_scripted hE s seq.assemble m
      | none => exact .pure _

section Mentioned

variable {E : Event S → Prop} {base : Reader V} {s : S}

/-- An alternation calls only symbols that it mentions. -/
theorem alternation_mentioned (base : Reader V) (hE : ∀ event, event.isAttempt = true → E event)
    {alternatives : List (Alternative V (V s))} (hshape : g.shape s = .alternation alternatives)
    (c : Cursor) :
    Scripted (g := g) E (fun t d => g.Mentions s t ∧ c ≤ d) base
      (fun call => alternation call s c alternatives)
      (fun read => Reader.alternation read c alternatives) :=
  alternation_scripted hE s fun _ ha => ⟨.alternative hshape ha, le_rfl⟩

/-- So do the components of a sequence, at its place or further on. -/
theorem components_mentioned (hE : ∀ event, event.isAttempt = true → E event)
    (hbase : base.Sound g) {seq : Sequence V (V s)} (hshape : g.shape s = .sequence seq)
    (c : Cursor) (fields : Fields V) :
    Scripted (g := g) E (fun t d => g.Mentions s t ∧ c ≤ d) base
      (fun call => components call s (Component.byPriority seq.components) c fields)
      (fun read => Reader.components read (Component.byPriority seq.components) c fields) := by
  refine components_scripted hE hbase s (fun before d after hsplit t ht e he _ => ?_) fields
  have hd : d ∈ seq.components :=
    (Component.byPriority_perm _).mem_iff.mp (by rw [hsplit]; simp)
  exact ⟨.element hshape hd ht, he⟩

end Mentioned

end Parser

end Packrat
