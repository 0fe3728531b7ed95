import Packrat.Proofs.Invariants

/-!
Calls nested in calls, whatever the grammar. A symbol calls only symbols that its declaration
mentions, and a call is over before the evaluation around it goes on. So what each step keeps, for
the evaluations under way as for a run that has halted, holds of all that an engine does, even
where left recursion cuts it short.
-/
namespace Packrat

variable {S : Type} {V : S → Type} {g : Grammar S V} {α : Type}

open Cursor

namespace Event

/-- The events within an evaluation that neither are about a call nor tell of an error. -/
def isInner : Event S → Bool
  | consulted _ _ | assembled _ none => true
  | assembled _ (some _) => false
  | event => event.isAttempt

theorem isInner_of_isAttempt {event : Event S} (h : event.isAttempt = true) :
    event.isInner = true := by
  cases event <;> first | exact h | cases h

/-- The events that neither begin nor end an evaluation, and tell of no error. -/
def isIncident : Event S → Bool
  | newInput _ | called _ _ | built _ | registered _ => true
  | event => event.isInner

theorem isIncident_of_isInner {event : Event S} (h : event.isInner = true) :
    event.isIncident = true := by
  cases event <;> first | exact h | rfl

/-- The events between a lookup that finds nothing and the match of the shape. -/
def isOpening : Event S → Bool
  | built _ | registered _ | evaluated _ _ => true
  | _ => false

end Event

namespace Work

variable [DecidableEq S] {P : Work g → Prop} {w : Work g}

/-- What incidents keep, whatever becomes of the engine, holds of a call whose declaration has
been found valid. -/
theorem registering_of_incidents
    (hstep : ∀ {w : Work g} {e : Engine g} {event : Event S}, P w → event.isIncident = true →
      P ⟨e, event :: w.journal⟩) (h : P w) (s : S) (left : Nat) :
    P ((w.lookingUp s left).registering s) := by
  have hlooked : P (w.lookingUp s left) := hstep h rfl
  unfold registering
  split
  · exact hlooked
  · have hbuilt : P ((w.lookingUp s left).noting (.built s)) := hstep hlooked rfl
    exact hstep hbuilt rfl

/-- It also holds where the declaration has been found invalid. -/
theorem building_of_incidents
    (hstep : ∀ {w : Work g} {e : Engine g} {event : Event S}, P w → event.isIncident = true →
      P ⟨e, event :: w.journal⟩) (h : P w) (s : S) (left : Nat) :
    P ((w.lookingUp s left).building s) := by
  have hlooked : P (w.lookingUp s left) := hstep h rfl
  unfold building
  split
  · exact hlooked
  · exact hstep hlooked rfl

section Openings

variable (hstep : ∀ {w : Work g} {e : Engine g} {event : Event S}, P w →
  e.memoize = w.engine.memoize → e.table = w.engine.table → e.stats = w.engine.stats →
  event.isOpening = true → P ⟨e, event :: w.journal⟩)
include hstep

/-- Openings may add to the registry, and leave the rest of the engine alone. -/
theorem entering_of_openings {s : S} {left : Nat} (h : P (w.lookingUp s left)) :
    P (w.entering s left) := by
  have hregistered : P ((w.lookingUp s left).registering s) := by
    unfold registering
    split
    · exact h
    · have hbuilt : P ((w.lookingUp s left).noting (.built s)) := hstep h rfl rfl rfl rfl
      exact hstep hbuilt rfl rfl rfl rfl
  exact hstep hregistered rfl rfl rfl rfl

theorem building_of_openings {s : S} {left : Nat} (h : P (w.lookingUp s left)) :
    P ((w.lookingUp s left).building s) := by
  unfold building
  split
  · exact h
  · exact hstep h rfl rfl rfl rfl

end Openings

end Work

namespace Engine

variable [DecidableEq S]

/-- The table keeps an outcome of `s` for so many tokens left. -/
def Remembers (e : Engine g) (s : S) (left : Nat) : Prop :=
  ∃ t o, e.table = some t ∧ t.find? s left = some o

/-- What fails is not remembered. -/
theorem FaithfulOn.not_remembers {e : Engine g} {s : S} {c : Cursor} (h : e.FaithfulOn c.input)
    {halt : Halt} (hmeaning : g.meaning s c = .error halt) : ¬ e.Remembers s c.size := by
  rintro ⟨t, o, ht, ho⟩
  have hinput := h.input_eq
  rw [input?, ht] at hinput
  have hmeant := h.faithful t ht s c (Option.some.inj hinput).symm o ho
  rw [hmeaning] at hmeant
  cases hmeant

end Engine

namespace Parser

variable [DecidableEq S]

/-- A call that fails means its failure. -/
theorem meaning_of_call_error {depth : Nat} {s : S} {c : Cursor} {w w' : Work g} {error : Error}
    (hw : w.engine.FaithfulOn c.input) (hrun : call depth s c w = .error (.failure error) w') :
    g.meaning s c = .error (.failure error) ∧ w'.engine.FaithfulOn c.input := by
  obtain ⟨-, hmeaning, hafter⟩ := call_within_on g depth s c w hw
  simp only [answer, after, hrun] at hmeaning hafter
  exact ⟨hmeaning.eq_of_ne (by simp), hafter⟩

/-- What holds from step to step of a run that calls symbols of `A` only: `I stack` while the
calls of `stack` are evaluated, innermost first, and `F stack halt` once a call within them has
halted. -/
structure Maintained (g : Grammar S V) (A : S → Prop) (I : List (S × Nat) → Work g → Prop)
    (F : List (S × Nat) → Halt → Work g → Prop) : Prop where
  closed : ∀ {s t : S}, A s → g.Mentions s t → A t
  /-- The first thing that a call from outside does. -/
  reset : ∀ {e : Engine g} {input : Input}, I [] { engine := e } → e.input? ≠ some input →
    I [] ⟨e.switch input, [.newInput e.remembered]⟩
  hit : ∀ {stack : List (S × Nat)} {w : Work g} {s : S} {left : Nat} {o : Outcome (V s)}, A s →
    I stack w → w.engine.find? s left = some o → I stack (w.lookingUp s left)
  enter : ∀ {stack : List (S × Nat)} {w : Work g} {s : S} {left : Nat}, A s → I stack w →
    w.engine.find? s left = none → g.isValid s = true →
    I ((s, left) :: stack) (w.entering s left)
  inner : ∀ {stack : List (S × Nat)} {w : Work g} {event : Event S}, I stack w →
    event.isInner = true → I stack (w.noting event)
  leave : ∀ {stack : List (S × Nat)} {w : Work g} {s : S} {left : Nat} (o : Outcome (V s)),
    I ((s, left) :: stack) w → I stack (w.settling s left o)
  /-- A label raises an error, or a call is cut short. -/
  stop : ∀ {stack : List (S × Nat)} {w : Work g} (halt : Halt), I stack w → F stack halt w
  refuse : ∀ {stack : List (S × Nat)} {w : Work g} {s : S} {left : Nat} (error : Error),
    I ((s, left) :: stack) w →
    F ((s, left) :: stack) (.failure error) (w.noting (.assembled s (some error)))
  invalid : ∀ {stack : List (S × Nat)} {w : Work g} {s : S} {left : Nat} {error : Error}, A s →
    I stack w → g.checked s = .error error →
    ¬ ((w.lookingUp s left).building s).engine.Remembers s left →
    F stack (.failure error)
      (((w.lookingUp s left).building s).noting (.failed s left (.failure error)))
  failed : ∀ {stack : List (S × Nat)} {w : Work g} {s : S} {left : Nat} {halt : Halt}, A s →
    F ((s, left) :: stack) halt w →
    (∀ error, halt = .failure error → ¬ w.engine.Remembers s left) →
    F stack halt (w.noting (.failed s left halt))

namespace Maintained

variable {A : S → Prop} {I : List (S × Nat) → Work g → Prop}
  {F : List (S × Nat) → Halt → Work g → Prop} {stack : List (S × Nat)} {call : Caller g} {s : S}
  {c : Cursor}

/-- Matching a shape, given what the calls do that it makes. -/
theorem leads_evaluate (h : Maintained g A I F) (hs : A s) {shape : Shape V (V s)}
    (hshape : g.checked s = .ok shape)
    (hcall : ∀ t d, A t → c ≤ d →
      Leads (fun w => w.engine.FaithfulOn c.input ∧ I ((s, c.size) :: stack) w)
        (fun o w => g.meaning t d = .ok o ∧ w.engine.FaithfulOn c.input ∧
          I ((s, c.size) :: stack) w) (F ((s, c.size) :: stack)) (call t d)) :
    Leads (fun w => w.engine.FaithfulOn c.input ∧ I ((s, c.size) :: stack) w)
      (fun o w => g.readShape g.meaning s c shape = .ok o ∧ w.engine.FaithfulOn c.input ∧
        I ((s, c.size) :: stack) w) (F ((s, c.size) :: stack)) (evaluate call s c shape) := by
  obtain ⟨-, rfl⟩ := Grammar.checked_eq_ok_iff.mp hshape
  have hinner : ∀ event : Event S, event.isInner = true → ∀ w : Work g,
      w.engine.FaithfulOn c.input ∧ I ((s, c.size) :: stack) w →
      (w.noting event).engine.FaithfulOn c.input ∧ I ((s, c.size) :: stack) (w.noting event) :=
    fun event hevent w hw => ⟨hw.1, h.inner hw.2 hevent⟩
  have hstop : ∀ error (w : Work g), w.engine.FaithfulOn c.input ∧ I ((s, c.size) :: stack) w →
      F ((s, c.size) :: stack) (.failure error) w := fun error w hw => h.stop _ hw.2
  cases hdeclared : g.shape s with
  | terminal matcher =>
    intro w hw
    change Ends _ _ (terminal s matcher c w)
    rw [terminal_eq]
    split
    · exact ⟨rfl, hw⟩
    · exact ⟨rfl, hinner _ rfl w hw⟩
  | alternation alternatives =>
    intro w hw
    have hscript := alternation_mentioned g.meaning (fun _ => Event.isInner_of_isAttempt)
      hdeclared c
    exact hscript.leads hinner hstop
      (fun t d hcalled => hcall t d (h.closed hs hcalled.1) hcalled.2) _
      (hinner (.alternation s c) rfl w hw)
  | sequence seq =>
    intro w hw
    have hscript := components_mentioned (fun _ => Event.isInner_of_isAttempt)
      (Grammar.meaning_sound g) hdeclared c (g.noFields s)
    have hnote : Ends (fun _ w => w.engine.FaithfulOn c.input ∧ I ((s, c.size) :: stack) w)
        (F ((s, c.size) :: stack)) ((note (.sequence s c) : Parser g Unit) w) :=
      hinner (.sequence s c) rfl w hw
    refine hnote.bind fun _ w hw => ?_
    have hcomponents := hscript.leads hinner hstop
      (fun t d hcalled => hcall t d (h.closed hs hcalled.1) hcalled.2) w hw
    refine hcomponents.bind fun o w hw => ?_
    obtain ⟨ho, hw⟩ := hw
    simp only [Grammar.readShape, ho, Shape.inOrder]
    cases o with
    | none => exact ⟨rfl, hw⟩
    | some m =>
      change Ends (fun o' w => Reader.assemble seq.assemble m = .ok o' ∧ _) _
        (assemble s seq.assemble m w)
      unfold assemble Reader.assemble
      cases seq.assemble m.value with
      | ok value left => exact ⟨rfl, hinner (.assembled s none) rfl w hw⟩
      | error error left => exact h.refuse error hw.2

/-- Calls nest to whatever depth. A call that fails means a failure, so it is not remembered. -/
theorem leads_call (h : Maintained g A I F) (depth : Nat) (hs : A s) :
    Leads (fun w => w.engine.FaithfulOn c.input ∧ I stack w)
      (fun o w => g.meaning s c = .ok o ∧ w.engine.FaithfulOn c.input ∧ I stack w) (F stack)
      (Parser.call depth s c) := by
  induction depth generalizing s c stack with
  | zero =>
    intro w hw
    cases hend : c.atEnd with
    | true =>
      rw [call_atEnd 0 s hend]
      exact ⟨Grammar.meaning_atEnd s hend, hw⟩
    | false =>
      rw [Parser.call, if_neg (by simp [hend])]
      exact h.stop _ hw.2
  | succ depth ih =>
    intro w hw
    cases hend : c.atEnd with
    | true =>
      rw [call_atEnd (depth + 1) s hend]
      exact ⟨Grammar.meaning_atEnd s hend, hw⟩
    | false =>
      obtain ⟨hfaithful, hI⟩ := hw
      cases hfind : w.engine.find? s c.size with
      | some o =>
        rw [call_succ_of_find?_some depth hend hfaithful hfind]
        exact ⟨hfaithful.find? hfind, Work.lookingUp_faithfulOn hfaithful s c.size,
          h.hit hs hI hfind⟩
      | none =>
        have hrun := call_succ_of_find?_none depth hend hfaithful hfind
        cases hshape : g.checked s with
        | error error =>
          simp only [hshape] at hrun
          rw [hrun]
          obtain ⟨hmeaning, hfaithful'⟩ := meaning_of_call_error hfaithful hrun
          exact h.invalid hs hI hshape (hfaithful'.not_remembers hmeaning)
        | ok shape =>
          simp only [hshape] at hrun
          have hvalid := (Grammar.checked_eq_ok_iff.mp hshape).1
          have hmeaning := Grammar.meaning_of_checked hend hshape
          have hcall : ∀ t d, A t → c ≤ d →
              Leads (fun w => w.engine.FaithfulOn c.input ∧ I ((s, c.size) :: stack) w)
                (fun o w => g.meaning t d = .ok o ∧ w.engine.FaithfulOn c.input ∧
                  I ((s, c.size) :: stack) w) (F ((s, c.size) :: stack))
                (Parser.call depth t d) := by
            intro t d ht hd
            rw [← input_eq_of_le hd]
            exact ih ht
          have hends := h.leads_evaluate hs hshape hcall (w.entering s c.size)
            ⟨Work.entering_faithfulOn hfaithful s c.size, h.enter hs hI hfind hvalid⟩
          cases hevaluate : evaluate (Parser.call depth) s c shape (w.entering s c.size) with
          | ok o w' =>
            rw [hevaluate] at hrun hends
            rw [hrun]
            obtain ⟨ho, hw', hI'⟩ := hends
            have hmeant := hmeaning.trans ho
            exact ⟨hmeant, hw'.remember hmeant, h.leave o hI'⟩
          | error halt w' =>
            rw [hevaluate] at hrun hends
            rw [hrun]
            refine h.failed hs hends fun error herror => ?_
            subst herror
            obtain ⟨hmeaning, hfaithful'⟩ := meaning_of_call_error hfaithful hrun
            exact hfaithful'.not_remembers hmeaning

/-- What holds before a call from outside holds after it, however it ends. -/
theorem serve (h : Maintained g A I F) {e : Engine g} (he : e.Faithful)
    (hI : I [] { engine := e }) {r : Request S} (hr : A r.symbol) :
    (∃ v, (e.serve r).answer = .ok v ∧
      I [] ⟨(e.serve r).engine, (e.serve r).journal.reverse⟩) ∨
    ∃ halt, (e.serve r).answer = .error halt ∧
      F [] halt ⟨(e.serve r).engine, (e.serve r).journal.reverse⟩ :=
  ends_serve he hI (fun _ => h.reset hI) (fun error _ => h.stop (.failure error))
    fun _ => h.leads_call _ hr

end Maintained

end Parser

end Packrat
