import Packrat.Proofs.Nesting

/-!
Errors are never swallowed. A failed call, like an assembler that refuses, ends the evaluation that
it belongs to, and with it every evaluation around that one. Of such a run the log shows nothing
further but these calls as they fail, from the innermost outwards, and none is remembered.
-/
namespace Packrat

variable {S : Type} {V : S → Type} {g : Grammar S V}

namespace Event

/-- The error that an event tells of, whether of a call or of an assembler. -/
def error? : Event S → Option Error
  | failed _ _ (.failure error) => some error
  | assembled _ (some error) => some error
  | _ => none

theorem error?_of_isIncident {event : Event S} (h : event.isIncident = true) :
    event.error? = none := by
  cases event with
  | assembled s refusal =>
    cases refusal with
    | none => rfl
    | some error => cases h
  | failed s left halt => cases h
  | _ => rfl

/-- A call that ends early. -/
def failing (halt : Halt) (call : S × Nat) : Event S := .failed call.1 call.2 halt

end Event

variable [DecidableEq S]

/-- The evaluations under way after the events of a log, its latest event first. The innermost
evaluation comes first; it is the one that ends when its call is settled or fails. -/
def underway : List (Event S) → List (S × Nat)
  | [] => []
  | .evaluated s left :: log => (s, left) :: underway log
  | .settled s left :: log => (underway log).erase (s, left)
  | .failed s left _ :: log => (underway log).erase (s, left)
  | _ :: log => underway log

theorem underway_of_isIncident {event : Event S} (h : event.isIncident = true)
    (log : List (Event S)) : underway (event :: log) = underway log := by
  cases event <;> first | rfl | cases h

/-- Since an event that tells of an error, there has been nothing but calls that end early: of
those that were under way then, all that are not under way any more, from the innermost on. -/
def Unwinds (halt : Halt) (log : List (Event S)) : Prop :=
  ∀ later event earlier error, log = later ++ event :: earlier → event.error? = some error →
    halt = .failure error ∧
    later.reverse ++ (underway log).map (Event.failing halt) =
      (underway (event :: earlier)).map (Event.failing halt)

namespace Unwinds

variable {halt : Halt} {log : List (Event S)}

theorem of_silent (halt : Halt) (h : ∀ event ∈ log, event.error? = none) : Unwinds halt log := by
  rintro later event earlier error rfl herror
  rw [h event (by simp)] at herror
  cases herror

/-- The first event that tells of an error. -/
theorem first (h : ∀ event ∈ log, event.error? = none) {event : Event S} {error : Error}
    (herror : event.error? = some error) : Unwinds (.failure error) (event :: log) := by
  intro later event' earlier error' hlog herror'
  cases later with
  | nil =>
    obtain ⟨rfl, rfl⟩ := List.cons.inj hlog
    rw [herror] at herror'
    cases herror'
    exact ⟨rfl, rfl⟩
  | cons latest later =>
    obtain ⟨rfl, rfl⟩ := List.cons.inj hlog
    rw [h event' (by simp)] at herror'
    cases herror'

/-- The innermost evaluation ends early. -/
theorem failed (h : Unwinds halt log) {s : S} {left : Nat} {stack : List (S × Nat)}
    (hunderway : underway log = (s, left) :: stack) :
    Unwinds halt (.failed s left halt :: log) := by
  have hleft : underway (.failed s left halt :: log) = stack := by
    rw [underway, hunderway, List.erase_cons_head]
  intro later event earlier error hlog herror
  cases later with
  | nil =>
    obtain ⟨rfl, rfl⟩ := List.cons.inj hlog
    cases halt with
    | failure error' =>
      cases herror
      exact ⟨rfl, rfl⟩
    | leftRecursion => cases herror
  | cons latest later =>
    obtain ⟨rfl, rfl⟩ := List.cons.inj hlog
    obtain ⟨hhalt, hsince⟩ := h later event earlier error rfl herror
    refine ⟨hhalt, ?_⟩
    rw [hunderway] at hsince
    rw [hleft, ← hsince, List.reverse_cons, List.append_assoc]
    rfl

end Unwinds

/-- A run without errors so far, in which these evaluations are under way. -/
structure Steady (stack : List (S × Nat)) (w : Work g) : Prop where
  underway_eq : underway w.journal = stack
  valid : ∀ call ∈ stack, g.isValid call.1 = true
  silent : ∀ event ∈ w.journal, event.error? = none

/-- A run that has halted within these evaluations. No call that has failed is remembered. -/
structure Unwinding (stack : List (S × Nat)) (halt : Halt) (w : Work g) : Prop where
  underway_eq : underway w.journal = stack
  valid : ∀ call ∈ stack, g.isValid call.1 = true
  unwinds : Unwinds halt w.journal
  forgotten : ∀ s left error, .failed s left (.failure error) ∈ w.journal →
    ¬ w.engine.Remembers s left

namespace Steady

variable {stack : List (S × Nat)} {w : Work g} {e : Engine g} {event : Event S} {s : S} {left : Nat}

theorem step (h : Steady stack w) (hincident : event.isIncident = true) :
    Steady stack ⟨e, event :: w.journal⟩ where
  underway_eq := (underway_of_isIncident hincident _).trans h.underway_eq
  valid := h.valid
  silent := List.forall_mem_cons.mpr ⟨Event.error?_of_isIncident hincident, h.silent⟩

theorem entering (h : Steady stack w) (hvalid : g.isValid s = true) (left : Nat) :
    Steady ((s, left) :: stack) (w.entering s left) := by
  have hregistered := Work.registering_of_incidents (fun h => h.step) h s left
  exact ⟨congrArg ((s, left) :: ·) hregistered.underway_eq,
    List.forall_mem_cons.mpr ⟨hvalid, hregistered.valid⟩,
    List.forall_mem_cons.mpr ⟨rfl, hregistered.silent⟩⟩

theorem settling (h : Steady ((s, left) :: stack) w) (o : Outcome (V s)) :
    Steady stack (w.settling s left o) where
  underway_eq := by
    rw [Work.settling, underway, h.underway_eq, List.erase_cons_head]
  valid := (List.forall_mem_cons.mp h.valid).2
  silent := List.forall_mem_cons.mpr ⟨rfl, h.silent⟩

theorem not_failed (h : Steady stack w) (s : S) (left : Nat) (error : Error) :
    .failed s left (.failure error) ∉ w.journal :=
  fun hmem => nomatch h.silent _ hmem

theorem unwinding (h : Steady stack w) (halt : Halt) : Unwinding stack halt w :=
  ⟨h.underway_eq, h.valid, .of_silent halt h.silent,
    fun s left error hmem => (h.not_failed s left error hmem).elim⟩

theorem refusing (h : Steady ((s, left) :: stack) w) (error : Error) :
    Unwinding ((s, left) :: stack) (.failure error) (w.noting (.assembled s (some error))) where
  underway_eq := h.underway_eq
  valid := h.valid
  unwinds := .first h.silent rfl
  forgotten t n error' hmem := by
    rcases List.mem_cons.mp hmem with heq | hmem
    · cases heq
    · exact (h.not_failed t n error' hmem).elim

/-- An invalid symbol is never under way, so its failure ends no evaluation. -/
theorem failed (h : Steady stack w) (hvalid : g.isValid s = false) {error : Error}
    (hforgotten : ¬ w.engine.Remembers s left) :
    Unwinding stack (.failure error) (w.noting (.failed s left (.failure error))) where
  underway_eq := by
    have hnot : (s, left) ∉ stack := by
      intro hmem
      rw [h.valid _ hmem] at hvalid
      cases hvalid
    rw [Work.noting, underway, h.underway_eq, List.erase_of_not_mem hnot]
  valid := h.valid
  unwinds := .first h.silent rfl
  forgotten t n error' hmem := by
    rcases List.mem_cons.mp hmem with heq | hmem
    · cases heq
      exact hforgotten
    · exact (h.not_failed t n error' hmem).elim

end Steady

theorem Unwinding.failed {stack : List (S × Nat)} {halt : Halt} {w : Work g} {s : S} {left : Nat}
    (h : Unwinding ((s, left) :: stack) halt w)
    (hforgotten : ∀ error, halt = .failure error → ¬ w.engine.Remembers s left) :
    Unwinding stack halt (w.noting (.failed s left halt)) where
  underway_eq := by
    rw [Work.noting, underway, h.underway_eq, List.erase_cons_head]
  valid := (List.forall_mem_cons.mp h.valid).2
  unwinds := h.unwinds.failed h.underway_eq
  forgotten t n error hmem := by
    rcases List.mem_cons.mp hmem with heq | hmem
    · cases heq
      exact hforgotten error rfl
    · exact h.forgotten t n error hmem

theorem unwinding_maintained (g : Grammar S V) :
    Parser.Maintained g (fun _ => True) Steady Unwinding where
  closed _ _ := trivial
  reset h _ := h.step rfl
  hit _ h _ := h.step rfl
  enter _ h _ hvalid := h.entering hvalid _
  inner h hinner := h.step (Event.isIncident_of_isInner hinner)
  leave o h := h.settling o
  stop halt h := h.unwinding halt
  refuse error h := h.refusing error
  invalid _ h hchecked hforgotten := by
    obtain ⟨flaw, hflaw, -⟩ := Grammar.checked_eq_error_iff.mp hchecked
    have hbuilt := Work.building_of_incidents (fun h => h.step) h
    exact (hbuilt _ _).failed (by simp [Grammar.isValid, hflaw]) hforgotten
  failed _ h hforgotten := h.failed hforgotten

namespace Engine

/-- The log of a call that has returned shows no error. In that of one that has halted, nothing is
under way any more. -/
theorem Faithful.unwinds {e : Engine g} (he : e.Faithful) (r : Request S) :
    (∃ v, (e.serve r).answer = .ok v ∧ ∀ event ∈ (e.serve r).journal, event.error? = none) ∨
    ∃ halt, (e.serve r).answer = .error halt ∧
      underway (e.serve r).journal.reverse = [] ∧ Unwinds halt (e.serve r).journal.reverse ∧
      ∀ s left error, .failed s left (.failure error) ∈ (e.serve r).journal →
        ¬ (e.serve r).engine.Remembers s left := by
  have hstart : Steady [] ({ engine := e } : Work g) := ⟨rfl, by simp, by simp⟩
  rcases (unwinding_maintained g).serve he hstart (r := r) trivial with
    ⟨v, hv, hw⟩ | ⟨halt, hhalt, hw⟩
  · exact Or.inl ⟨v, hv, fun event hmem => hw.silent event (List.mem_reverse.mpr hmem)⟩
  · exact Or.inr ⟨halt, hhalt, hw.underway_eq, hw.unwinds, fun s left error hmem =>
      hw.forgotten s left error (List.mem_reverse.mpr hmem)⟩

/-- What an event tells of, its run ends with. -/
theorem Faithful.unwinds_of_error {e : Engine g} (he : e.Faithful) {r : Request S} {event : Event S}
    (hmem : event ∈ (e.serve r).journal) {error : Error} (herror : event.error? = some error) :
    (e.serve r).answer = .error (.failure error) ∧
    underway (e.serve r).journal.reverse = [] ∧
    Unwinds (.failure error) (e.serve r).journal.reverse ∧
    ∀ s left error, .failed s left (.failure error) ∈ (e.serve r).journal →
      ¬ (e.serve r).engine.Remembers s left := by
  rcases he.unwinds r with ⟨v, -, hsilent⟩ | ⟨halt, hhalt, hover, hunwinds, hforgotten⟩
  · rw [hsilent event hmem] at herror
    cases herror
  · obtain ⟨later, earlier, hlog⟩ := List.append_of_mem (List.mem_reverse.mpr hmem)
    obtain ⟨rfl, -⟩ := hunwinds _ _ _ _ hlog herror
    exact ⟨hhalt, hover, hunwinds, hforgotten⟩

/-- An error goes all the way out. Once a call has failed or an assembler refused, all that still
happens is that the calls whose evaluations are under way fail, from the innermost to the outermost
and each with that error, as does the call from outside. None of the failed calls is remembered. -/
theorem serve_unwinds {e : Engine g} (he : e.Reachable) (r : Request S)
    {before after : List (Event S)} {event : Event S} {error : Error}
    (hjournal : (e.serve r).journal = before ++ event :: after)
    (herror : event.error? = some error) :
    (e.serve r).answer = .error (.failure error) ∧
    after = (underway (before ++ [event]).reverse).map (Event.failing (.failure error)) ∧
    ∀ s left, .failed s left (.failure error) ∈ event :: after →
      ¬ (e.serve r).engine.Remembers s left := by
  have hmem : event ∈ (e.serve r).journal := by simp [hjournal]
  have hlog : (e.serve r).journal.reverse = after.reverse ++ event :: before.reverse := by
    simp [hjournal]
  obtain ⟨hhalt, hover, hunwinds, hforgotten⟩ := he.faithful.unwinds_of_error hmem herror
  obtain ⟨-, hsince⟩ := hunwinds _ _ _ _ hlog herror
  refine ⟨hhalt, ?_, fun s left hfailed => hforgotten s left error ?_⟩
  · simpa [hover] using hsince
  · rw [hjournal]
    exact List.mem_append_right before hfailed

end Engine

namespace Sample

/-- A sum in parentheses that are never closed. -/
def halfOpen : Input := .ofTexts ["a", "+", "(", "1"]

/-- That the parenthesis is never closed is an error of every call around it. -/
theorem halfOpen_unwinds :
    let run := (Engine.fresh grammar true).serve (.one .expr halfOpen.start)
    let halt : Halt := .failure (.parse "expected \x60)\x60" halfOpen.endToken)
    run.answer = .error halt ∧
    run.journal.drop 62 = [.failed .term 2 halt, .failed .tail 3 halt, .failed .expr 4 halt] ∧
    ¬ run.engine.Remembers .expr 4 := by
  intro run halt
  have hjournal : run.journal =
      run.journal.take 61 ++ .failed .paren 2 halt :: run.journal.drop 62 := rfl
  obtain ⟨hanswer, hafter, hforgotten⟩ := Engine.serve_unwinds
    (Engine.fresh_reachable grammar true) (.one .expr halfOpen.start) hjournal rfl
  have hstack : underway (run.journal.take 61 ++ [Event.failed Symbol.paren 2 halt]).reverse =
      [(.term, 2), (.tail, 3), (.expr, 4)] := rfl
  rw [hstack] at hafter
  exact ⟨hanswer, hafter, hforgotten .expr 4 (by simp [hafter, Event.failing])⟩

end Sample

end Packrat
