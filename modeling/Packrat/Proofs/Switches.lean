import Packrat.Proofs.Nesting
import Packrat.Proofs.Thrift

/-!
The inputs that an engine goes through. A call from outside drops the table if its input is not
the one that the engine saw last, and does so before anything else. The calls nested in it stay on
that input, so the table is dropped once for each switch of inputs. A call where the input is used
up leaves the engine as it is.
-/
namespace Packrat

variable {S : Type} {V : S → Type} {g : Grammar S V}

def Request.cursor : Request S → Cursor
  | one _ c | complete _ c => c

/-- How many calls find tokens left of another input than the last call before that found some.
The input of that call, if there was one, is `last`. -/
def switches (last : Option Input) : List (Request S) → Nat
  | [] => 0
  | r :: rest =>
    if r.cursor.atEnd then switches last rest
    else if last = some r.cursor.input then switches last rest
    else switches (some r.cursor.input) rest + 1

theorem Event.isReset_of_isInner {event : Event S} (h : event.isInner = true) :
    event.isReset = false := by
  cases event <;> first | rfl | cases h

theorem Event.isReset_of_isOpening {event : Event S} (h : event.isOpening = true) :
    event.isReset = false := by
  cases event <;> first | rfl | cases h

namespace Engine

theorem resets_count (e : Engine g) (hit : Bool) :
    (e.count hit).stats.resets = e.stats.resets := by
  unfold count
  split
  · rfl
  · split <;> rfl

theorem stats_remember [DecidableEq S] (e : Engine g) (s : S) (left : Nat) (o : Outcome (V s)) :
    (e.remember s left o).stats = e.stats := by
  unfold remember
  split <;> rfl

end Engine

/-- A run that began with the engine `e` and is on one input. If that is not the input of `e`, the
table was dropped as the first step of the run, and has not been dropped since. -/
structure OnOneInput (e : Engine g) (w : Work g) : Prop where
  resets_eq : w.engine.stats.resets = e.stats.resets + w.journal.countP Event.isReset
  first : ∀ event ∈ w.journal.dropLast, event.isReset = false
  switched_iff : (∃ event ∈ w.journal, event.isReset = true) ↔ w.engine.input? ≠ e.input?

namespace OnOneInput

variable {e e' : Engine g} {w : Work g} {event : Event S}

theorem start (e : Engine g) : OnOneInput e { engine := e } := ⟨rfl, by simp, by simp⟩

theorem reset {input : Input} (h : OnOneInput e { engine := e' })
    (hinput : e'.input? ≠ some input) :
    OnOneInput e ⟨e'.switch input, [.newInput e'.remembered]⟩ where
  resets_eq := congrArg (· + 1) h.resets_eq
  first := by simp
  switched_iff := by
    have hsame : e'.input? = e.input? := by
      by_contra hne
      obtain ⟨event, hmem, -⟩ := h.switched_iff.mpr hne
      cases hmem
    rw [hsame] at hinput
    exact iff_of_true ⟨_, List.mem_singleton_self _, rfl⟩ (Ne.symm hinput)

/-- Any other step stays on the input. -/
theorem step (h : OnOneInput e w) (hresets : e'.stats.resets = w.engine.stats.resets)
    (hinput : e'.input? = w.engine.input?) (hevent : event.isReset = false) :
    OnOneInput e ⟨e', event :: w.journal⟩ where
  resets_eq := by
    rw [hresets, h.resets_eq, List.countP_cons_of_neg (by simp [hevent])]
  first := by
    obtain ⟨engine, journal⟩ := w
    cases journal with
    | nil => simp
    | cons latest journal => exact List.forall_mem_cons.mpr ⟨hevent, h.first⟩
  switched_iff := by
    rw [hinput, ← h.switched_iff]
    simp [hevent]

theorem opening (h : OnOneInput e w) (htable : e'.table = w.engine.table)
    (hstats : e'.stats = w.engine.stats) (hopening : event.isOpening = true) :
    OnOneInput e ⟨e', event :: w.journal⟩ := by
  refine h.step (congrArg Stats.resets hstats) ?_ (Event.isReset_of_isOpening hopening)
  rw [Engine.input?, htable, Engine.input?]

/-- The run has dropped the table at most once. -/
theorem resets_of_switched (h : OnOneInput e w) :
    w.engine.stats.resets = e.stats.resets + if w.engine.input? = e.input? then 0 else 1 := by
  rw [h.resets_eq, Nat.add_left_cancel_iff]
  split
  · rename_i hsame
    rw [List.countP_eq_zero]
    intro event hmem hreset
    exact h.switched_iff.mp ⟨event, hmem, hreset⟩ hsame
  · rename_i hswitched
    obtain ⟨event, hmem, hreset⟩ := h.switched_iff.mpr hswitched
    have hsince : w.journal.dropLast.countP Event.isReset = 0 :=
      List.countP_eq_zero.mpr fun event hmem => by simp [h.first event hmem]
    have hjournal := List.dropLast_append_getLast (List.ne_nil_of_mem hmem)
    have hfirst : (w.journal.getLast (List.ne_nil_of_mem hmem)).isReset = true := by
      rw [← hjournal] at hmem
      rcases List.mem_append.mp hmem with hlater | holdest
      · rw [h.first event hlater] at hreset
        cases hreset
      · rwa [List.mem_singleton.mp holdest] at hreset
    rw [← hjournal, List.countP_append, hsince, List.countP_singleton, if_pos hfirst]

variable [DecidableEq S] {s : S}

theorem lookingUp (h : OnOneInput e w) (s : S) (left : Nat) :
    OnOneInput e (w.lookingUp s left) :=
  h.step (Engine.resets_count _ _) (Engine.input_count _ _) rfl

theorem entering (h : OnOneInput e w) (s : S) (left : Nat) : OnOneInput e (w.entering s left) :=
  Work.entering_of_openings (fun h _ => h.opening) (h.lookingUp s left)

theorem building (h : OnOneInput e w) (s : S) (left : Nat) :
    OnOneInput e ((w.lookingUp s left).building s) :=
  Work.building_of_openings (fun h _ => h.opening) (h.lookingUp s left)

theorem settling (h : OnOneInput e w) (left : Nat) (o : Outcome (V s)) :
    OnOneInput e (w.settling s left o) :=
  h.step (congrArg Stats.resets (Engine.stats_remember ..)) (Engine.input_remember ..) rfl

end OnOneInput

variable [DecidableEq S]

theorem onOneInput_maintained (g : Grammar S V) (e : Engine g) :
    Parser.Maintained g (fun _ => True) (fun _ => OnOneInput e) fun _ _ => OnOneInput e where
  closed _ _ := trivial
  reset h hinput := h.reset hinput
  hit _ h _ := h.lookingUp _ _
  enter _ h _ _ := h.entering _ _
  inner h hinner := h.step rfl rfl (Event.isReset_of_isInner hinner)
  leave o h := h.settling _ o
  stop _ h := h
  refuse _ h := h.step rfl rfl rfl
  invalid _ h _ _ := (h.building _ _).step rfl rfl rfl
  failed _ h _ := h.step rfl rfl rfl

namespace Parser

open Engine

/-- Where tokens are left, a call from outside leaves the engine on the input of its cursor. -/
theorem parse_within_on (g : Grammar S V) (s : S) {c : Cursor} (hend : c.atEnd = false) :
    Within (g := g) Faithful (FaithfulOn c.input) (g.meaning s c) (g.meaning s c)
      (parse s c) := by
  intro w hw
  have hcall := call_within_on g (g.symbols.length * c.size) s c (w.observing c)
    (Work.observing_faithfulOn hw c)
  simp only [answer, after, ← parse_observing s hend w]
  exact hcall

theorem parseAll_within_on (g : Grammar S V) (s : S) {c : Cursor} (hend : c.atEnd = false) :
    Within (g := g) Faithful (FaithfulOn c.input) (g.meaningAll s c) (g.meaningAll s c)
      (parseAll s c) := by
  refine (parse_within_on g s hend).bind fun o _ => ?_
  cases o with
  | none => exact .throw _ _
  | some m =>
    simp only
    split
    · exact .pure _ _
    · exact .throw _ _

end Parser

namespace Engine

theorem parseOne_atEnd (e : Engine g) (s : S) {c : Cursor} (h : c.atEnd = true) :
    e.parseOne s c = ⟨.ok none, e, []⟩ := by
  rw [parseOne, Parser.parse, Parser.call_atEnd _ s h]
  rfl

theorem parseComplete_atEnd (e : Engine g) (s : S) {c : Cursor} (h : c.atEnd = true) :
    e.parseComplete s c = ⟨.error (.failure (.parse ("expected " ++ g.name s) c.first)), e, []⟩ := by
  rw [parseComplete, Parser.parseAll, Parser.parse, Parser.call_atEnd _ s h]
  rfl

theorem engine_serve_atEnd (e : Engine g) {r : Request S} (h : r.cursor.atEnd = true) :
    (e.serve r).engine = e := by
  cases r with
  | one s c => exact congrArg Run.engine (e.parseOne_atEnd s h)
  | complete s c => exact congrArg Run.engine (e.parseComplete_atEnd s h)

theorem Faithful.serve_faithfulOn {e : Engine g} (he : e.Faithful) {r : Request S}
    (h : r.cursor.atEnd = false) : (e.serve r).engine.FaithfulOn r.cursor.input := by
  cases r with
  | one s c =>
    change ((Parser.parse s c).runOn e).engine.FaithfulOn c.input
    rw [Parser.engine_runOn]
    exact (Parser.parse_within_on g s h { engine := e } he).2.2
  | complete s c =>
    change ((Parser.parseAll s c).runOn e).engine.FaithfulOn c.input
    rw [Parser.engine_runOn]
    exact (Parser.parseAll_within_on g s h { engine := e } he).2.2

theorem Faithful.serve_onOneInput {e : Engine g} (he : e.Faithful) (r : Request S) :
    OnOneInput e ⟨(e.serve r).engine, (e.serve r).journal.reverse⟩ := by
  rcases (onOneInput_maintained g e).serve he (.start e) (r := r) trivial with
    ⟨v, -, hw⟩ | ⟨halt, -, hw⟩
  · exact hw
  · exact hw

theorem Faithful.resets_serve {e : Engine g} (he : e.Faithful) (r : Request S) :
    (e.serve r).engine.stats.resets =
      e.stats.resets + (e.serve r).journal.countP Event.isReset := by
  have hresets := (he.serve_onOneInput r).resets_eq
  rwa [List.countP_reverse] at hresets

theorem Faithful.isReset_tail {e : Engine g} (he : e.Faithful) (r : Request S) :
    ∀ event ∈ (e.serve r).journal.tail, event.isReset = false := by
  intro event hmem
  refine (he.serve_onOneInput r).first event ?_
  rwa [List.dropLast_reverse, List.mem_reverse]

/-- A call that drops the table does so before anything else. -/
theorem Faithful.journal_of_reset {e : Engine g} (he : e.Faithful) {r : Request S}
    (h : e.stats.resets < (e.serve r).engine.stats.resets) :
    ∃ remembered rest, (e.serve r).journal = .newInput remembered :: rest ∧
      ∀ event ∈ rest, event.isReset = false := by
  have hlater := he.isReset_tail r
  have hpos : 0 < (e.serve r).journal.countP Event.isReset := by
    rw [he.resets_serve r] at h
    omega
  obtain ⟨event, hmem, hreset⟩ := List.countP_pos_iff.mp hpos
  obtain ⟨first, rest, hjournal⟩ := List.exists_cons_of_ne_nil (List.ne_nil_of_mem hmem)
  rw [hjournal] at hmem hlater
  rcases List.mem_cons.mp hmem with rfl | hrest
  · cases event with
    | newInput remembered => exact ⟨remembered, rest, hjournal, hlater⟩
    | _ => cases hreset
  · rw [hlater event hrest] at hreset
    cases hreset

theorem Faithful.resets_eq_countP {e : Engine g} (he : e.Faithful) (history : List (Request S)) :
    (e.serveAll history).stats.resets =
      e.stats.resets + (e.journal history).countP Event.isReset := by
  induction history generalizing e with
  | nil => rfl
  | cons r rest ih =>
    have hrest : (e.serveAll (r :: rest)).stats.resets =
        (e.serve r).engine.stats.resets + ((e.serve r).engine.journal rest).countP Event.isReset :=
      ih (he.serve r)
    rw [hrest, he.resets_serve r, journal, List.countP_append, Nat.add_assoc]

/-- Each call counts a reset just if it switches inputs. -/
theorem Faithful.resets_serveAll {e : Engine g} (he : e.Faithful) (history : List (Request S)) :
    (e.serveAll history).stats.resets = e.stats.resets + switches e.input? history := by
  induction history generalizing e with
  | nil => rfl
  | cons r rest ih =>
    have hrest : (e.serveAll (r :: rest)).stats.resets =
        (e.serve r).engine.stats.resets + switches (e.serve r).engine.input? rest :=
      ih (he.serve r)
    rw [hrest, switches]
    cases hend : r.cursor.atEnd with
    | true => simp only [e.engine_serve_atEnd hend, if_true]
    | false =>
      have hinput := (he.serve_faithfulOn hend).input_eq
      have hresets := (he.serve_onOneInput r).resets_of_switched
      simp only [hinput, eq_comm (a := some r.cursor.input)] at hresets
      rw [hresets, hinput]
      simp only [Bool.false_eq_true, if_false]
      split
      · rename_i hsame
        rw [hsame, Nat.add_zero]
      · rw [Nat.add_assoc, Nat.add_comm 1]

/-- The resets that an engine counts are the switches of inputs in its history. Of the events of a
call only the first can be a reset, so none is due to a nested call. A call where the input is used
up finds nothing and does nothing: table, counters, input and registry are left as they are. -/
theorem resets_eq_switches (g : Grammar S V) (memoize : Bool) (history : List (Request S)) :
    let e := (fresh g memoize).serveAll history
    e.stats.resets = switches none history ∧
    (∀ r, (e.serve r).engine.stats.resets =
        e.stats.resets + (e.serve r).journal.countP Event.isReset ∧
      ∀ event ∈ (e.serve r).journal.tail, event.isReset = false) ∧
    ∀ s c, c.atEnd = true →
      e.parseOne s c = ⟨.ok none, e, []⟩ ∧
      e.parseComplete s c =
        ⟨.error (.failure (.parse ("expected " ++ g.name s) c.first)), e, []⟩ := by
  intro e
  have he : e.Faithful := (fresh_faithful g memoize).serveAll history
  refine ⟨?_, fun r => ⟨he.resets_serve r, he.isReset_tail r⟩, fun s c hend => ?_⟩
  · have hresets := (fresh_faithful g memoize).resets_serveAll history
    rwa [show (fresh g memoize).stats.resets = 0 from rfl, Nat.zero_add] at hresets
  · exact ⟨e.parseOne_atEnd s hend, e.parseComplete_atEnd s hend⟩

end Engine

namespace Sample

/-- The same tokens as in the sum that breaks off, in another input. -/
def twin : Input := { dangling with id := 1 }

/-- Calls on either input, one where the tokens are used up, and one that fails. -/
def alternating : List (Request Symbol) :=
  [.one .term dangling.start, .one .term twin.start, .complete .term (dangling.start.drop 2),
    .one .expr twin.start, .one .term dangling.start]

/-- Equal tokens do not make the inputs the same, and the call without tokens is passed over. -/
theorem alternating_resets :
    let e := (Engine.fresh grammar true).serveAll alternating
    e.stats.resets = 3 ∧
    (∀ event ∈ (e.serve (.one .expr twin.start)).journal.tail, event.isReset = false) ∧
    (twin.start.drop 2).atEnd = true ∧
    e.parseOne .term (twin.start.drop 2) = ⟨.ok none, e, []⟩ := by
  intro e
  obtain ⟨hresets, hcalls, hatEnd⟩ := Engine.resets_eq_switches grammar true alternating
  have hthree : switches none alternating = 3 := rfl
  have hend : (twin.start.drop 2).atEnd = true := rfl
  exact ⟨hresets.trans hthree, (hcalls (.one .expr twin.start)).2, hend,
    (hatEnd .term (twin.start.drop 2) hend).1⟩

end Sample

end Packrat
