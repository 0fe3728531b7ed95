import Packrat.Proofs.Memoization
import Packrat.Proofs.Unwinding

/-!
Which declarations are usable. The text of a grammar looks at all symbols that its root leads to,
an engine at those that the input makes it call; the latter are always among the former. So a
grammar that has a text is never found to be misdeclared later on, whatever it is used for.
-/
namespace Packrat

variable {S : Type} {V : S → Type} {g : Grammar S V} {α : Type}

/-- A call of `u` failed with the error of its own declaration. -/
def Run.Rejects (run : Run g α) (u : S) (error : Error) : Prop :=
  g.checked u = .error error ∧ ∃ left, .failed u left (.failure error) ∈ run.journal

namespace Grammar

/-- The assembler of `s` refuses some fields with the error. -/
def AssemblerMakes (g : Grammar S V) (s : S) (error : Error) : Prop :=
  ∃ seq fields left, g.shape s = .sequence seq ∧ seq.assemble fields = .error error left

/-- Every failure is raised by a symbol that the one called leads to. -/
theorem exists_raises_of_read_error {depth : Nat} {s : S} {c : Cursor} {error : Error}
    (h : g.read depth s c = .error (.failure error)) :
    ∃ depth' t d, g.LeadsTo s t ∧ c ≤ d ∧ g.Raises (g.read depth') t d error := by
  induction depth generalizing s c with
  | zero =>
    rw [read] at h
    split at h <;> cases h
  | succ depth ih =>
    cases hend : c.atEnd with
    | true =>
      rw [read_atEnd _ s hend] at h
      cases h
    | false =>
      rw [read_succ depth s hend] at h
      rcases readSymbol_error (read_sound g depth) h with
        ⟨error', herror, hraises⟩ | ⟨t, d, hmentions, hd, -, hfailed⟩
      · cases herror
        exact ⟨depth, s, c, .refl, le_rfl, hraises⟩
      · obtain ⟨depth', u, e, hleads, he, hraises⟩ := ih hfailed
        exact ⟨depth', u, e, .head hmentions hleads, hd.trans he, hraises⟩

/-- Where all declarations are valid, only assemblers make declaration errors. -/
theorem assemblerMakes_of_meaning {s : S} (hvalid : ∀ t, g.LeadsTo s t → g.isValid t = true)
    {c : Cursor} {name : String} {flaw : Flaw}
    (h : g.meaning s c = .error (.failure (.declaration name flaw))) :
    ∃ t, g.LeadsTo s t ∧ g.AssemblerMakes t (.declaration name flaw) := by
  obtain ⟨depth, t, d, hleads, -, hraises⟩ := exists_raises_of_read_error h
  cases hraises with
  | declaration hflaw => exact (not_isValid hflaw (hvalid t hleads)).elim
  | assembler hshape _ herror => exact ⟨t, hleads, _, _, _, hshape, herror⟩

end Grammar

/-- All calls that have failed are of symbols that `root` leads to. -/
def FailedWithin (root : S) (w : Work g) : Prop :=
  ∀ s left halt, .failed s left halt ∈ w.journal → g.LeadsTo root s

namespace FailedWithin

variable {root s : S} {w : Work g} {e : Engine g} {event : Event S}

theorem step (h : FailedWithin root w)
    (hevent : ∀ s left halt, event = .failed s left halt → g.LeadsTo root s) :
    FailedWithin root ⟨e, event :: w.journal⟩ := by
  intro s left halt hmem
  rcases List.mem_cons.mp hmem with heq | hmem
  · exact hevent s left halt heq.symm
  · exact h s left halt hmem

theorem failed (h : FailedWithin root w) (hs : g.LeadsTo root s) (left : Nat) (halt : Halt) :
    FailedWithin root (w.noting (.failed s left halt)) :=
  h.step fun _ _ _ heq => by cases heq; exact hs

theorem incident (h : FailedWithin root w) (hincident : event.isIncident = true) :
    FailedWithin root ⟨e, event :: w.journal⟩ :=
  h.step fun _ _ _ heq => by subst heq; cases hincident

end FailedWithin

variable [DecidableEq S]

/-- Calls stay among the symbols that `root` leads to. -/
theorem failedWithin_maintained (g : Grammar S V) (root : S) :
    Parser.Maintained g (g.LeadsTo root) (fun _ => FailedWithin root)
      (fun _ _ => FailedWithin root) where
  closed hs hmentions := hs.tail hmentions
  reset h _ := h.incident rfl
  hit _ h _ := h.incident rfl
  enter _ h _ _ := (Work.registering_of_incidents (fun h => h.incident) h _ _).step nofun
  inner h hinner := h.incident (Event.isIncident_of_isInner hinner)
  leave _ h := h.step nofun
  stop _ h := h
  refuse _ h := h.step nofun
  invalid hs h _ _ := (Work.building_of_incidents (fun h => h.incident) h _ _).failed hs _ _
  failed hs h _ := h.failed hs _ _

namespace Engine

theorem Faithful.failed_leadsTo {e : Engine g} (he : e.Faithful) {r : Request S} {s : S}
    {left : Nat} {halt : Halt} (hmem : .failed s left halt ∈ (e.serve r).journal) :
    g.LeadsTo r.symbol s := by
  have hmem' := List.mem_reverse.mpr hmem
  have hstart : FailedWithin r.symbol ({ engine := e } : Work g) := by simp [FailedWithin]
  rcases (failedWithin_maintained g r.symbol).serve he hstart (r := r) .refl with
    ⟨v, -, hw⟩ | ⟨halt', -, hw⟩
  · exact hw s left halt hmem'
  · exact hw s left halt hmem'

/-- What puts an end to a run, the text shows. -/
theorem Faithful.rejects {e : Engine g} (he : e.Faithful) {r : Request S} {u : S} {error : Error}
    (h : (e.serve r).Rejects u error) :
    (e.serve r).answer = .error (.failure error) ∧ g.LeadsTo r.symbol u ∧
      g.isValid u = false := by
  obtain ⟨hchecked, left, hmem⟩ := h
  obtain ⟨flaw, hflaw, -⟩ := Grammar.checked_eq_error_iff.mp hchecked
  exact ⟨(he.unwinds_of_error hmem rfl).1, he.failed_leadsTo hmem, by simp [Grammar.isValid, hflaw]⟩

theorem Faithful.assemblerMakes {e : Engine g} (he : e.Faithful) {r : Request S}
    (hvalid : ∀ u, g.LeadsTo r.symbol u → g.isValid u = true) {name : String} {flaw : Flaw}
    (h : (e.serve r).answer = .error (.failure (.declaration name flaw))) :
    ∃ u, g.LeadsTo r.symbol u ∧ g.AssemblerMakes u (.declaration name flaw) := by
  rw [he.answer_serve] at h
  cases r with
  | one s c => exact Grammar.assemblerMakes_of_meaning hvalid h
  | complete s c =>
    rcases bind_eq_error_iff.mp h with h | ⟨o, -, h⟩
    · exact Grammar.assemblerMakes_of_meaning hvalid h
    · cases o with
      | none => cases h
      | some m =>
        simp only at h
        split at h <;> cases h

/-- The text of a grammar and the runs of its engines agree on what can be used. The root has no
text just if it leads to an invalid declaration. If it has one, no call of it ever fails because of
a declaration; the declaration errors that remain are made by assemblers. A call that does fail so
fails with the error of a symbol that the root leads to, and the root has no text. -/
theorem rejects_only_without_text {e : Engine g} (he : e.Reachable) (r : Request S) :
    ((∃ error, g.text r.symbol = .error error) ↔
      ∃ u, g.LeadsTo r.symbol u ∧ g.isValid u = false) ∧
    ((∃ text, g.text r.symbol = .ok text) →
      (∀ u error, ¬ (e.serve r).Rejects u error) ∧
      ∀ name flaw, (e.serve r).answer = .error (.failure (.declaration name flaw)) →
        ∃ u, g.LeadsTo r.symbol u ∧ g.AssemblerMakes u (.declaration name flaw)) ∧
    ∀ u error, (e.serve r).Rejects u error →
      (e.serve r).answer = .error (.failure error) ∧ g.LeadsTo r.symbol u ∧
      ∃ error', g.text r.symbol = .error error' := by
  have hflawed : ∀ {u error}, (e.serve r).Rejects u error →
      ∃ error', g.text r.symbol = .error error' := fun h =>
    Grammar.text_eq_error_iff.mpr ⟨_, (he.faithful.rejects h).2⟩
  refine ⟨Grammar.text_eq_error_iff, ?_, fun u error h => ?_⟩
  · rintro ⟨text, htext⟩
    have hno : ¬ ∃ error, g.text r.symbol = .error error := by simp [htext]
    refine ⟨fun u error h => hno (hflawed h), fun name flaw h => ?_⟩
    refine he.faithful.assemblerMakes (fun u hu => ?_) h
    by_contra hinvalid
    exact hno (Grammar.text_eq_error_iff.mpr ⟨u, hu, by simpa using hinvalid⟩)
  · obtain ⟨hanswer, hleads, -⟩ := he.faithful.rejects h
    exact ⟨hanswer, hleads, hflawed h⟩

end Engine

namespace Schema

/-- The pair has no text because of the alternation, and a call of it fails for the same reason.
The number has a text, and no call of it ever fails so. -/
theorem stub_rejects :
    let run := (Engine.fresh (grammar stub) true).serve (.one 2 digits.start)
    (run.Rejects 1 (.declaration "Stub" .noAlternatives) ∧
      ∃ error, (grammar stub).text 2 = .error error) ∧
    ∀ memoize history u error,
      ¬ (((Engine.fresh (grammar stub) memoize).serveAll history).serve
        (.one 0 digits.start)).Rejects u error := by
  have hrejects : ((Engine.fresh (grammar stub) true).serve (.one 2 digits.start)).Rejects 1
      (.declaration "Stub" .noAlternatives) := ⟨rfl, 1, by decide⟩
  obtain ⟨-, -, hrejected⟩ := Engine.rejects_only_without_text
    (Engine.fresh_reachable (grammar stub) true) (.one 2 digits.start)
  refine ⟨⟨hrejects, (hrejected _ _ hrejects).2.2⟩, fun memoize history => ?_⟩
  have htext : (grammar stub).text 0 = .ok "Number = ...." := rfl
  exact ((Engine.rejects_only_without_text ⟨memoize, history, rfl⟩
    (.one 0 digits.start)).2.1 ⟨_, htext⟩).1

end Schema

end Packrat
