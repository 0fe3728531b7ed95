import Packrat.Proofs.Invariants

/-!
What engines know of the declarations. The registry holds the valid symbols that were called for,
in the order in which they first were. A valid declaration is built once in the life of the
engine, whatever inputs it sees; an invalid one is built once by each call that it puts an end to.
-/
namespace Packrat

variable {S : Type} {V : S → Type} {g : Grammar S V}

namespace Event

/-- The symbol that an event calls for or builds. -/
def subject? : Event S → Option S
  | called s _ | built s => some s
  | _ => none

def registered? : Event S → Option S
  | registered s => some s
  | _ => none

theorem subject?_of_isRemark {event : Event S} (h : event.isRemark = true) :
    event.subject? = none := by
  cases event <;> first | rfl | cases h

theorem registered?_of_isRemark {event : Event S} (h : event.isRemark = true) :
    event.registered? = none := by
  cases event <;> first | rfl | cases h

end Event

theorem Grammar.not_isValid {s : S} {flaw : Flaw} (h : (g.shape s).flaw? = some flaw) :
    g.isValid s ≠ true := by
  simp [isValid, h]

variable [DecidableEq S]

/-- The declaration of `s` is built once if `s` is called for, and not at all otherwise. -/
def BuiltOnce (s : S) (journal : List (Event S)) : Prop :=
  journal.count (.built s) ≤ 1 ∧ (.built s ∈ journal ↔ ∃ left, .called s left ∈ journal)

namespace BuiltOnce

variable {s : S} {log : List (Event S)}

theorem of_not_mem (h : ∀ event ∈ log, event.subject? ≠ some s) : BuiltOnce s log := by
  have hbuilt : .built s ∉ log := fun hmem => h _ hmem rfl
  refine ⟨(List.count_eq_zero.mpr hbuilt).le.trans (Nat.zero_le 1), ?_⟩
  exact iff_of_false hbuilt fun ⟨left, hmem⟩ => h _ hmem rfl

theorem cons (h : BuiltOnce s log) {event : Event S} (hevent : event.subject? ≠ some s) :
    BuiltOnce s (event :: log) := by
  have hbuilt : event ≠ .built s := fun heq => hevent (by rw [heq]; rfl)
  have hcalled : ∀ left, event ≠ .called s left := fun left heq => hevent (by rw [heq]; rfl)
  obtain ⟨honce, hiff⟩ := h
  refine ⟨by rwa [List.count_cons_of_ne hbuilt], ?_⟩
  simpa [hbuilt.symm, fun left => (hcalled left).symm] using hiff

theorem again (h : BuiltOnce s log) (hmem : .built s ∈ log) (left : Nat) :
    BuiltOnce s (.called s left :: log) := by
  refine ⟨?_, ?_⟩
  · rw [List.count_cons_of_ne (by simp)]
    exact h.1
  · exact iff_of_true (List.mem_cons_of_mem _ hmem) ⟨left, List.mem_cons_self⟩

theorem first (hnot : .built s ∉ log) (left : Nat) :
    BuiltOnce s (.built s :: .called s left :: log) := by
  refine ⟨?_, ?_⟩
  · rw [List.count_cons_self, List.count_cons_of_ne (by simp), List.count_eq_zero.mpr hnot]
  · exact iff_of_true List.mem_cons_self ⟨left, by simp⟩

theorem reverse (h : BuiltOnce s log) : BuiltOnce s log.reverse := by
  simpa [BuiltOnce] using h

end BuiltOnce

namespace Engine

/-- The registry of an engine, in view of the log of all that it has done, latest event first. -/
structure Enrolled (e : Engine g) (log : List (Event S)) : Prop where
  found : ∀ s left, (e.find? s left).isSome → s ∈ e.registry
  valid : ∀ s ∈ e.registry, g.isValid s = true
  registry_eq : e.registry = log.filterMap Event.registered?
  built_iff : ∀ s, g.isValid s = true → (.built s ∈ log ↔ s ∈ e.registry)
  once : ∀ s, g.isValid s = true → BuiltOnce s log

namespace Enrolled

variable {e e' : Engine g} {log : List (Event S)} {event : Event S} {s : S}

theorem fresh (g : Grammar S V) (memoize : Bool) : (fresh g memoize).Enrolled [] where
  found s left h := by
    unfold find? at h
    split at h <;> cases h
  valid := by simp [Engine.fresh]
  registry_eq := rfl
  built_iff := by simp [Engine.fresh]
  once s _ := .of_not_mem (by simp)

/-- An event that is of no concern to valid symbols. -/
theorem aside (h : e.Enrolled log) (hregistry : e'.registry = e.registry)
    (hfound : ∀ s left, (e'.find? s left).isSome → s ∈ e.registry)
    (hsubject : ∀ s, event.subject? = some s → g.isValid s ≠ true)
    (hregistered : event.registered? = none) : e'.Enrolled (event :: log) where
  found := by rwa [hregistry]
  valid := by rw [hregistry]; exact h.valid
  registry_eq := by rw [hregistry, h.registry_eq, List.filterMap_cons_none hregistered]
  built_iff s hvalid := by
    have hne : .built s ≠ event := by
      rintro rfl
      exact hsubject s rfl hvalid
    rw [hregistry, ← h.built_iff s hvalid, List.mem_cons, or_iff_right hne]
  once s hvalid := (h.once s hvalid).cons fun hs => hsubject s hs hvalid

/-- A symbol that is registered is called for. -/
theorem again (h : e.Enrolled log) (hregistry : e'.registry = e.registry)
    (hfind : ∀ s left, e'.find? s left = e.find? s left) (hs : s ∈ e.registry) (left : Nat) :
    e'.Enrolled (.called s left :: log) where
  found t n := by rw [hfind, hregistry]; exact h.found t n
  valid := by rw [hregistry]; exact h.valid
  registry_eq := by rw [hregistry, h.registry_eq]; rfl
  built_iff t hvalid := by rw [hregistry, ← h.built_iff t hvalid]; simp
  once t hvalid := by
    by_cases heq : t = s
    · subst heq
      exact (h.once t hvalid).again ((h.built_iff t hvalid).mpr hs) left
    · exact (h.once t hvalid).cons fun hsub => heq (Option.some.inj hsub).symm

/-- A valid symbol that is not registered yet is called for. -/
theorem first (h : e.Enrolled log) (hvalid : g.isValid s = true) (hs : s ∉ e.registry)
    (hregistry : e'.registry = s :: e.registry)
    (hfind : ∀ s left, e'.find? s left = e.find? s left) (left : Nat) :
    e'.Enrolled (.registered s :: .built s :: .called s left :: log) where
  found t n hsome := by
    rw [hfind] at hsome
    rw [hregistry]
    exact List.mem_cons_of_mem s (h.found t n hsome)
  valid := by
    rw [hregistry]
    exact List.forall_mem_cons.mpr ⟨hvalid, h.valid⟩
  registry_eq := by rw [hregistry, h.registry_eq]; rfl
  built_iff t ht := by
    rw [hregistry, List.mem_cons (a := t), ← h.built_iff t ht]
    simp
  once t ht := by
    by_cases heq : t = s
    · subst heq
      have hnot : .built t ∉ log := by rwa [h.built_iff t ht]
      exact (BuiltOnce.first hnot left).cons (by simp [Event.subject?])
    · have hcalled : BuiltOnce t (.called s left :: log) :=
        (h.once t ht).cons fun hst => heq (Option.some.inj hst).symm
      have hbuilt : BuiltOnce t (.built s :: .called s left :: log) :=
        hcalled.cons fun hst => heq (Option.some.inj hst).symm
      exact hbuilt.cons (by simp [Event.subject?])

/-- The table keeps what it had, or some of it. -/
theorem minor (h : e.Enrolled log) (hregistry : e'.registry = e.registry)
    (hfound : ∀ s left, (e'.find? s left).isSome → s ∈ e.registry)
    (hsubject : event.subject? = none) (hregistered : event.registered? = none) :
    e'.Enrolled (event :: log) :=
  h.aside hregistry hfound (fun s hs => by rw [hsubject] at hs; cases hs) hregistered

end Enrolled

end Engine

/-- A run after `past` that has not met an invalid declaration. The symbols that it evaluates are
registered. -/
structure Enrolling (past : List (Event S)) (stack : List (S × Nat)) (w : Work g) : Prop where
  enrolled : w.engine.Enrolled (w.journal ++ past)
  sound : ∀ event ∈ w.journal, ∀ s, event.subject? = some s → g.isValid s = true
  registered : ∀ entry ∈ stack, entry.1 ∈ w.engine.registry

/-- An ended run. An invalid declaration is built once if it was called for, and has ended it. -/
structure Ended (past : List (Event S)) (halt : Halt) (w : Work g) : Prop where
  enrolled : w.engine.Enrolled (w.journal ++ past)
  flawed : ∀ s flaw, (g.shape s).flaw? = some flaw → BuiltOnce s w.journal ∧
    (.built s ∈ w.journal → halt = .failure (.declaration (g.name s) flaw))

theorem Ended.failed {past : List (Event S)} {halt : Halt} {w : Work g} (h : Ended past halt w)
    (s : S) (left : Nat) : Ended past halt (w.noting (.failed s left halt)) where
  enrolled := h.enrolled.minor rfl h.enrolled.found rfl rfl
  flawed t flaw hflaw := by
    obtain ⟨honce, hhalt⟩ := h.flawed t flaw hflaw
    refine ⟨honce.cons (by simp [Event.subject?]), fun hmem => hhalt ?_⟩
    simpa [Work.noting] using hmem

namespace Enrolling

variable {past : List (Event S)} {stack : List (S × Nat)} {w : Work g} {e : Engine g}
  {event : Event S} {s : S}

theorem not_subject (h : Enrolling past stack w) {flaw : Flaw}
    (hflaw : (g.shape s).flaw? = some flaw) : ∀ event ∈ w.journal, event.subject? ≠ some s := by
  intro event hmem hs
  exact Grammar.not_isValid hflaw (h.sound event hmem s hs)

theorem ended (h : Enrolling past stack w) (halt : Halt) : Ended past halt w where
  enrolled := h.enrolled
  flawed s flaw hflaw := by
    have hnot := h.not_subject hflaw
    exact ⟨.of_not_mem hnot, fun hmem => (hnot _ hmem rfl).elim⟩

theorem minor (h : Enrolling past stack w) (hregistry : e.registry = w.engine.registry)
    (hfound : ∀ s left, (e.find? s left).isSome → s ∈ w.engine.registry)
    (hsubject : event.subject? = none) (hregistered : event.registered? = none) :
    Enrolling past stack ⟨e, event :: w.journal⟩ where
  enrolled := h.enrolled.minor hregistry hfound hsubject hregistered
  sound := by
    refine List.forall_mem_cons.mpr ⟨fun s hs => ?_, h.sound⟩
    rw [hsubject] at hs
    cases hs
  registered entry hmem := by
    rw [hregistry]
    exact h.registered entry hmem

theorem again (h : Enrolling past stack w) (hs : s ∈ w.engine.registry) (left : Nat) :
    Enrolling past stack (w.lookingUp s left) where
  enrolled := h.enrolled.again (Engine.registry_count _ _) (Engine.find?_count _ _) hs left
  sound := by
    refine List.forall_mem_cons.mpr ⟨?_, h.sound⟩
    rintro t ⟨⟩
    exact h.enrolled.valid s hs
  registered entry hmem := by
    rw [Work.registry_lookingUp]
    exact h.registered entry hmem

theorem first (h : Enrolling past stack w) (hvalid : g.isValid s = true)
    (hs : s ∉ w.engine.registry) (left : Nat) :
    Enrolling past stack ⟨(w.lookingUp s left).engine.register s,
      .registered s :: .built s :: .called s left :: w.journal⟩ := by
  have hregistry : ((w.lookingUp s left).engine.register s).registry = s :: w.engine.registry :=
    congrArg (s :: ·) (w.registry_lookingUp s left)
  refine ⟨h.enrolled.first hvalid hs hregistry (Engine.find?_count _ _) left, ?_, ?_⟩
  · simp only [List.forall_mem_cons]
    refine ⟨?_, ?_, ?_, h.sound⟩
    · rintro t ⟨⟩
    · rintro t ⟨⟩
      exact hvalid
    · rintro t ⟨⟩
      exact hvalid
  · intro entry hmem
    rw [hregistry]
    exact List.mem_cons_of_mem s (h.registered entry hmem)

/-- The evaluation of a symbol begins; its declaration is valid. -/
theorem entering (h : Enrolling past stack w) (hvalid : g.isValid s = true) (left : Nat) :
    Enrolling past ((s, left) :: stack) (w.entering s left) := by
  have hregistered : Enrolling past stack ((w.lookingUp s left).registering s) := by
    unfold Work.registering
    split
    · rename_i hs
      rw [w.registry_lookingUp] at hs
      exact h.again hs left
    · rename_i hs
      rw [w.registry_lookingUp] at hs
      exact h.first hvalid hs left
  have hentered : Enrolling past stack (w.entering s left) :=
    hregistered.minor rfl hregistered.enrolled.found rfl rfl
  exact ⟨hentered.enrolled, hentered.sound,
    List.forall_mem_cons.mpr ⟨w.mem_registry_entering s left, hentered.registered⟩⟩

theorem settling {c : Cursor} (h : Enrolling past ((s, c.size) :: stack) w)
    (hinput : w.engine.input? = some c.input) (o : Outcome (V s)) :
    Enrolling past stack (w.settling s c.size o) := by
  obtain ⟨hs, hstack⟩ := List.forall_mem_cons.mp h.registered
  have hopen : Enrolling past stack w := ⟨h.enrolled, h.sound, hstack⟩
  refine hopen.minor (w.engine.registry_remember s c.size o) (fun t left hsome => ?_) rfl rfl
  by_cases hsame : t = s ∧ left = c.size
  · rw [hsame.1]
    exact hs
  · rw [Engine.find?_remember_ne hinput s o (not_and_or.mp hsame)] at hsome
    exact h.enrolled.found t left hsome

theorem consulting {left : Nat} (h : Enrolling past stack w) :
    Enrolling past stack (w.noting (.consulted s left)) :=
  h.minor rfl h.enrolled.found rfl rfl

/-- An invalid declaration is built, since it cannot have been registered. -/
theorem building (h : Enrolling past stack w) {flaw : Flaw}
    (hflaw : (g.shape s).flaw? = some flaw) (left : Nat) :
    Ended past (.failure (.declaration (g.name s) flaw)) ((w.lookingUp s left).building s) := by
  have hs : s ∉ (w.lookingUp s left).engine.registry := fun hmem => by
    rw [w.registry_lookingUp] at hmem
    exact Grammar.not_isValid hflaw (h.enrolled.valid s hmem)
  have hsubject : ∀ t, (some s : Option S) = some t → g.isValid t ≠ true := by
    rintro t ⟨⟩
    exact Grammar.not_isValid hflaw
  rw [Work.building, if_neg hs]
  constructor
  · have hfind : ∀ t n, (w.lookingUp s left).engine.find? t n = w.engine.find? t n :=
      Engine.find?_count _ _
    have hcalled : (w.lookingUp s left).engine.Enrolled (.called s left :: w.journal ++ past) :=
      h.enrolled.aside (w.registry_lookingUp s left)
        (fun t n hsome => h.enrolled.found t n (by rwa [← hfind])) hsubject rfl
    exact hcalled.aside rfl hcalled.found hsubject rfl
  · intro t flaw' hflaw'
    have hnot := h.not_subject hflaw'
    by_cases heq : t = s
    · subst heq
      rw [hflaw] at hflaw'
      cases hflaw'
      exact ⟨.first (fun hmem => hnot _ hmem rfl) left, fun _ => rfl⟩
    · have hbefore : ∀ event ∈ (((w.lookingUp s left).noting (.built s)).journal),
          event.subject? ≠ some t := by
        have hne : (some s : Option S) ≠ some t := fun hst => heq (Option.some.inj hst).symm
        exact List.forall_mem_cons.mpr ⟨hne, List.forall_mem_cons.mpr ⟨hne, hnot⟩⟩
      exact ⟨.of_not_mem hbefore, fun hmem => (hbefore _ hmem rfl).elim⟩

end Enrolling

theorem enrolling_upheld (g : Grammar S V) (past : List (Event S)) :
    Parser.Upheld g (Enrolling past) (Ended past) where
  reset h _ := h.minor rfl (fun s left hsome => by
    rw [Engine.find?_switch] at hsome
    cases hsome) rfl rfl
  hit h hfind := h.again (h.enrolled.found _ _ (by rw [hfind]; rfl)) _
  invalid h _ hchecked := by
    obtain ⟨flaw, hflaw, rfl⟩ := Grammar.checked_eq_error_iff.mp hchecked
    exact h.building hflaw _
  enter h _ hchecked _ := h.entering (Grammar.checked_eq_ok_iff.mp hchecked).1 _
  remark h hremark := h.minor rfl h.enrolled.found (Event.subject?_of_isRemark hremark)
    (Event.registered?_of_isRemark hremark)
  leave o h hinput _ := h.settling hinput o
  consult o h _ hchecked _ hinput _ :=
    (h.entering (Grammar.checked_eq_ok_iff.mp hchecked).1 _).consulting.settling
      ((Work.input_entering ..).trans hinput) o
  refuse error h := h.ended _
  failed s left h := h.failed s left

namespace Engine

/-- A call keeps the registry in order. An invalid declaration that it comes to is built once, and
is the reason why it fails. -/
theorem Enrolled.serve {e : Engine g} {past : List (Event S)} (h : e.Enrolled past)
    (hg : g.LeftRecursionFree) (he : e.Faithful) (r : Request S) :
    (e.serve r).engine.Enrolled ((e.serve r).journal.reverse ++ past) ∧
    ∀ s flaw, (g.shape s).flaw? = some flaw → BuiltOnce s (e.serve r).journal ∧
      (.built s ∈ (e.serve r).journal →
        (e.serve r).answer = .error (.failure (.declaration (g.name s) flaw))) := by
  have hstart : Enrolling past [] { engine := e } := ⟨h, by simp, by simp⟩
  rcases (enrolling_upheld g past).serve hg he hstart r with ⟨v, -, hw⟩ | ⟨halt, hhalt, hw⟩
  · refine ⟨hw.enrolled, fun s flaw hflaw => ?_⟩
    have hnot := hw.not_subject hflaw
    exact ⟨by simpa using (BuiltOnce.of_not_mem hnot).reverse,
      fun hmem => (hnot _ (List.mem_reverse.mpr hmem) rfl).elim⟩
  · refine ⟨hw.enrolled, fun s flaw hflaw => ?_⟩
    obtain ⟨honce, hcause⟩ := hw.flawed s flaw hflaw
    exact ⟨by simpa using honce.reverse,
      fun hmem => by rw [hhalt, hcause (List.mem_reverse.mpr hmem)]⟩

theorem enrolled_serveAll (hg : g.LeftRecursionFree) (memoize : Bool)
    (history : List (Request S)) :
    ((fresh g memoize).serveAll history).Enrolled ((fresh g memoize).journal history).reverse := by
  simpa using serveAll_keeps (fun he h r => (h.serve hg he r).1) (fresh_faithful g memoize)
    (Enrolled.fresh g memoize) history

end Engine

end Packrat
