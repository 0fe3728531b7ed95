import Packrat.Proofs.Invariants
import Packrat.Proofs.Labels

/-!
The thrift of engines that memoize. Between two resets of the table, what has been settled is not
evaluated again and no matcher is put twice to one token, although calls may fail in between and
leave the evaluations around them unsettled. Within one call nothing is evaluated twice at all.
-/
namespace Packrat

variable {S : Type} {V : S → Type} {g : Grammar S V}

namespace Event

def isReset : Event S → Bool
  | newInput _ => true
  | _ => false

/-- An event that neither begins nor ends an evaluation, runs no matcher and drops no table. -/
def isAside : Event S → Bool
  | newInput _ | evaluated _ _ | consulted _ _ | settled _ _ => false
  | _ => true

theorem isAside_of_isRemark {event : Event S} (h : event.isRemark = true) :
    event.isAside = true := by
  cases event <;> first | rfl | cases h

theorem isReset_of_isAside {event : Event S} (h : event.isAside = true) :
    event.isReset = false := by
  cases event <;> first | rfl | cases h

end Event

/-- A part of a journal, without a gap, in which the table is not dropped. -/
def Stretch (stretch journal : List (Event S)) : Prop :=
  stretch <:+: journal ∧ ∀ event ∈ stretch, event.isReset = false

/-- What has happened since the table was dropped last, in a log with its latest event first. -/
def sinceReset (log : List (Event S)) : List (Event S) := log.takeWhile fun event => !event.isReset

theorem sinceReset_cons {event : Event S} (h : event.isReset = false) (log : List (Event S)) :
    sinceReset (event :: log) = event :: sinceReset log := by
  simp [sinceReset, h]

theorem sinceReset_append {recent : List (Event S)} (h : ∀ event ∈ recent, event.isReset = false)
    (log : List (Event S)) : sinceReset (recent ++ log) = recent ++ sinceReset log :=
  List.takeWhile_append_of_pos fun event he => by simp [h event he]

/-- A stretch that ends with the latest event has nothing in it from before the last reset. -/
theorem Stretch.cases_cons {stretch log : List (Event S)} {event : Event S}
    (h : Stretch stretch (event :: log)) :
    Stretch stretch log ∨ ∃ rest, stretch = event :: rest ∧ Stretch rest log ∧
      ∀ e ∈ rest, e ∈ sinceReset log := by
  obtain ⟨hpart, hreset⟩ := h
  rcases List.infix_cons_iff.mp hpart with hlatest | hpart
  · cases stretch with
    | nil => exact Or.inl ⟨List.nil_infix, hreset⟩
    | cons first rest =>
      obtain ⟨rfl, earlier, rfl⟩ := List.cons_prefix_cons.mp hlatest
      obtain ⟨-, hrest⟩ := List.forall_mem_cons.mp hreset
      refine Or.inr ⟨rest, rfl, ⟨(List.prefix_append rest earlier).isInfix, hrest⟩, fun e he => ?_⟩
      rw [sinceReset_append hrest]
      exact List.mem_append_left _ he
  · exact Or.inl ⟨hpart, hreset⟩

theorem Stretch.reverse {stretch journal : List (Event S)} (h : Stretch stretch journal) :
    Stretch stretch.reverse journal.reverse :=
  ⟨List.reverse_infix.mpr h.1, fun event he => h.2 event (List.mem_reverse.mp he)⟩

namespace Engine

variable [DecidableEq S]

/-- What is remembered is found, and so is all that was found before. -/
theorem find?_remember {e : Engine g} (hmemoize : e.memoize = true) {c : Cursor}
    (hinput : e.input? = some c.input) (s : S) (o : Outcome (V s)) :
    (e.remember s c.size o).find? s c.size = some o ∧
      ∀ t left, (e.find? t left).isSome → ((e.remember s c.size o).find? t left).isSome := by
  have hself := find?_remember_self hmemoize hinput s o
  refine ⟨hself, fun t left hsome => ?_⟩
  by_cases hsame : t = s ∧ left = c.size
  · obtain ⟨rfl, rfl⟩ := hsame
    rw [hself]
    rfl
  · rwa [find?_remember_ne hinput s o (not_and_or.mp hsame)]

/-- An engine that memoizes, with the log of all that it has done, latest event first. What it has
settled, and where it has run matchers, it finds until the table is dropped. -/
structure Thrifty (e : Engine g) (log : List (Event S)) : Prop where
  memoize : e.memoize = true
  kept : ∀ s left, .settled s left ∈ sinceReset log ∨ .consulted s left ∈ sinceReset log →
    (e.find? s left).isSome
  unrepeated : ∀ stretch, Stretch stretch log → ∀ s left,
    ¬ List.Sublist [.evaluated s left, .settled s left] stretch ∧
      stretch.count (.consulted s left) ≤ 1

namespace Thrifty

variable {e e' : Engine g} {log : List (Event S)} {event : Event S}

theorem fresh (g : Grammar S V) : (fresh g true).Thrifty [] where
  memoize := rfl
  kept := by simp [sinceReset]
  unrepeated stretch hstretch s left := by
    obtain rfl := List.eq_nil_of_infix_nil hstretch.1
    simp

theorem reset (h : e.Thrifty log) (input : Input) :
    (e.switch input).Thrifty (.newInput e.remembered :: log) where
  memoize := h.memoize
  kept := by simp [sinceReset, Event.isReset]
  unrepeated stretch hstretch s left := by
    rcases hstretch.cases_cons with hbefore | ⟨rest, rfl, -⟩
    · exact h.unrepeated stretch hbefore s left
    · cases hstretch.2 _ List.mem_cons_self

/-- The next event. An evaluation begins and a matcher is run only where nothing is found; where
one has ended or the other was done, something is found from then on. -/
theorem cons (h : e.Thrifty log) (hreset : event.isReset = false) (hmemoize : e'.memoize = true)
    (hfound : ∀ s left, (e.find? s left).isSome → (e'.find? s left).isSome)
    (hanew : ∀ s left, event = .evaluated s left ∨ event = .consulted s left →
      e.find? s left = none)
    (hdone : ∀ s left, event = .settled s left ∨ event = .consulted s left →
      (e'.find? s left).isSome) : e'.Thrifty (event :: log) where
  memoize := hmemoize
  kept s left hmem := by
    rw [sinceReset_cons hreset, List.mem_cons, List.mem_cons] at hmem
    rcases hmem with (heq | hmem) | (heq | hmem)
    · exact hdone s left (Or.inl heq.symm)
    · exact hfound s left (h.kept s left (Or.inl hmem))
    · exact hdone s left (Or.inr heq.symm)
    · exact hfound s left (h.kept s left (Or.inr hmem))
  unrepeated stretch hstretch s left := by
    rcases hstretch.cases_cons with hbefore | ⟨rest, rfl, hrest, hsince⟩
    · exact h.unrepeated stretch hbefore s left
    · obtain ⟨hevaluated, hconsulted⟩ := h.unrepeated rest hrest s left
      constructor
      · intro hpair
        rcases List.cons_sublist_cons'.mp hpair with hold | ⟨rfl, hsettled⟩
        · exact hevaluated hold
        · have hmem := hsince _ (List.singleton_sublist.mp hsettled)
          have hkept := h.kept s left (Or.inl hmem)
          rw [hanew s left (Or.inl rfl)] at hkept
          cases hkept
      · by_cases heq : event = .consulted s left
        · have hnot : .consulted s left ∉ rest := fun hmem => by
            have hkept := h.kept s left (Or.inr (hsince _ hmem))
            rw [hanew s left (Or.inr heq)] at hkept
            cases hkept
          rw [heq, List.count_cons_self, List.count_eq_zero.mpr hnot]
        · rwa [List.count_cons_of_ne heq]

theorem mono (h : e.Thrifty log) (hmemoize : e'.memoize = true)
    (hfound : ∀ s left, (e.find? s left).isSome → (e'.find? s left).isSome) :
    e'.Thrifty log where
  memoize := hmemoize
  kept s left hmem := hfound s left (h.kept s left hmem)
  unrepeated := h.unrepeated

theorem aside (h : e.Thrifty log) (hmemoize : e'.memoize = e.memoize)
    (htable : e'.table = e.table) (haside : event.isAside = true) :
    e'.Thrifty (event :: log) := by
  have hfind := find?_of_table_eq hmemoize htable
  refine h.cons (Event.isReset_of_isAside haside) (hmemoize.trans h.memoize) ?_ ?_ ?_
  · exact fun s left hsome => by rwa [hfind]
  · rintro s left (rfl | rfl) <;> cases haside
  · rintro s left (rfl | rfl) <;> cases haside

end Thrifty

end Engine

section Spared

variable [DecidableEq S]

/-- A run after `past`, which has evaluated nothing twice. -/
structure Spared (past : List (Event S)) (w : Work g) : Prop where
  thrifty : w.engine.Thrifty (w.journal ++ past)
  once : ∀ s left, w.journal.count (.evaluated s left) ≤ 1

/-- While the calls of `stack` are evaluated, what else the run has evaluated is found. -/
structure Sparing (past : List (Event S)) (stack : List (S × Nat)) (w : Work g) : Prop
    extends Spared past w where
  held : ∀ s left, .evaluated s left ∈ w.journal →
    (w.engine.find? s left).isSome ∨ (s, left) ∈ stack

variable {past : List (Event S)} {stack : List (S × Nat)} {w : Work g} {e : Engine g}
  {event : Event S}

theorem Spared.aside (h : Spared past w) (hmemoize : e.memoize = w.engine.memoize)
    (htable : e.table = w.engine.table) (haside : event.isAside = true) :
    Spared past ⟨e, event :: w.journal⟩ where
  thrifty := h.thrifty.aside hmemoize htable haside
  once s left := by
    rw [List.count_cons_of_ne]
    · exact h.once s left
    · rintro rfl
      cases haside

namespace Sparing

theorem start (h : e.Thrifty past) : Sparing past [] { engine := e } where
  thrifty := h
  once := by simp
  held := by simp

theorem aside (h : Sparing past stack w) (hmemoize : e.memoize = w.engine.memoize)
    (htable : e.table = w.engine.table) (haside : event.isAside = true) :
    Sparing past stack ⟨e, event :: w.journal⟩ where
  toSpared := h.toSpared.aside hmemoize htable haside
  held s left hmem := by
    rcases List.mem_cons.mp hmem with rfl | hmem
    · cases haside
    · rw [Engine.find?_of_table_eq hmemoize htable]
      exact h.held s left hmem

theorem lookingUp (h : Sparing past stack w) (s : S) (left : Nat) :
    Sparing past stack (w.lookingUp s left) :=
  h.aside (Engine.memoize_count _ _) (Engine.table_count _ _) rfl

theorem building (h : Sparing past stack w) (s : S) : Sparing past stack (w.building s) := by
  unfold Work.building
  split
  · exact h
  · exact h.aside rfl rfl rfl

theorem registering (h : Sparing past stack w) (s : S) :
    Sparing past stack (w.registering s) := by
  unfold Work.registering
  split
  · exact h
  · have hbuilt : Sparing past stack (w.noting (.built s)) := h.aside rfl rfl rfl
    exact hbuilt.aside rfl rfl rfl

/-- What is evaluated is neither found nor under way, so the run has not evaluated it before. -/
theorem evaluated (h : Sparing past stack w) {s : S} {left : Nat}
    (hnone : w.engine.find? s left = none) (hstack : (s, left) ∉ stack) :
    Sparing past ((s, left) :: stack) (w.noting (.evaluated s left)) where
  thrifty := by
    refine h.thrifty.cons rfl h.thrifty.memoize (fun _ _ => id) ?_ ?_
    · rintro t n (heq | heq)
      · cases heq
        exact hnone
      · cases heq
    · rintro t n (heq | heq) <;> cases heq
  once t n := by
    by_cases heq : (Event.evaluated s left : Event S) = .evaluated t n
    · cases heq
      have hnot : .evaluated s left ∉ w.journal := fun hmem => by
        rcases h.held s left hmem with hsome | hmem
        · rw [hnone] at hsome
          cases hsome
        · exact hstack hmem
      rw [Work.noting, List.count_cons_self, List.count_eq_zero.mpr hnot]
    · rw [Work.noting, List.count_cons_of_ne heq]
      exact h.once t n
  held t n hmem := by
    rcases List.mem_cons.mp hmem with heq | hmem
    · cases heq
      exact Or.inr List.mem_cons_self
    · exact (h.held t n hmem).imp_right (List.mem_cons_of_mem _)

theorem entering (h : Sparing past stack w) {s : S} {left : Nat}
    (hnone : w.engine.find? s left = none) (hstack : (s, left) ∉ stack) :
    Sparing past ((s, left) :: stack) (w.entering s left) :=
  ((h.lookingUp s left).registering s).evaluated ((w.find?_entering s left ..).trans hnone) hstack

variable {s : S} {c : Cursor}

/-- What is remembered need not be under way any more. -/
theorem held_remember (h : Sparing past ((s, c.size) :: stack) w)
    (hinput : w.engine.input? = some c.input) (o : Outcome (V s)) (t : S) (left : Nat)
    (hmem : .evaluated t left ∈ w.journal) :
    ((w.engine.remember s c.size o).find? t left).isSome ∨ (t, left) ∈ stack := by
  obtain ⟨hself, hfound⟩ := Engine.find?_remember h.thrifty.memoize hinput s o
  rcases h.held t left hmem with hsome | hmem
  · exact Or.inl (hfound t left hsome)
  · rcases List.mem_cons.mp hmem with heq | hmem
    · cases heq
      rw [hself]
      exact Or.inl rfl
    · exact Or.inr hmem

theorem settled (h : Sparing past stack w) {left : Nat}
    (hsome : (w.engine.find? s left).isSome) :
    Sparing past stack (w.noting (.settled s left)) := by
  refine ⟨⟨h.thrifty.cons rfl h.thrifty.memoize (fun _ _ => id) ?_ ?_, ?_⟩, ?_⟩
  · rintro t n (heq | heq) <;> cases heq
  · rintro t n (heq | heq)
    · cases heq
      exact hsome
    · cases heq
  · intro t n
    rw [Work.noting, List.count_cons_of_ne (by simp)]
    exact h.once t n
  · intro t n hmem
    rcases List.mem_cons.mp hmem with heq | hmem
    · cases heq
    · exact h.held t n hmem

theorem settling (h : Sparing past ((s, c.size) :: stack) w)
    (hinput : w.engine.input? = some c.input) (o : Outcome (V s)) :
    Sparing past stack (w.settling s c.size o) := by
  obtain ⟨hself, hfound⟩ := Engine.find?_remember h.thrifty.memoize hinput s o
  have hmemoize := (w.engine.memoize_remember s c.size o).trans h.thrifty.memoize
  have hremembered : Sparing past stack ⟨w.engine.remember s c.size o, w.journal⟩ :=
    ⟨⟨h.thrifty.mono hmemoize hfound, h.once⟩, h.held_remember hinput o⟩
  exact hremembered.settled (by rw [hself]; rfl)

/-- A matcher is run where nothing is found yet, and its outcome is remembered right after. -/
theorem consulting (h : Sparing past ((s, c.size) :: stack) w)
    (hinput : w.engine.input? = some c.input) (hnone : w.engine.find? s c.size = none)
    (o : Outcome (V s)) :
    Sparing past stack ((w.noting (.consulted s c.size)).settling s c.size o) := by
  obtain ⟨hself, hfound⟩ := Engine.find?_remember h.thrifty.memoize hinput s o
  have hmemoize := (w.engine.memoize_remember s c.size o).trans h.thrifty.memoize
  have hconsulted : Sparing past stack
      ⟨w.engine.remember s c.size o, .consulted s c.size :: w.journal⟩ := by
    refine ⟨⟨h.thrifty.cons rfl hmemoize hfound ?_ ?_, fun t n => ?_⟩, fun t n hmem => ?_⟩
    · rintro t n (heq | heq)
      · cases heq
      · cases heq
        exact hnone
    · rintro t n (heq | heq)
      · cases heq
      · cases heq
        rw [hself]
        rfl
    · rw [List.count_cons_of_ne (by simp)]
      exact h.once t n
    · rcases List.mem_cons.mp hmem with heq | hmem
      · cases heq
      · exact h.held_remember hinput o t n hmem
  exact hconsulted.settled (by rw [hself]; rfl)

end Sparing

theorem sparing_upheld (g : Grammar S V) (past : List (Event S)) :
    Parser.Upheld g (Sparing past) fun _ => Spared past where
  reset h _ := ⟨⟨h.thrifty.reset _, by simp⟩, by simp⟩
  hit h _ := h.lookingUp _ _
  invalid h _ _ := ((h.lookingUp _ _).building _).toSpared
  enter h hnone _ hstack := h.entering hnone hstack
  remark h hremark := h.aside rfl rfl (Event.isAside_of_isRemark hremark)
  leave o h hinput _ := h.settling hinput o
  consult o h hnone _ hstack hinput _ :=
    (h.entering hnone hstack).consulting ((Work.input_entering ..).trans hinput)
      ((Work.find?_entering ..).trans hnone) o
  refuse _ h := h.toSpared
  failed s left h := h.aside rfl rfl rfl

end Spared

namespace Engine

variable [DecidableEq S]

/-- A call of a thrifty engine evaluates nothing twice, and the engine is thrifty still, even if
the call has failed. -/
theorem Thrifty.serve {e : Engine g} {past : List (Event S)} (h : e.Thrifty past)
    (hg : g.LeftRecursionFree) (he : e.Faithful) (r : Request S) :
    Spared past ⟨(e.serve r).engine, (e.serve r).journal.reverse⟩ := by
  rcases (sparing_upheld g past).serve hg he (.start h) r with ⟨_, -, hw⟩ | ⟨_, -, hw⟩
  · exact hw.toSpared
  · exact hw

/-- Between two resets of the table no outcome is evaluated anew after it was settled, and the
matcher of a terminal is run at most once for each number of tokens left. Within one call nothing
is evaluated twice, settled or not. -/
theorem journal_thrifty (hg : g.LeftRecursionFree) (history : List (Request S)) :
    (∀ stretch, Stretch stretch ((fresh g true).journal history) → ∀ s left,
      ¬ List.Sublist [.settled s left, .evaluated s left] stretch ∧
        stretch.count (.consulted s left) ≤ 1) ∧
    ∀ r s left,
      (((fresh g true).serveAll history).serve r).journal.count (.evaluated s left) ≤ 1 := by
  have hthrifty : ((fresh g true).serveAll history).Thrifty
      ((fresh g true).journal history).reverse := by
    simpa using serveAll_keeps (fun he h r => (h.serve hg he r).thrifty) (fresh_faithful g true)
      (Thrifty.fresh g) history
  constructor
  · intro stretch hstretch s left
    obtain ⟨hevaluated, hconsulted⟩ := hthrifty.unrepeated stretch.reverse hstretch.reverse s left
    rw [List.count_reverse] at hconsulted
    exact ⟨fun hpair => hevaluated hpair.reverse, hconsulted⟩
  · intro r s left
    have hfaithful := (fresh_faithful g true).serveAll history
    have honce := (hthrifty.serve hg hfaithful r).once s left
    rwa [List.count_reverse] at honce

end Engine

namespace Sample

/-- Two calls that fail at the same label, and one in between that finds its outcome. -/
def retries : List (Request Symbol) :=
  [.one .expr dangling.start, .one .term dangling.start, .complete .expr dangling.start]

def retried : List (Event Symbol) := (Engine.fresh grammar true).journal retries

/-- The expression, which is never settled, is evaluated twice, its first term only once. -/
theorem retries_thrifty :
    retried.count (.evaluated .expr 2) = 2 ∧ retried.count (.settled .term 2) = 1 ∧
      Stretch retried.tail retried ∧
      ¬ List.Sublist [.settled .term 2, .evaluated .term 2] retried.tail ∧
      retried.tail.count (.consulted .num 2) ≤ 1 := by
  have hstretch : Stretch retried.tail retried := ⟨(List.tail_suffix _).isInfix, by decide⟩
  have hthrifty := (Engine.journal_thrifty leftRecursionFree retries).1 _ hstretch
  exact ⟨by decide, by decide, hstretch, (hthrifty .term 2).1, (hthrifty .num 2).2⟩

end Sample

end Packrat
