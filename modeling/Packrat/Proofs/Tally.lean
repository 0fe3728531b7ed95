import Packrat.Proofs.Occupancy

/-!
What the counters of an engine say. Each call where tokens are left is counted as a hit or as a
miss. A miss begins an evaluation or ends at once, and sooner or later it is settled or fails; what
is settled is kept, so between two resets the misses are the outcomes kept and the calls failed. An
engine without a table counts and keeps nothing.
-/
namespace Packrat

variable {S : Type} {V : S → Type} {g : Grammar S V}

namespace Event

def isCalled : Event S → Bool
  | called _ _ => true
  | _ => false

def isFailed : Event S → Bool
  | failed _ _ _ => true
  | _ => false

/-- The events that bear on the counters. -/
def isTallied (event : Event S) : Bool := event.isCalled || event.isSettled || event.isFailed

theorem isTallied_of_isOpening {event : Event S} (h : event.isOpening = true) :
    event.isTallied = false := by
  cases event <;> first | rfl | cases h

theorem isTallied_of_isInner {event : Event S} (h : event.isInner = true) :
    event.isTallied = false := by
  cases event <;> first | rfl | cases h

end Event

namespace Engine

theorem stats_count {e : Engine g} (h : e.memoize = true) (hit : Bool) :
    (e.count hit).stats.hits = e.stats.hits + hit.toNat ∧
      (e.count hit).stats.misses = e.stats.misses + (!hit).toNat := by
  cases hit
  · simp [count, h]
  · simp [count, h]

/-- An engine that memoizes, with the log of all that it has done. So many of the calls that were
missed are still under way. -/
structure Tallied (e : Engine g) (log : List (Event S)) (underway : Nat) : Prop where
  memoize : e.memoize = true
  called_eq : e.stats.hits + e.stats.misses = log.countP Event.isCalled
  misses_eq : e.stats.misses =
    log.countP Event.isSettled + log.countP Event.isFailed + underway

namespace Tallied

variable {e e' : Engine g} {log : List (Event S)} {event : Event S} {underway : Nat}

theorem fresh (g : Grammar S V) : (fresh g true).Tallied [] 0 := ⟨rfl, rfl, rfl⟩

theorem aside (h : e.Tallied log underway) (hmemoize : e'.memoize = e.memoize)
    (hhits : e'.stats.hits = e.stats.hits) (hmisses : e'.stats.misses = e.stats.misses)
    (hevent : event.isTallied = false) : e'.Tallied (event :: log) underway := by
  simp only [Event.isTallied, Bool.or_eq_false_iff] at hevent
  obtain ⟨⟨hcalled, hsettled⟩, hfailed⟩ := hevent
  refine ⟨hmemoize.trans h.memoize, ?_, ?_⟩
  · rw [hhits, hmisses, h.called_eq, List.countP_cons_of_neg (by simp [hcalled])]
  · rw [hmisses, h.misses_eq, List.countP_cons_of_neg (by simp [hsettled]),
      List.countP_cons_of_neg (by simp [hfailed])]

theorem reset (h : e.Tallied log underway) (input : Input) :
    (e.switch input).Tallied (.newInput e.remembered :: log) underway :=
  h.aside rfl rfl rfl rfl

/-- A call that is missed is under way from then on. -/
theorem called (h : e.Tallied log underway) (hit : Bool) (s : S) (left : Nat) :
    (e.count hit).Tallied (.called s left :: log) (underway + (!hit).toNat) := by
  obtain ⟨hhits, hmisses⟩ := stats_count h.memoize hit
  refine ⟨(e.memoize_count hit).trans h.memoize, ?_, ?_⟩
  · rw [hhits, hmisses, List.countP_cons_of_pos rfl, ← h.called_eq]
    cases hit
    · rfl
    · simp only [Bool.toNat_true, Bool.not_true, Bool.toNat_false]
      omega
  · rw [hmisses, h.misses_eq, List.countP_cons_of_neg (by simp [Event.isSettled]),
      List.countP_cons_of_neg (by simp [Event.isFailed]), Nat.add_assoc]

/-- A failure settles nothing, but the call is not under way any more. -/
theorem failed (h : e.Tallied log (underway + 1)) (s : S) (left : Nat) (halt : Halt) :
    e.Tallied (.failed s left halt :: log) underway where
  memoize := h.memoize
  called_eq := h.called_eq
  misses_eq := by
    have hmisses := h.misses_eq
    rw [List.countP_cons_of_neg (by simp [Event.isSettled]), List.countP_cons_of_pos rfl]
    omega

variable [DecidableEq S] {s : S}

theorem settled (h : e.Tallied log (underway + 1)) (left : Nat) (o : Outcome (V s)) :
    (e.remember s left o).Tallied (.settled s left :: log) underway where
  memoize := (e.memoize_remember s left o).trans h.memoize
  called_eq := by
    rw [stats_remember]
    exact h.called_eq
  misses_eq := by
    have hmisses := h.misses_eq
    rw [stats_remember, List.countP_cons_of_pos rfl,
      List.countP_cons_of_neg (by simp [Event.isFailed])]
    omega

end Tallied

end Engine

namespace Work

variable [DecidableEq S]

theorem engine_building (w : Work g) (s : S) : (w.building s).engine = w.engine := by
  unfold building
  split <;> rfl

theorem find?_of_not_remembers {w : Work g} {s : S} {left : Nat}
    (h : ¬ ((w.lookingUp s left).building s).engine.Remembers s left) :
    w.engine.find? s left = none := by
  refine Option.eq_none_iff_forall_ne_some.mpr fun o hfind => h ?_
  have htable : ((w.lookingUp s left).building s).engine.table = w.engine.table := by
    rw [engine_building]
    exact Engine.table_count _ _
  unfold Engine.find? at hfind
  split at hfind
  · obtain ⟨t, ht, ho⟩ := Option.bind_eq_some_iff.mp hfind
    exact ⟨t, o, htable.trans ht, ho⟩
  · cases hfind

end Work

section Tallying

variable [DecidableEq S] {past : List (Event S)} {underway : Nat} {w : Work g} {e : Engine g}
  {event : Event S} {s : S} {left : Nat}

namespace Engine.Tallied

theorem lookingUp (h : w.engine.Tallied (w.journal ++ past) underway) (s : S) (left : Nat) :
    (w.lookingUp s left).engine.Tallied ((w.lookingUp s left).journal ++ past)
      (underway + (!(w.engine.find? s left).isSome).toNat) :=
  h.called _ s left

theorem found (h : w.engine.Tallied (w.journal ++ past) underway) {o : Outcome (V s)}
    (hfind : w.engine.find? s left = some o) :
    (w.lookingUp s left).engine.Tallied ((w.lookingUp s left).journal ++ past) underway := by
  have hlooked := h.lookingUp s left
  rwa [hfind] at hlooked

theorem missed (h : w.engine.Tallied (w.journal ++ past) underway)
    (hnone : w.engine.find? s left = none) :
    (w.lookingUp s left).engine.Tallied ((w.lookingUp s left).journal ++ past)
      (underway + 1) := by
  have hlooked := h.lookingUp s left
  rwa [hnone] at hlooked

omit [DecidableEq S] in
theorem opening (h : w.engine.Tallied (w.journal ++ past) underway)
    (hmemoize : e.memoize = w.engine.memoize) (hstats : e.stats = w.engine.stats)
    (hopening : event.isOpening = true) : e.Tallied (event :: w.journal ++ past) underway :=
  h.aside hmemoize (congrArg Stats.hits hstats) (congrArg Stats.misses hstats)
    (Event.isTallied_of_isOpening hopening)

theorem entering (h : w.engine.Tallied (w.journal ++ past) underway)
    (hnone : w.engine.find? s left = none) :
    (w.entering s left).engine.Tallied ((w.entering s left).journal ++ past) (underway + 1) :=
  Work.entering_of_openings (P := fun w => w.engine.Tallied (w.journal ++ past) (underway + 1))
    (fun h hmemoize _ hstats => h.opening hmemoize hstats) (h.missed hnone)

theorem building (h : w.engine.Tallied (w.journal ++ past) underway)
    (hnone : w.engine.find? s left = none) :
    ((w.lookingUp s left).building s).engine.Tallied
      (((w.lookingUp s left).building s).journal ++ past) (underway + 1) :=
  Work.building_of_openings (P := fun w => w.engine.Tallied (w.journal ++ past) (underway + 1))
    (fun h hmemoize _ hstats => h.opening hmemoize hstats) (h.missed hnone)

end Engine.Tallied

/-- As many misses are under way as evaluations are open. -/
theorem tallied_maintained (g : Grammar S V) (past : List (Event S)) :
    Parser.Maintained g (fun _ => True)
      (fun stack w => w.engine.Tallied (w.journal ++ past) stack.length)
      fun stack _ w => w.engine.Tallied (w.journal ++ past) stack.length where
  closed _ _ := trivial
  reset h _ := h.reset _
  hit _ h hfind := h.found hfind
  enter _ h hnone _ := h.entering hnone
  inner h hinner := h.aside rfl rfl rfl (Event.isTallied_of_isInner hinner)
  leave o h := h.settled _ o
  stop _ h := h
  refuse _ h := h.aside rfl rfl rfl rfl
  invalid _ h _ hnot := (h.building (Work.find?_of_not_remembers hnot)).failed _ _ _
  failed _ h _ := h.failed _ _ _

end Tallying

namespace Engine

/-- An engine without a table has nothing to count and nothing to keep. -/
structure Idle (e : Engine g) : Prop where
  memoize : e.memoize = false
  hits_eq : e.stats.hits = 0
  misses_eq : e.stats.misses = 0
  remembered_eq : e.remembered = 0

namespace Idle

variable {e e' : Engine g}

theorem fresh (g : Grammar S V) : (fresh g false).Idle := ⟨rfl, rfl, rfl, rfl⟩

theorem switch (h : e.Idle) (input : Input) : (e.switch input).Idle :=
  ⟨h.memoize, h.hits_eq, h.misses_eq, Table.size_blank input⟩

theorem alike (h : e.Idle) (hmemoize : e'.memoize = e.memoize) (htable : e'.table = e.table)
    (hstats : e'.stats = e.stats) : e'.Idle where
  memoize := hmemoize.trans h.memoize
  hits_eq := hstats ▸ h.hits_eq
  misses_eq := hstats ▸ h.misses_eq
  remembered_eq := by
    rw [remembered, htable]
    exact h.remembered_eq

theorem count (h : e.Idle) (hit : Bool) : (e.count hit).Idle := by
  rwa [Engine.count, h.memoize]

theorem remember [DecidableEq S] (h : e.Idle) (s : S) (left : Nat) (o : Outcome (V s)) :
    (e.remember s left o).Idle := by
  rwa [Engine.remember, h.memoize]

end Idle

end Engine

section

variable [DecidableEq S]

theorem idle_maintained (g : Grammar S V) :
    Parser.Maintained g (fun _ => True) (fun _ w => w.engine.Idle) fun _ _ w => w.engine.Idle where
  closed _ _ := trivial
  reset h _ := h.switch _
  hit _ h _ := h.count _
  enter _ h _ _ :=
    Work.entering_of_openings (P := fun w => w.engine.Idle)
      (fun h hmemoize htable hstats _ => h.alike hmemoize htable hstats) (h.count _)
  inner h _ := h
  leave o h := h.remember _ _ o
  stop _ h := h
  refuse _ h := h
  invalid _ h _ _ := by
    rw [Work.noting, Work.engine_building]
    exact h.count _
  failed _ h _ := h

end

namespace Engine

variable [DecidableEq S] {e : Engine g} {past : List (Event S)}

theorem Tallied.serve (h : e.Tallied past 0) (he : e.Faithful) (r : Request S) :
    (e.serve r).engine.Tallied ((e.serve r).journal.reverse ++ past) 0 := by
  rcases (tallied_maintained g past).serve he h (r := r) trivial with ⟨v, -, hw⟩ | ⟨halt, -, hw⟩
  · exact hw
  · exact hw

theorem Tallied.serveAll (h : e.Tallied past 0) (he : e.Faithful) (history : List (Request S)) :
    (e.serveAll history).Tallied ((e.journal history).reverse ++ past) 0 :=
  serveAll_keeps (J := fun e log => e.Tallied log 0) (fun he h r => h.serve he r) he h history

theorem Idle.serve (h : e.Idle) (he : e.Faithful) (r : Request S) : (e.serve r).engine.Idle := by
  rcases (idle_maintained g).serve he h (r := r) trivial with ⟨v, -, hw⟩ | ⟨halt, -, hw⟩
  · exact hw
  · exact hw

theorem Idle.serveAll (h : e.Idle) (he : e.Faithful) (history : List (Request S)) :
    (e.serveAll history).Idle := by
  induction history generalizing e with
  | nil => exact h
  | cons r rest ih => exact ih (h.serve he r) (he.serve r)

/-- The counter of resets tells whether the table was dropped. -/
theorem Faithful.isReset_of_resets_eq (he : e.Faithful) {history : List (Request S)}
    (h : (e.serveAll history).stats.resets = e.stats.resets) :
    ∀ event ∈ e.journal history, event.isReset = false := by
  have hnone : (e.journal history).countP Event.isReset = 0 := by
    have hresets := he.resets_eq_countP history
    omega
  intro event hmem
  simpa using List.countP_eq_zero.mp hnone event hmem

/-- Nothing that is kept is lost before the table is dropped. -/
theorem Stocked.remembered_serveAll (h : e.Stocked past) (hg : g.LeftRecursionFree)
    (he : e.Faithful) {later : List (Request S)}
    (hresets : (e.serveAll later).stats.resets = e.stats.resets) :
    (e.serveAll later).remembered =
      e.remembered + (e.journal later).countP Event.isSettled := by
  have hreset : ∀ event ∈ (e.journal later).reverse, event.isReset = false := fun event hmem =>
    he.isReset_of_resets_eq hresets event (List.mem_reverse.mp hmem)
  rw [(h.serveAll hg he later).remembered_eq, sinceReset_append hreset, List.countP_append,
    List.countP_reverse, ← h.remembered_eq, Nat.add_comm]

/-- From a call that drops the table until it is dropped again, what is kept are the outcomes
settled in the meantime. -/
theorem Stocked.remembered_of_reset (h : e.Stocked past) (hg : g.LeftRecursionFree)
    (he : e.Faithful) {r : Request S} {after : List (Request S)}
    (hreset : e.stats.resets < (e.serve r).engine.stats.resets)
    (hlast : (e.serveAll (r :: after)).stats.resets = (e.serve r).engine.stats.resets) :
    (e.serveAll (r :: after)).remembered = (e.journal (r :: after)).countP Event.isSettled := by
  obtain ⟨dropped, rest, hjournal, hrest⟩ := he.journal_of_reset hreset
  -- The log of `r` is cut at its first event, so nothing from before counts.
  have hr : (e.serve r).engine.remembered = rest.countP Event.isSettled := by
    have hsince : ∀ event ∈ rest.reverse, event.isReset = false := fun event hmem =>
      hrest event (List.mem_reverse.mp hmem)
    rw [(h.serve hg he r).remembered_eq, hjournal, List.reverse_cons, List.append_assoc,
      sinceReset_append hsince, List.countP_append, List.countP_reverse]
    simp [sinceReset, Event.isReset]
  have hafter := (h.serve hg he r).remembered_serveAll hg (he.serve r) hlast
  rw [journal, List.countP_append, hjournal, List.countP_cons_of_neg (by simp [Event.isSettled]),
    ← hr]
  exact hafter

theorem Tallied.misses_serveAll (h : e.Tallied past 0) (he : e.Faithful)
    (history : List (Request S)) :
    (e.serveAll history).stats.misses = e.stats.misses +
      ((e.journal history).countP Event.isSettled + (e.journal history).countP Event.isFailed) := by
  rw [(h.serveAll he history).misses_eq, h.misses_eq, List.countP_append, List.countP_append,
    List.countP_reverse, List.countP_reverse]
  omega

/-- Of an engine that memoizes, hits and misses are the calls where tokens are left, nested ones
included. Since the call `r`, the last to drop the table, the misses are the outcomes kept and the
calls failed. What is kept only grows until the table is dropped, and there is room for each symbol
at each place of the input. An engine without a table neither counts nor keeps anything. -/
theorem stats_tally (hg : g.LeftRecursionFree) (history : List (Request S)) :
    let e := (fresh g true).serveAll history
    let plain := (fresh g false).serveAll history
    e.stats.hits + e.stats.misses = ((fresh g true).journal history).countP Event.isCalled ∧
    (∀ before r after, history = before ++ r :: after →
      let e₀ := (fresh g true).serveAll before
      let failures := (e₀.journal (r :: after)).countP Event.isFailed
      e₀.stats.resets < (e₀.serve r).engine.stats.resets →
      e.stats.resets = (e₀.serve r).engine.stats.resets →
      e.stats.misses = e₀.stats.misses + (e.remembered + failures) ∧
        (failures = 0 → e.stats.misses = e₀.stats.misses + e.remembered)) ∧
    (∀ later, (e.serveAll later).stats.resets = e.stats.resets →
      e.remembered ≤ (e.serveAll later).remembered) ∧
    e.remembered ≤ Nat.card S * e.input?.elim 0 Input.size ∧
    plain.stats.hits = 0 ∧ plain.stats.misses = 0 ∧ plain.remembered = 0 := by
  intro e plain
  have htallied (history : List (Request S)) :=
    (Tallied.fresh g).serveAll (fresh_faithful g true) history
  have hstocked (history : List (Request S)) :=
    (Stocked.fresh g).serveAll hg (fresh_faithful g true) history
  have hidle : plain.Idle := (Idle.fresh g).serveAll (fresh_faithful g false) history
  refine ⟨?_, ?_, ?_, ?_, hidle.hits_eq, hidle.misses_eq, hidle.remembered_eq⟩
  · rw [(htallied history).called_eq, List.append_nil, List.countP_reverse]
  · rintro before r after rfl e₀ failures hreset hlast
    have hsplit : e = e₀.serveAll (r :: after) := List.foldl_append ..
    have he₀ : e₀.Faithful := (fresh_faithful g true).serveAll before
    rw [hsplit] at hlast ⊢
    have hmisses : (e₀.serveAll (r :: after)).stats.misses =
        e₀.stats.misses + ((e₀.serveAll (r :: after)).remembered + failures) := by
      rw [(hstocked before).remembered_of_reset hg he₀ hreset hlast]
      exact (htallied before).misses_serveAll he₀ (r :: after)
    exact ⟨hmisses, fun hnone => by rw [hmisses, hnone, Nat.add_zero]⟩
  · intro later hresets
    have he : e.Faithful := (fresh_faithful g true).serveAll history
    rw [(hstocked history).remembered_serveAll hg he hresets]
    exact Nat.le_add_right _ _
  · exact (hstocked history).remembered_le

end Engine

namespace Sample

/-- Three calls on one input, two of which fail along with the term that is missing. -/
theorem retries_tally :
    let e := (Engine.fresh grammar true).serveAll retries
    let again : List (Request Symbol) := [.one .num dangling.start]
    e.stats = ⟨2, 6, 1⟩ ∧
    ((Engine.fresh grammar true).parseOne .expr dangling.start).engine.stats.resets = 1 ∧
    e.stats.misses = 0 + (e.remembered + retried.countP Event.isFailed) ∧
    (e.serveAll again).stats.resets = 1 ∧ e.remembered ≤ (e.serveAll again).remembered := by
  intro e again
  have hstats : e.stats = ⟨2, 6, 1⟩ := by decide
  have hfirst : ((Engine.fresh grammar true).parseOne .expr dangling.start).engine.stats.resets =
      1 := by decide
  have hagain : (e.serveAll again).stats.resets = 1 := by decide
  obtain ⟨-, hsince, hgrows, -⟩ := Engine.stats_tally leftRecursionFree retries
  obtain ⟨hmisses, -⟩ := hsince [] (.one .expr dangling.start)
    [.one .term dangling.start, .complete .expr dangling.start] rfl (by decide) (by decide)
  exact ⟨hstats, hfirst, hmisses, hagain, hgrows again (by decide)⟩

end Sample

end Packrat
