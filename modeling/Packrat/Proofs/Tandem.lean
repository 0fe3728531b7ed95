import Packrat.Proofs.Invariants

/-!
Parsers in tandem: two runs that go through the same calls. A run that evaluates what another run
has evaluated before, and knows all that the other came to know, meets nothing that is new to it.
-/
namespace Packrat

variable {S : Type} {V : S → Type} {g : Grammar S V} {α β : Type}

open Cursor

theorem Event.isBuilt_of_isRemark {event : Event S} (h : event.isRemark = true) :
    event.isBuilt = false := by
  cases event <;> first | rfl | cases h

namespace Parser

/-- Two ends with one result in works with `Q`, or both early in works with `F`. -/
def Meet (Q : α → Work g → Work g → Prop) (F : Work g → Work g → Prop) :
    EStateM.Result Halt (Work g) α → EStateM.Result Halt (Work g) α → Prop
  | .ok a w, .ok b v => a = b ∧ Q a w v
  | .error _ w, .error _ v => F w v
  | _, _ => False

/-- From works with `R`, the parsers meet. -/
def Tandem (R : Work g → Work g → Prop) (Q : α → Work g → Work g → Prop)
    (F : Work g → Work g → Prop) (p q : Parser g α) : Prop :=
  ∀ w v, R w v → Meet Q F (p w) (q v)

section Tandem

variable {R : Work g → Work g → Prop} {Q : α → Work g → Work g → Prop}
  {Q' : β → Work g → Work g → Prop} {F : Work g → Work g → Prop} {p q : Parser g α}
  {k l : α → Parser g β}

theorem Meet.bind {w v : Work g} (h : Meet Q F (p w) (q v))
    (hkl : ∀ a, Tandem (Q a) Q' F (k a) (l a)) : Meet Q' F ((p >>= k) w) ((q >>= l) v) := by
  simp only [Bind.bind, EStateM.bind]
  cases hp : p w with
  | ok a w' =>
    cases hq : q v with
    | ok b v' =>
      rw [hp, hq] at h
      obtain ⟨rfl, hQ⟩ := h
      exact hkl a w' v' hQ
    | error halt v' =>
      rw [hp, hq] at h
      exact h.elim
  | error halt w' =>
    cases hq : q v with
    | ok b v' =>
      rw [hp, hq] at h
      exact h.elim
    | error halt' v' =>
      rw [hp, hq] at h
      exact h

theorem Meet.weaken {R' : α → Work g → Work g → Prop} {r t : EStateM.Result Halt (Work g) α}
    (h : Meet Q F r t) (hQ : ∀ a w v, Q a w v → R' a w v) : Meet R' F r t := by
  cases r <;> cases t
  · exact ⟨h.1, hQ _ _ _ h.2⟩
  · exact h
  · exact h
  · exact h

/-- Evaluations that meet end alike. -/
theorem Meet.concluding [DecidableEq S] {s : S} {left : Nat}
    {Q Q' : Outcome (V s) → Work g → Work g → Prop} {F' : Work g → Work g → Prop}
    {r t : EStateM.Result Halt (Work g) (Outcome (V s))} (h : Meet Q F r t)
    (hok : ∀ o w v, t = .ok o v → Q o w v →
      Q' o (w.settling s left o) (v.settling s left o))
    (hfail : ∀ halt halt' w v, F w v →
      F' (w.noting (.failed s left halt)) (v.noting (.failed s left halt'))) :
    Meet Q' F' (Work.concluding s left r) (Work.concluding s left t) := by
  cases r with
  | ok o w =>
    cases t with
    | ok o' v =>
      obtain ⟨rfl, hQ⟩ := h
      exact ⟨rfl, hok o w v rfl hQ⟩
    | error halt v => exact h.elim
  | error halt w =>
    cases t with
    | ok o v => exact h.elim
    | error halt' v => exact hfail halt halt' w v h

/-- Two parsers that follow one script meet if their calls do. -/
theorem Scripted.tandem {E : Event S → Prop} {C : S → Cursor → Prop} {base : Reader V}
    {p : Caller g → Parser g α} {r : Reader V → Except Halt α} {call call' : Caller g}
    (hp : Scripted E C base p r)
    (hnote : ∀ event, E event → ∀ w v, R w v → R (w.noting event) (v.noting event))
    (hfail : ∀ w v, R w v → F w v)
    (hcall : ∀ s c, C s c →
      Tandem R (fun o w v => base s c = .ok o ∧ R w v) F (call s c) (call' s c)) :
    Tandem R (fun a w v => r base = .ok a ∧ R w v) F (p call) (p call') := by
  induction hp with
  | pure a => exact fun w v h => ⟨rfl, rfl, h⟩
  | fail error => exact fun w v h => hfail w v h
  | note hevent _ ih => exact fun w v h => ih _ _ (hnote _ hevent w v h)
  | @call s c k f hcalled _ ih =>
    refine fun w v h => (hcall s c hcalled w v h).bind fun o w v hw => ?_
    obtain ⟨ho, hw⟩ := hw
    simp only [ho]
    exact ih o ho w v hw

/-- Runs of parsers that meet, whatever their ends. -/
theorem Meet.runOn {R : Work g → Work g → Prop} {p q : Parser g α} {e e' : Engine g}
    (h : Meet (fun _ => R) R (p { engine := e }) (q { engine := e' })) :
    R ⟨(p.runOn e).engine, (p.runOn e).journal.reverse⟩
      ⟨(q.runOn e').engine, (q.runOn e').journal.reverse⟩ := by
  unfold Parser.runOn
  cases hp : p { engine := e } with
  | ok a w =>
    cases hq : q { engine := e' } with
    | ok b v =>
      rw [hp, hq] at h
      simpa only [List.reverse_reverse] using h.2
    | error halt v =>
      rw [hp, hq] at h
      exact h.elim
  | error halt w =>
    cases hq : q { engine := e' } with
    | ok b v =>
      rw [hp, hq] at h
      exact h.elim
    | error halt' v =>
      rw [hp, hq] at h
      change R w v at h
      simpa only [List.reverse_reverse] using h

end Tandem

end Parser

namespace Work

/-- Since `w` nothing was built, and matchers were run perhaps. -/
structure Quiet (w v : Work g) : Prop where
  registry_eq : v.engine.registry = w.engine.registry
  built_eq : v.journal.countP Event.isBuilt = w.journal.countP Event.isBuilt
  consulted_le : w.journal.countP Event.isConsulted ≤ v.journal.countP Event.isConsulted

theorem Quiet.refl (w : Work g) : w.Quiet w := ⟨rfl, rfl, le_rfl⟩

theorem Quiet.step {w v : Work g} (h : w.Quiet v) {e : Engine g} {event : Event S}
    (he : e.registry = v.engine.registry) (hevent : event.isBuilt = false) :
    w.Quiet ⟨e, event :: v.journal⟩ where
  registry_eq := he.trans h.registry_eq
  built_eq := by rw [List.countP_cons_of_neg (by simp [hevent]), h.built_eq]
  consulted_le := h.consulted_le.trans ((List.sublist_cons_self _ _).countP_le)

variable [DecidableEq S]

/-- At work on the input with an engine that does not memoize. -/
structure Plain (input : Input) (w : Work g) : Prop where
  memoize : w.engine.memoize = false
  faithfulOn : w.engine.FaithfulOn input

variable {w : Work g} {input : Input}

theorem Plain.find? (h : w.Plain input) (s : S) (left : Nat) :
    w.engine.find? s left = none := by
  rw [Engine.find?, h.memoize]
  rfl

theorem Plain.noting (h : w.Plain input) (event : Event S) : (w.noting event).Plain input :=
  ⟨h.memoize, h.faithfulOn⟩

theorem Plain.entering (h : w.Plain input) (s : S) (left : Nat) :
    (w.entering s left).Plain input where
  memoize := (w.memoize_entering s left).trans h.memoize
  faithfulOn := entering_faithfulOn h.faithfulOn s left

/-- Nothing is remembered. -/
theorem Plain.settling_eq (h : w.Plain input) (s : S) (left : Nat) (o : Outcome (V s)) :
    w.settling s left o = w.noting (.settled s left) := by
  simp [Work.settling, Work.noting, Engine.remember, h.memoize]

/-- A second run beside an earlier one. If all that the earlier one has registered is known at
`start`, where the second began, then nothing was built since. -/
structure Replays (input : Input) (start u v : Work g) : Prop where
  earlier : u.Plain input
  again : v.Plain input
  quiet : u.engine.registry ⊆ start.engine.registry → start.Quiet v

namespace Replays

variable {start u v : Work g}

theorem noting (h : Replays input start u v) {event : Event S} (hevent : event.isBuilt = false) :
    Replays input start (u.noting event) (v.noting event) :=
  ⟨h.earlier.noting event, h.again.noting event, fun hsub => (h.quiet hsub).step rfl hevent⟩

/-- What the earlier run has entered, it has registered. -/
theorem entering (h : Replays input start u v) (s : S) (left : Nat) :
    Replays input start (u.entering s left) (v.entering s left) := by
  refine ⟨h.earlier.entering s left, h.again.entering s left, fun hsub => ?_⟩
  have hs := hsub (u.mem_registry_entering s left)
  have hquiet := h.quiet fun t ht => hsub (u.registry_subset_entering s left ht)
  rw [← hquiet.registry_eq] at hs
  rw [entering_of_mem hs]
  have hlooked : start.Quiet (v.lookingUp s left) := hquiet.step (v.registry_lookingUp s left) rfl
  exact hlooked.step rfl rfl

theorem settling (h : Replays input start u v) (s : S) (left : Nat) (o : Outcome (V s)) :
    Replays input start (u.settling s left o) (v.settling s left o) := by
  rw [h.earlier.settling_eq, h.again.settling_eq]
  exact h.noting rfl

end Replays

end Work

namespace Parser

variable {rank : S → Nat} {s : S} {c : Cursor}

/-- Evaluations of one shape meet if the calls nested in them do. -/
theorem evaluate_tandem {R F : Work g → Work g → Prop} {call call' : Caller g}
    {shape : Shape V (V s)} (hshape : g.checked s = .ok shape)
    (hnote : ∀ event : Event S, event.isBuilt = false → ∀ w v, R w v →
      R (w.noting event) (v.noting event))
    (hfail : ∀ w v, R w v → F w v)
    (hcall : ∀ t d, g.MayCall s c t d →
      Tandem R (fun o w v => g.meaning t d = .ok o ∧ R w v) F (call t d) (call' t d)) :
    Tandem R (fun o w v => g.readShape g.meaning s c shape = .ok o ∧ R w v) F
      (evaluate call s c shape) (evaluate call' s c shape) := by
  have hscript := evaluate_scripted (E := fun event => event.isBuilt = false)
    (Grammar.meaning_sound g) (fun _ he => Event.isBuilt_of_isRemark he) c hshape (fun _ _ => rfl)
  exact hscript.tandem hnote hfail hcall

variable [DecidableEq S]

/-- Calls of a symbol at one place, in two runs that do not memoize. -/
theorem call_replays (hrank : g.Ranked rank) {depth depth' : Nat}
    (hdepth : g.Allows rank depth s c) (hdepth' : g.Allows rank depth' s c) (start : Work g) :
    Tandem (Work.Replays c.input start)
      (fun o u v => g.meaning s c = .ok o ∧ Work.Replays c.input start u v) (fun _ _ => True)
      (call depth s c) (call depth' s c) := by
  induction depth, s, c, hdepth using Grammar.Allows.induction hrank generalizing depth' with
  | atEnd depth s c _ hend =>
    rw [call_atEnd depth s hend, call_atEnd depth' s hend]
    exact fun u v h => ⟨rfl, Grammar.meaning_atEnd s hend, h⟩
  | nest depth s c _ hend ih =>
    obtain ⟨depth', rfl⟩ : ∃ k, depth' = k + 1 := by
      refine Nat.exists_eq_succ_of_ne_zero ?_
      rintro rfl
      rw [hdepth'.atEnd] at hend
      cases hend
    intro u v h
    rw [call_succ_of_find?_none depth hend h.earlier.faithfulOn (h.earlier.find? s c.size),
      call_succ_of_find?_none depth' hend h.again.faithfulOn (h.again.find? s c.size)]
    cases hshape : g.checked s with
    | error error => trivial
    | ok shape =>
      have hcall : ∀ t d, g.MayCall s c t d →
          Tandem (Work.Replays c.input start)
            (fun o u v => g.meaning t d = .ok o ∧ Work.Replays c.input start u v)
            (fun _ _ => True) (call depth t d) (call depth' t d) := by
        intro t d hcall
        rw [← input_eq_of_le hcall.1]
        exact ih t d hcall (hdepth'.nested hrank hcall)
      have hmeet := evaluate_tandem hshape (fun _ hevent _ _ h => h.noting hevent)
        (fun _ _ _ => trivial) hcall _ _ (h.entering s c.size)
      refine hmeet.concluding (fun o u v _ ho => ?_) fun _ _ _ _ _ => trivial
      obtain ⟨ho, h⟩ := ho
      exact ⟨(Grammar.meaning_of_checked hend hshape).trans ho, h.settling s c.size o⟩

end Parser

end Packrat
