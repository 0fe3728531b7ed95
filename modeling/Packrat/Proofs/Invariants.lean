import Packrat.Proofs.Conduct

/-!
Invariants of runs. Calls that are free of left recursion lose weight with every nesting, so a
property of calls may be proved from the same property of the calls that their evaluation makes.
What each step of a run keeps, a call from outside keeps, and so does a history of such calls.
-/
namespace Packrat

variable {S : Type} {V : S → Type} {g : Grammar S V} {α β : Type}

open Cursor

namespace Grammar

/-- Falls with every nesting of calls. -/
def weight (g : Grammar S V) (rank : S → Nat) (s : S) (left : Nat) : Nat :=
  g.symbols.length * left + rank s

variable {rank : S → Nat}

theorem Ranked.weight_lt (h : g.Ranked rank) {s t : S} {c d : Cursor} (hcall : g.MayCall s c t d) :
    g.weight rank t d.size < g.weight rank s c.size := by
  obtain ⟨hle, hleft⟩ := hcall
  rcases eq_or_size_lt_of_le hle with rfl | hlt
  · have hfalls := h.falls s t (hleft rfl)
    simp only [weight]
    omega
  · have hrank := h.lt_length t
    have hmul : g.symbols.length * (d.size + 1) ≤ g.symbols.length * c.size :=
      Nat.mul_le_mul_left _ hlt
    simp only [weight]
    rw [Nat.mul_add] at hmul
    omega

/-- Calls that may still be nested deeper than their weight requires. -/
def Allows (g : Grammar S V) (rank : S → Nat) (depth : Nat) (s : S) (c : Cursor) : Prop :=
  g.weight rank s c.size < depth + g.symbols.length

theorem Ranked.allows (h : g.Ranked rank) (s : S) (c : Cursor) :
    g.Allows rank (g.symbols.length * c.size) s c := by
  have hrank := h.lt_length s
  simp only [Allows, weight]
  omega

theorem Allows.atEnd {s : S} {c : Cursor} (h : g.Allows rank 0 s c) : c.atEnd = true := by
  rw [atEnd_iff]
  by_contra hsize
  have hmul := Nat.le_mul_of_pos_right g.symbols.length (Nat.pos_of_ne_zero hsize)
  simp only [Allows, weight] at h
  omega

theorem Allows.nested {depth : Nat} {s t : S} {c d : Cursor} (h : g.Allows rank (depth + 1) s c)
    (hrank : g.Ranked rank) (hcall : g.MayCall s c t d) : g.Allows rank depth t d := by
  have hlt := hrank.weight_lt hcall
  simp only [Allows] at h ⊢
  omega

/-- To show something of all calls that may nest deeply enough, show it at the end of the input,
and of a call in view of those that its evaluation makes. -/
theorem Allows.induction (hrank : g.Ranked rank)
    {Φ : ∀ (depth : Nat) (s : S) (c : Cursor), g.Allows rank depth s c → Prop}
    (atEnd : ∀ depth s c h, c.atEnd = true → Φ depth s c h)
    (nest : ∀ depth s c h, c.atEnd = false →
      (∀ t d (hcall : g.MayCall s c t d), Φ depth t d (h.nested hrank hcall)) →
      Φ (depth + 1) s c h)
    (depth : Nat) (s : S) (c : Cursor) (h : g.Allows rank depth s c) : Φ depth s c h := by
  induction depth generalizing s c with
  | zero => exact atEnd 0 s c h h.atEnd
  | succ depth ih =>
    cases hend : c.atEnd with
    | true => exact atEnd (depth + 1) s c h hend
    | false => exact nest depth s c h hend fun t d hcall => ih t d (h.nested hrank hcall)

end Grammar

namespace Parser

/-- An end with a result in work with `Q`, or early in work with `F`. -/
def Ends (Q : α → Work g → Prop) (F : Halt → Work g → Prop) :
    EStateM.Result Halt (Work g) α → Prop
  | .ok a w => Q a w
  | .error halt w => F halt w

/-- From work with `P`, the parser ends so. -/
def Leads (P : Work g → Prop) (Q : α → Work g → Prop) (F : Halt → Work g → Prop)
    (p : Parser g α) : Prop :=
  ∀ w, P w → Ends Q F (p w)

section Leads

variable {I : Work g → Prop} {Q Q' : α → Work g → Prop} {R : β → Work g → Prop}
  {F F' : Halt → Work g → Prop} {p : Parser g α} {k : α → Parser g β}

theorem Ends.weaken {r : EStateM.Result Halt (Work g) α} (h : Ends Q F r)
    (hQ : ∀ a w, Q a w → Q' a w) (hF : ∀ halt w, F halt w → F' halt w) : Ends Q' F' r := by
  cases r with
  | ok a w => exact hQ a w h
  | error halt w => exact hF halt w h

theorem Ends.bind {w : Work g} (h : Ends Q F (p w)) (hk : ∀ a, Leads (Q a) R F (k a)) :
    Ends R F ((p >>= k) w) := by
  simp only [Bind.bind, EStateM.bind]
  cases hrun : p w with
  | ok a w' =>
    rw [hrun] at h
    exact hk a w' h
  | error halt w' =>
    rw [hrun] at h
    exact h

/-- The run of a parser on an engine, read off its end. -/
theorem Ends.runOn {e : Engine g} (h : Ends Q F (p { engine := e })) :
    (∃ a, (p.runOn e).answer = .ok a ∧
      Q a ⟨(p.runOn e).engine, (p.runOn e).journal.reverse⟩) ∨
    ∃ halt, (p.runOn e).answer = .error halt ∧
      F halt ⟨(p.runOn e).engine, (p.runOn e).journal.reverse⟩ := by
  unfold Parser.runOn
  cases hrun : p { engine := e } with
  | ok a w =>
    rw [hrun] at h
    simp only [List.reverse_reverse]
    exact Or.inl ⟨a, rfl, h⟩
  | error halt w =>
    rw [hrun] at h
    simp only [List.reverse_reverse]
    exact Or.inr ⟨halt, rfl, h⟩

/-- What calls keep and remarks do not break, a script of them keeps. -/
theorem Scripted.leads {E : Event S → Prop} {C : S → Cursor → Prop} {base : Reader V}
    {p : Caller g → Parser g α} {r : Reader V → Except Halt α} {call : Caller g}
    (hp : Scripted E C base p r)
    (hnote : ∀ event, E event → ∀ w, I w → I (w.noting event))
    (hfail : ∀ error w, I w → F (.failure error) w)
    (hcall : ∀ s c, C s c → Leads I (fun o w => base s c = .ok o ∧ I w) F (call s c)) :
    Leads I (fun a w => r base = .ok a ∧ I w) F (p call) := by
  induction hp with
  | pure a => exact fun w hw => ⟨rfl, hw⟩
  | fail error => exact fun w hw => hfail error w hw
  | note hevent _ ih => exact fun w hw => ih _ (hnote _ hevent w hw)
  | @call s c k f hcalled _ ih =>
    refine fun w hw => (hcall s c hcalled w hw).bind fun o w hw => ?_
    obtain ⟨ho, hw⟩ := hw
    simp only [ho]
    exact ih o ho w hw

end Leads

variable [DecidableEq S]

section Serve

variable {P : Work g → Prop} {F : Halt → Work g → Prop} {e : Engine g}

/-- A call from outside begins with its input. -/
theorem ends_parse (he : e.Faithful) (hP : P { engine := e })
    (hreset : ∀ input, e.input? ≠ some input → P ⟨e.switch input, [.newInput e.remembered]⟩)
    {s : S} {c : Cursor}
    (hcall : Leads (fun w => w.engine.FaithfulOn c.input ∧ P w)
      (fun o w => g.meaning s c = .ok o ∧ w.engine.FaithfulOn c.input ∧ P w) F
      (call (g.symbols.length * c.size) s c)) :
    Ends (fun _ => P) F (parse s c { engine := e }) := by
  cases hend : c.atEnd with
  | true =>
    rw [parse, call_atEnd _ s hend]
    exact hP
  | false =>
    have hobserved : P (({ engine := e } : Work g).observing c) := by
      unfold Work.observing
      split
      · exact hP
      · rename_i hinput
        exact hreset c.input hinput
    have hfaithful : (({ engine := e } : Work g).observing c).engine.FaithfulOn c.input :=
      Work.observing_faithfulOn he c
    have hparse := hcall _ ⟨hfaithful, hobserved⟩
    rw [← parse_observing s hend]
    exact hparse.weaken (fun _ _ hw => hw.2.2) fun _ _ hw => hw

/-- What nested calls keep, a call from outside keeps, unless it refuses their match. -/
theorem ends_serve (he : e.Faithful) (hP : P { engine := e })
    (hreset : ∀ input, e.input? ≠ some input → P ⟨e.switch input, [.newInput e.remembered]⟩)
    (hrefuse : ∀ error w, P w → F (.failure error) w) {r : Request S}
    (hcall : ∀ c, Leads (fun w => w.engine.FaithfulOn c.input ∧ P w)
      (fun o w => g.meaning r.symbol c = .ok o ∧ w.engine.FaithfulOn c.input ∧ P w) F
      (call (g.symbols.length * c.size) r.symbol c)) :
    (∃ v, (e.serve r).answer = .ok v ∧ P ⟨(e.serve r).engine, (e.serve r).journal.reverse⟩) ∨
    ∃ halt, (e.serve r).answer = .error halt ∧
      F halt ⟨(e.serve r).engine, (e.serve r).journal.reverse⟩ := by
  cases r with
  | one s c => exact (ends_parse he hP hreset (hcall c)).runOn
  | complete s c =>
    refine Ends.runOn ((ends_parse he hP hreset (hcall c)).bind fun o w hw => ?_)
    cases o with
    | none => exact hrefuse _ w hw
    | some m =>
      simp only
      split
      · exact hw
      · exact hrefuse _ w hw

end Serve

/-- What holds from step to step: `I stack` while the calls of `stack` are evaluated, innermost
first, and `F` from an error on. -/
structure Upheld (g : Grammar S V) (I : List (S × Nat) → Work g → Prop)
    (F : Halt → Work g → Prop) : Prop where
  /-- The first thing that a call from outside does. -/
  reset : ∀ {e : Engine g} {input : Input}, I [] { engine := e } → e.input? ≠ some input →
    I [] ⟨e.switch input, [.newInput e.remembered]⟩
  hit : ∀ {stack : List (S × Nat)} {w : Work g} {s : S} {left : Nat} {o : Outcome (V s)},
    I stack w → w.engine.find? s left = some o → I stack (w.lookingUp s left)
  invalid : ∀ {stack : List (S × Nat)} {w : Work g} {s : S} {left : Nat} {error : Error},
    I stack w → w.engine.find? s left = none → g.checked s = .error error →
    F (.failure error) ((w.lookingUp s left).building s)
  enter : ∀ {stack : List (S × Nat)} {w : Work g} {s : S} {left : Nat} {shape : Shape V (V s)},
    I stack w → w.engine.find? s left = none → g.checked s = .ok shape → (s, left) ∉ stack →
    I ((s, left) :: stack) (w.entering s left)
  remark : ∀ {stack : List (S × Nat)} {w : Work g} {event : Event S}, I stack w →
    event.isRemark = true → I stack (w.noting event)
  leave : ∀ {stack : List (S × Nat)} {w : Work g} {s : S} {c : Cursor} (o : Outcome (V s)),
    I ((s, c.size) :: stack) w → w.engine.input? = some c.input → c.atEnd = false →
    I stack (w.settling s c.size o)
  /-- The evaluation of a terminal whose matcher is run. -/
  consult : ∀ {stack : List (S × Nat)} {w : Work g} {s : S} {c : Cursor}
    {shape : Shape V (V s)} (o : Outcome (V s)), I stack w → w.engine.find? s c.size = none →
    g.checked s = .ok shape → (s, c.size) ∉ stack → w.engine.input? = some c.input →
    c.atEnd = false →
    I stack (((w.entering s c.size).noting (.consulted s c.size)).settling s c.size o)
  refuse : ∀ {stack : List (S × Nat)} {w : Work g} (error : Error), I stack w →
    F (.failure error) w
  failed : ∀ {w : Work g} {halt : Halt} (s : S) (left : Nat), F halt w →
    F halt (w.noting (.failed s left halt))

namespace Upheld

variable {I : List (S × Nat) → Work g → Prop} {F : Halt → Work g → Prop} {stack : List (S × Nat)}
  {call : Caller g} {s : S} {c : Cursor} {rank : S → Nat}

/-- An evaluation from its first step to its last, given what the calls nested in it do. -/
theorem ends_evaluate (h : Upheld g I F) {w : Work g} {shape : Shape V (V s)}
    (hend : c.atEnd = false) (hw : w.engine.FaithfulOn c.input) (hI : I stack w)
    (hnone : w.engine.find? s c.size = none) (hshape : g.checked s = .ok shape)
    (hstack : (s, c.size) ∉ stack)
    (hcall : ∀ t d, g.MayCall s c t d →
      Leads (fun w => w.engine.FaithfulOn c.input ∧ I ((s, c.size) :: stack) w)
        (fun o w => g.meaning t d = .ok o ∧ w.engine.FaithfulOn c.input ∧
          I ((s, c.size) :: stack) w) F (call t d)) :
    Ends (fun o w => g.meaning s c = .ok o ∧ w.engine.FaithfulOn c.input ∧ I stack w) F
      (Work.concluding s c.size (evaluate call s c shape (w.entering s c.size))) := by
  have hmeaning := Grammar.meaning_of_checked hend hshape
  have hentered := Work.entering_faithfulOn hw s c.size
  have hI' := h.enter hI hnone hshape hstack
  cases hdeclared : g.shape s with
  | terminal matcher =>
    have hchecked := hshape
    obtain ⟨-, rfl⟩ := Grammar.checked_eq_ok_iff.mp hshape
    rw [hdeclared] at hmeaning ⊢
    change Ends _ F (Work.concluding s c.size (terminal s matcher c (w.entering s c.size)))
    rw [terminal_eq]
    split
    · exact ⟨hmeaning, hentered.remember hmeaning, h.leave _ hI' hentered.input_eq hend⟩
    · exact ⟨hmeaning, hentered.remember hmeaning,
        h.consult _ hI hnone hchecked hstack hw.input_eq hend⟩
  | _ =>
    have hscript := evaluate_scripted (E := fun event => event.isRemark = true)
      (Grammar.meaning_sound g) (fun _ he => he) c hshape
      (fun matcher hm => by rw [hdeclared] at hm; cases hm)
    have hleads := hscript.leads (fun event he w hw => ⟨hw.1, h.remark hw.2 he⟩)
      (fun error w hw => h.refuse error hw.2) hcall _ ⟨hentered, hI'⟩
    cases hrun : evaluate call s c shape (w.entering s c.size) with
    | ok o w' =>
      rw [hrun] at hleads
      obtain ⟨ho, hw', hI'⟩ := hleads
      have hmeant := hmeaning.trans ho
      exact ⟨hmeant, hw'.remember hmeant, h.leave o hI' hw'.input_eq hend⟩
    | error halt w' =>
      rw [hrun] at hleads
      exact h.failed s c.size hleads

/-- A call of a symbol where tokens are left, given what the calls nested in it do. -/
theorem ends_invoke (h : Upheld g I F) {w : Work g} (hend : c.atEnd = false)
    (hw : w.engine.FaithfulOn c.input) (hI : I stack w) (hstack : (s, c.size) ∉ stack)
    (hcall : ∀ t d, g.MayCall s c t d →
      Leads (fun w => w.engine.FaithfulOn c.input ∧ I ((s, c.size) :: stack) w)
        (fun o w => g.meaning t d = .ok o ∧ w.engine.FaithfulOn c.input ∧
          I ((s, c.size) :: stack) w) F (call t d)) :
    Ends (fun o w => g.meaning s c = .ok o ∧ w.engine.FaithfulOn c.input ∧ I stack w) F
      (invoke call s c w) := by
  rw [invoke_eq, Work.observing_of_faithfulOn hw]
  cases hfind : w.engine.find? s c.size with
  | some o => exact ⟨hw.find? hfind, Work.lookingUp_faithfulOn hw s c.size, h.hit hI hfind⟩
  | none =>
    cases hshape : g.checked s with
    | error error => exact h.failed s c.size (h.invalid hI hfind hshape)
    | ok shape => exact h.ends_evaluate hend hw hI hfind hshape hstack hcall

/-- Calls under way are heavier than those nested in them. -/
theorem leads_call (h : Upheld g I F) (hrank : g.Ranked rank) {depth : Nat}
    (hdepth : g.Allows rank depth s c)
    (hstack : ∀ entry ∈ stack, g.weight rank s c.size < g.weight rank entry.1 entry.2) :
    Leads (fun w => w.engine.FaithfulOn c.input ∧ I stack w)
      (fun o w => g.meaning s c = .ok o ∧ w.engine.FaithfulOn c.input ∧ I stack w) F
      (Parser.call depth s c) := by
  induction depth, s, c, hdepth using Grammar.Allows.induction hrank generalizing stack with
  | atEnd depth s c _ hend =>
    rw [call_atEnd depth s hend]
    exact fun w hw => ⟨Grammar.meaning_atEnd s hend, hw⟩
  | nest depth s c _ hend ih =>
    intro w hw
    rw [Parser.call, if_neg (by simp [hend])]
    have hself : (s, c.size) ∉ stack := fun hmem => (hstack _ hmem).false
    refine h.ends_invoke hend hw.1 hw.2 hself fun t d hcall => ?_
    have hlt := hrank.weight_lt hcall
    rw [← input_eq_of_le hcall.1]
    exact ih t d hcall
      (List.forall_mem_cons.mpr ⟨hlt, fun entry he => hlt.trans (hstack entry he)⟩)

/-- What holds before a call from outside holds after it, however it ends. -/
theorem serve (h : Upheld g I F) (hg : g.LeftRecursionFree) {e : Engine g} (he : e.Faithful)
    (hI : I [] { engine := e }) (r : Request S) :
    (∃ v, (e.serve r).answer = .ok v ∧
      I [] ⟨(e.serve r).engine, (e.serve r).journal.reverse⟩) ∨
    ∃ halt, (e.serve r).answer = .error halt ∧
      F halt ⟨(e.serve r).engine, (e.serve r).journal.reverse⟩ := by
  obtain ⟨rank, hrank⟩ := hg.exists_ranked
  exact ends_serve he hI (fun _ => h.reset hI) (fun _ _ => h.refuse _) fun c =>
    h.leads_call hrank (hrank.allows r.symbol c) (by simp)

end Upheld

end Parser

namespace Engine

variable [DecidableEq S]

/-- The events of a history of calls, from the first to the last. -/
def journal (e : Engine g) : List (Request S) → List (Event S)
  | [] => []
  | r :: rest => (e.serve r).journal ++ (e.serve r).engine.journal rest

/-- What each call keeps, a history of calls keeps, in view of all that has happened so far. -/
theorem serveAll_keeps {J : Engine g → List (Event S) → Prop}
    (hserve : ∀ {e : Engine g} {past : List (Event S)}, e.Faithful → J e past → ∀ r : Request S,
      J (e.serve r).engine ((e.serve r).journal.reverse ++ past))
    {e : Engine g} {past : List (Event S)} (he : e.Faithful) (hJ : J e past)
    (history : List (Request S)) :
    J (e.serveAll history) ((e.journal history).reverse ++ past) := by
  induction history generalizing e past with
  | nil => exact hJ
  | cons r rest ih =>
    rw [journal, List.reverse_append, List.append_assoc]
    exact ih (he.serve r) (hserve he hJ r)

end Engine

end Packrat
