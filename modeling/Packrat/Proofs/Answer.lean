import Packrat.Proofs.Depth
import Packrat.Run

/-!
The answers of parsers. A parser that calls symbols answers like the reader of the same shape,
as long as its calls answer like those of the reader. The answer of a call lies between what the
grammar says at the depth of the call, which the table may save from being cut short, and what
the grammar means.
-/
namespace Packrat.Parser

variable {S : Type} {V : S → Type} {g : Grammar S V} {α β : Type}

open Cursor

/-- What `p` answers on the work `w`. -/
def answer (p : Parser g α) (w : Work g) : Except Halt α :=
  match p w with
  | .ok a _ => .ok a
  | .error halt _ => .error halt

/-- The work that `p` makes of `w`. -/
def after (p : Parser g α) (w : Work g) : Work g :=
  match p w with
  | .ok _ w' => w'
  | .error _ w' => w'

theorem answer_bind (p : Parser g α) (k : α → Parser g β) (w : Work g) :
    (p >>= k).answer w = p.answer w >>= fun a => (k a).answer (p.after w) := by
  simp only [answer, after, bind, EStateM.bind, Except.bind]
  cases p w <;> rfl

theorem after_bind_of_ok {p : Parser g α} {w : Work g} {a : α} (h : p.answer w = .ok a)
    (k : α → Parser g β) : (p >>= k).after w = (k a).after (p.after w) := by
  simp only [answer, after, bind, EStateM.bind] at h ⊢
  cases hp : p w with
  | ok b w' =>
    rw [hp] at h
    cases h
    rfl
  | error halt w' =>
    rw [hp] at h
    cases h

theorem after_bind_of_error {p : Parser g α} {w : Work g} {halt : Halt}
    (h : p.answer w = .error halt) (k : α → Parser g β) : (p >>= k).after w = p.after w := by
  simp only [answer, after, bind, EStateM.bind] at h ⊢
  cases hp : p w with
  | ok b w' =>
    rw [hp] at h
    cases h
  | error halt' w' => rfl

theorem answer_runOn (p : Parser g α) (e : Engine g) :
    (p.runOn e).answer = p.answer { engine := e } := by
  simp only [runOn, answer]
  cases p { engine := e } <;> rfl

theorem engine_runOn (p : Parser g α) (e : Engine g) :
    (p.runOn e).engine = (p.after { engine := e }).engine := by
  simp only [runOn, after]
  cases p { engine := e } <;> rfl

/-- From an engine with `P`, `p` answers something between `low` and `high`, and leaves an
engine with `Q`. -/
def Within (P Q : Engine g → Prop) (low high : Except Halt α) (p : Parser g α) : Prop :=
  ∀ w, P w.engine → Approximates low (p.answer w) ∧ Approximates (p.answer w) high ∧
    Q (p.after w).engine

namespace Within

variable {P Q : Engine g → Prop} {low high : Except Halt α} {p : Parser g α}

theorem pure (Q : Engine g → Prop) (a : α) : Within Q Q (.ok a) (.ok a) (pure a) :=
  fun _ hw => ⟨.refl _, .refl _, hw⟩

theorem throw (Q : Engine g → Prop) (halt : Halt) :
    Within Q Q (.error halt) (.error halt) (throw halt : Parser g α) :=
  fun _ hw => ⟨.refl _, .refl _, hw⟩

theorem bind {low' high' : α → Except Halt β} {k : α → Parser g β} (h : Within P Q low high p)
    (hk : ∀ a, high = .ok a → Within Q Q (low' a) (high' a) (k a)) :
    Within P Q (low >>= low') (high >>= high') (p >>= k) := by
  intro w hw
  obtain ⟨hlow, hhigh, hq⟩ := h w hw
  rw [answer_bind]
  cases hanswer : p.answer w with
  | ok a =>
    rw [hanswer] at hlow hhigh
    obtain ⟨hlow', hhigh', hq'⟩ := hk a hhigh.eq_ok (p.after w) hq
    rw [after_bind_of_ok hanswer]
    refine ⟨hlow.bind fun b hb => ?_, hhigh.bind fun b hb => ?_, hq'⟩
    · obtain rfl : b = a := by
        rw [hb] at hlow
        exact (Except.ok.inj hlow.eq_ok).symm
      exact hlow'
    · cases hb
      exact hhigh'
  | error halt =>
    rw [hanswer] at hlow hhigh
    rw [after_bind_of_error hanswer]
    refine ⟨hlow.bind fun b hb => ?_, hhigh.bind fun b hb => ?_, hq⟩
    · rw [hb] at hlow
      cases hlow.eq_ok
    · cases hb

theorem weaken {P' Q' : Engine g → Prop} (h : Within P Q low high p)
    (hP : ∀ e, P' e → P e) (hQ : ∀ e, Q e → Q' e) : Within P' Q' low high p := by
  intro w hw
  obtain ⟨hlow, hhigh, hq⟩ := h w (hP _ hw)
  exact ⟨hlow, hhigh, hQ _ hq⟩

/-- A last step that hands on the answer. -/
theorem tail {k : α → Parser g α} (h : Within P Q low high p)
    (hk : ∀ a, high = .ok a → Within Q Q (.ok a) (.ok a) (k a)) :
    Within P Q low high (p >>= k) := by
  have hbind : Within P Q (low >>= Except.ok) (high >>= Except.ok) (p >>= k) := h.bind hk
  rwa [show low >>= Except.ok = low from bind_pure low,
    show high >>= Except.ok = high from bind_pure high] at hbind

/-- A step that only changes the engine. -/
theorem change {f : Engine g → Engine g} (hf : ∀ e, P e → Q (f e))
    (h : Within Q Q low high p) : Within P Q low high (do changeEngine f; p) := by
  intro w hw
  exact h { w with engine := f w.engine } (hf _ hw)

/-- A step of the journal changes neither the engine nor the answer. -/
theorem note (event : Event S) (h : Within P Q low high p) :
    Within P Q low high (do note event; p) := by
  intro w hw
  exact h { w with journal := event :: w.journal } hw

theorem notingFailure (event : Halt → Event S) (h : Within P Q low high p) :
    Within P Q low high (notingFailure event p) := by
  intro w hw
  have hp := h w hw
  simp only [answer, after, Parser.notingFailure] at hp ⊢
  cases hpw : p w <;> simpa only [hpw] using hp

/-- The answer is settled where the reading at this depth is what the grammar means. -/
theorem answer_eq (h : Within P Q low high p) (hlow : low = high) {w : Work g}
    (hw : P w.engine) : p.answer w = high := by
  obtain ⟨hle, hge, -⟩ := h w hw
  rw [hlow] at hle
  exact hge.antisymm hle

end Within

/-- From `c` on, calls answer between `low` and `high`, and keep `I`. -/
def CallsWithin (I : Engine g → Prop) (c : Cursor) (low high : Reader V) (call : Caller g) :
    Prop :=
  ∀ s d, c ≤ d → Within I I (low s d) (high s d) (call s d)

variable {I : Engine g → Prop} {c : Cursor} {low high : Reader V} {call : Caller g}

theorem CallsWithin.later {d : Cursor} (h : CallsWithin I c low high call) (hd : c ≤ d) :
    CallsWithin I d low high call := fun s e he => h s e (hd.trans he)

/-- A parser that follows a script answers as the reader of the script does. -/
theorem Scripted.within {E : Event S → Prop} {C : S → Cursor → Prop} {p : Caller g → Parser g α}
    {r : Reader V → Except Halt α} (hp : Scripted E C high p r)
    (h : ∀ s c, C s c → Within I I (low s c) (high s c) (call s c)) :
    Within I I (r low) (r high) (p call) := by
  induction hp with
  | pure a => exact .pure I a
  | fail error => exact .throw I _
  | note _ _ ih => exact .note _ ih
  | call hcalled _ ih => exact .bind (h _ _ hcalled) ih

theorem evaluate_within (hhigh : high.Sound g) (h : CallsWithin I c low high call) {s : S}
    {shape : Shape V (V s)} (hshape : g.checked s = .ok shape) :
    Within I I (g.readShape low s c shape) (g.readShape high s c shape)
      (evaluate call s c shape) := by
  have hscript := evaluate_scripted (E := fun _ => True) hhigh (fun _ _ => trivial) c hshape
    fun _ _ => trivial
  exact hscript.within fun t d hcall => h t d hcall.1

end Packrat.Parser
