import Packrat.Proofs.Answer

/-!
Engines whose tables tell the truth. A table is faithful if each outcome in it is what the
grammar means at its place. Looking up, counting, registering and switching inputs keep this, and
so does remembering an outcome that is meant. Hence a faithful engine answers each call with what
the grammar means, and stays faithful.
-/
namespace Packrat

variable {S : Type} {V : S → Type} {g : Grammar S V} {α : Type}

open Cursor

namespace Engine

theorem table_count (e : Engine g) (hit : Bool) : (e.count hit).table = e.table := by
  unfold count
  split
  · rfl
  · split <;> rfl

theorem memoize_count (e : Engine g) (hit : Bool) : (e.count hit).memoize = e.memoize := by
  unfold count
  split
  · rfl
  · split <;> rfl

theorem registry_count (e : Engine g) (hit : Bool) : (e.count hit).registry = e.registry := by
  unfold count
  split
  · rfl
  · split <;> rfl

/-- The table of an engine on the input of a cursor, which has a place for the cursor. -/
theorem exists_table {e : Engine g} {c : Cursor} (hinput : e.input? = some c.input) :
    ∃ t, e.table = some t ∧ t.input = c.input ∧ c.size ≤ t.input.size := by
  obtain ⟨t, ht, htinput⟩ := Option.map_eq_some_iff.mp hinput
  refine ⟨t, ht, htinput, ?_⟩
  rw [htinput, ← c.offset_add_size]
  exact Nat.le_add_left _ _

theorem input_count (e : Engine g) (hit : Bool) : (e.count hit).input? = e.input? := by
  rw [input?, input?, table_count]

variable [DecidableEq S]

theorem memoize_remember (e : Engine g) (s : S) (left : Nat) (o : Outcome (V s)) :
    (e.remember s left o).memoize = e.memoize := by
  unfold remember
  split <;> rfl

theorem registry_remember (e : Engine g) (s : S) (left : Nat) (o : Outcome (V s)) :
    (e.remember s left o).registry = e.registry := by
  unfold remember
  split <;> rfl

theorem input_remember (e : Engine g) (s : S) (left : Nat) (o : Outcome (V s)) :
    (e.remember s left o).input? = e.input? := by
  unfold remember
  split
  · simp only [input?, Option.map_map]
    rfl
  · rfl

theorem find?_of_table_eq {e e' : Engine g} (hmemoize : e'.memoize = e.memoize)
    (htable : e'.table = e.table) (s : S) (left : Nat) : e'.find? s left = e.find? s left := by
  rw [find?, find?, hmemoize, htable]

theorem find?_count (e : Engine g) (hit : Bool) (s : S) (left : Nat) :
    (e.count hit).find? s left = e.find? s left :=
  find?_of_table_eq (memoize_count e hit) (table_count e hit) s left

theorem find?_switch (e : Engine g) (input : Input) (s : S) (left : Nat) :
    (e.switch input).find? s left = none := by
  unfold find?
  split
  · exact Table.find?_blank input s left
  · rfl

theorem find?_remember_self {e : Engine g} (hmemoize : e.memoize = true) {c : Cursor}
    (hinput : e.input? = some c.input) (s : S) (o : Outcome (V s)) :
    (e.remember s c.size o).find? s c.size = some o := by
  obtain ⟨t, ht, -, hsize⟩ := exists_table hinput
  simp [find?, remember, hmemoize, ht, Table.find?_insert_self t s hsize]

theorem find?_remember_ne {e : Engine g} {c : Cursor} (hinput : e.input? = some c.input) (s : S)
    (o : Outcome (V s)) {t : S} {left : Nat} (hne : t ≠ s ∨ left ≠ c.size) :
    (e.remember s c.size o).find? t left = e.find? t left := by
  obtain ⟨table, htable, -, hsize⟩ := exists_table hinput
  cases hmemoize : e.memoize with
  | true => simp [find?, remember, hmemoize, htable, Table.find?_insert_ne table hsize hne]
  | false => simp [find?, remember, hmemoize]

/-- What the table remembers is what the grammar means. -/
def Faithful (e : Engine g) : Prop :=
  ∀ t, e.table = some t → ∀ (s : S) (c : Cursor), c.input = t.input →
    ∀ o, t.find? s c.size = some o → g.meaning s c = .ok o

/-- A faithful engine at work on the input. -/
structure FaithfulOn (input : Input) (e : Engine g) : Prop where
  faithful : e.Faithful
  input_eq : e.input? = some input

theorem faithful_of_table_none {e : Engine g} (h : e.table = none) : e.Faithful := by
  intro t ht
  rw [h] at ht
  cases ht

theorem FaithfulOn.of_table_eq {input : Input} {e e' : Engine g} (h : e.FaithfulOn input)
    (htable : e'.table = e.table) : e'.FaithfulOn input where
  faithful t ht := h.faithful t (htable ▸ ht)
  input_eq := by rw [input?, htable]; exact h.input_eq

theorem faithfulOn_switch (e : Engine g) (input : Input) :
    (e.switch input).FaithfulOn input where
  faithful t ht s c _ o ho := by
    cases ht
    rw [Table.find?_blank] at ho
    cases ho
  input_eq := rfl

theorem FaithfulOn.find? {e : Engine g} {c : Cursor} (h : e.FaithfulOn c.input) {s : S}
    {o : Outcome (V s)} (ho : e.find? s c.size = some o) : g.meaning s c = .ok o := by
  unfold Engine.find? at ho
  split at ho
  · obtain ⟨t, ht, hfound⟩ := Option.bind_eq_some_iff.mp ho
    have hinput := h.input_eq
    rw [input?, ht] at hinput
    exact h.faithful t ht s c (Option.some.inj hinput).symm o hfound
  · cases ho

/-- An outcome that is meant may be remembered. -/
theorem FaithfulOn.remember {e : Engine g} {c : Cursor} (h : e.FaithfulOn c.input) {s : S}
    {o : Outcome (V s)} (ho : g.meaning s c = .ok o) :
    (e.remember s c.size o).FaithfulOn c.input := by
  unfold Engine.remember
  split
  · obtain ⟨t, ht, hinput, hsize⟩ := exists_table h.input_eq
    refine ⟨?_, by simp [input?, ht, Table.insert, hinput]⟩
    intro t' ht' u d hd o' ho'
    simp only [ht, Option.map_some, Option.some.injEq] at ht'
    subst ht'
    change d.input = t.input at hd
    by_cases hplace : d.size = c.size
    · obtain rfl : d = c := ext_size (hd.trans hinput) hplace
      by_cases hu : u = s
      · subst hu
        rw [Table.find?_insert_self t u hsize] at ho'
        cases ho'
        exact ho
      · rw [Table.find?_insert_ne t hsize (Or.inl hu)] at ho'
        exact h.faithful t ht u d hd o' ho'
    · rw [Table.find?_insert_ne t hsize (Or.inr hplace)] at ho'
      exact h.faithful t ht u d hd o' ho'
  · exact h

end Engine

namespace Parser

open Engine

variable [DecidableEq S]
variable {P Q : Engine g → Prop} {low high : Except Halt α} {p : Parser g α}

/-- Whatever the input was before, afterwards the engine works on that of the cursor. -/
theorem Within.observe {c : Cursor} (h : Within (FaithfulOn c.input) Q low high p) :
    Within Faithful Q low high (do observe c; p) := by
  intro w hw
  simp only [answer, after, Bind.bind, EStateM.bind, observe_eq]
  by_cases hinput : w.engine.input? = some c.input
  · rw [if_pos hinput]
    exact h w ⟨hw, hinput⟩
  · rw [if_neg hinput]
    exact h ⟨w.engine.switch c.input, _⟩ (faithfulOn_switch _ _)

theorem shapeOf_within (input : Input) (s : S) :
    Within (g := g) (FaithfulOn input) (FaithfulOn input) ((g.checked s).mapError Halt.failure)
      ((g.checked s).mapError Halt.failure) (shapeOf s) := by
  intro w hw
  have hregister : (w.engine.register s).FaithfulOn input := hw.of_table_eq rfl
  simp only [answer, after, shapeOf_eq]
  cases g.checked s with
  | error error =>
    refine ⟨.refl _, .refl _, ?_⟩
    simp only
    split
    · exact hw
    · exact hw
  | ok shape =>
    refine ⟨.refl _, .refl _, ?_⟩
    simp only
    split
    · exact hw
    · exact hregister

/-- Where the table has no answer, the shape is matched and its outcome remembered. -/
theorem settle_within {depth : Nat} {call : Caller g} {c : Cursor} (hc : c.atEnd = false)
    (h : CallsWithin (FaithfulOn c.input) c (g.read depth) g.meaning call) (s : S) :
    Within (FaithfulOn c.input) (FaithfulOn c.input) (g.read (depth + 1) s c) (g.meaning s c) (do
      let shape ← shapeOf s
      note (.evaluated s c.size)
      let outcome ← evaluate call s c shape
      remember s c.size outcome
      note (.settled s c.size)
      pure outcome) := by
  have hsplit : ∀ read : Reader V, g.readSymbol read s c =
      (g.checked s).mapError Halt.failure >>= g.readShape read s c := by
    intro read
    unfold Grammar.readSymbol
    cases g.checked s <;> rfl
  rw [Grammar.read_succ _ _ hc, Grammar.meaning_eq s hc, hsplit, hsplit]
  refine (shapeOf_within c.input s).bind fun shape hshape => .note _ ?_
  have hchecked : g.checked s = .ok shape := by
    cases hchecked : g.checked s with
    | error error =>
      rw [hchecked] at hshape
      cases hshape
    | ok shape' =>
      rw [hchecked] at hshape
      cases hshape
      rfl
  refine (evaluate_within (Grammar.meaning_sound g) h hchecked).tail fun o ho => ?_
  have hmeant : g.meaning s c = .ok o := by
    rw [Grammar.meaning_eq s hc, hsplit, hshape]
    exact ho
  exact .change (fun _ he => he.remember hmeant) (.note _ (.pure _ o))

theorem invoke_within {depth : Nat} {call : Caller g} {c : Cursor} (hc : c.atEnd = false)
    (h : CallsWithin (FaithfulOn c.input) c (g.read depth) g.meaning call) (s : S) :
    Within Faithful (FaithfulOn c.input) (g.read (depth + 1) s c) (g.meaning s c)
      (invoke call s c) := by
  refine .observe (.note _ (.notingFailure _ ?_))
  intro w hw
  have hcount : (w.engine.count (w.engine.find? s c.size).isSome).FaithfulOn c.input :=
    hw.of_table_eq (table_count _ _)
  simp only [answer, after, Bind.bind, EStateM.bind, lookUp_eq]
  cases hfind : w.engine.find? s c.size with
  | some o =>
    rw [hfind] at hcount
    have hmeant := hw.find? hfind
    refine ⟨?_, Or.inr hmeant.symm, hcount⟩
    have hlow := Grammar.read_approximates_meaning g (depth + 1) s c
    rwa [hmeant] at hlow
  | none =>
    rw [hfind] at hcount
    exact settle_within hc h s _ hcount

theorem call_atEnd (depth : Nat) (s : S) {c : Cursor} (h : c.atEnd = true) :
    (call depth s c : Parser g (Outcome (V s))) = pure none := by
  cases depth <;> simp [call, h]

/-- A nested call stays on the input that the engine is at work on. -/
theorem call_within_on (g : Grammar S V) (depth : Nat) (s : S) (c : Cursor) :
    Within (g := g) (FaithfulOn c.input) (FaithfulOn c.input) (g.read depth s c)
      (g.meaning s c) (call depth s c) := by
  induction depth generalizing s c with
  | zero =>
    simp only [call, Grammar.read]
    split
    · rename_i hend
      rw [Grammar.meaning_atEnd s hend]
      exact .pure _ none
    · exact fun w hw => ⟨.refl _, Or.inl rfl, hw⟩
  | succ depth ih =>
    cases hend : c.atEnd with
    | true =>
      rw [Grammar.read_atEnd _ s hend, Grammar.meaning_atEnd s hend, call_atEnd _ s hend]
      exact .pure _ none
    | false =>
      have hinvoke := invoke_within hend (fun t d hd => hd.1 ▸ ih t d) s
      rw [call, if_neg (by simp [hend])]
      exact hinvoke.weaken (fun _ he => he.faithful) (fun _ he => he)

theorem call_within (g : Grammar S V) (depth : Nat) (s : S) (c : Cursor) :
    Within (g := g) Faithful Faithful (g.read depth s c) (g.meaning s c) (call depth s c) := by
  cases hend : c.atEnd with
  | true =>
    rw [Grammar.read_atEnd _ s hend, Grammar.meaning_atEnd s hend, call_atEnd depth s hend]
    exact .pure _ none
  | false =>
    cases depth with
    | zero =>
      simp only [call, Grammar.read, hend]
      exact fun w hw => ⟨.refl _, Or.inl rfl, hw⟩
    | succ depth =>
      have hinvoke := invoke_within hend (fun t d hd => hd.1 ▸ call_within_on g depth t d) s
      rw [call, if_neg (by simp [hend])]
      exact hinvoke.weaken (fun _ he => he) (fun _ he => he.faithful)

section Scripts

variable {c : Cursor} {depth : Nat} {w : Work g}

section

variable {p : Caller g → Parser g α} {r : Reader V → Except Halt α}
  (hp : ∀ base : Reader V, base.Sound g →
    Scripted (fun _ => True) (fun _ d => c ≤ d) base p r)
include hp

/-- What a script comes to is what it reads, except where the depth of calls cuts it short. -/
theorem within_of_scripted (depth : Nat) :
    Within Faithful Faithful (r (g.read depth)) (r g.meaning) (p (call depth)) :=
  (hp _ (Grammar.meaning_sound g)).within fun t d _ => call_within g depth t d

/-- Calls that may nest deeply enough do not cut a script short. -/
theorem answer_of_scripted (hdepth : g.symbols.length * c.size ≤ depth)
    (hw : w.engine.Faithful) : (p (call depth)).answer w = r g.meaning := by
  have hsame : ∀ t d, c ≤ d → g.read depth t d = g.meaning t d := fun t d hd =>
    Grammar.read_eq_meaning ((Nat.mul_le_mul_left _ (size_le_of_le hd)).trans hdepth) t
  have hbelow := (hp _ (Grammar.read_sound g depth)).approximates
    fun t d hd => Or.inr (hsame t d hd)
  have habove := (hp _ (Grammar.meaning_sound g)).approximates
    fun t d hd => Or.inr (hsame t d hd).symm
  exact (within_of_scripted hp depth).answer_eq (hbelow.antisymm habove) hw

end

theorem component_within (g : Grammar S V) (depth : Nat) (c : Cursor) (p : Policy S) :
    Within (g := g) Faithful Faithful (Reader.component (g.read depth) c p)
      (Reader.component g.meaning c p) (component (call depth) c p) :=
  within_of_scripted (fun _ hbase =>
    component_scripted (fun _ _ => trivial) hbase p fun _ _ _ hd => hd) depth

theorem answer_component (hdepth : g.symbols.length * c.size ≤ depth) (hw : w.engine.Faithful)
    (p : Policy S) :
    (component (call depth) c p).answer w = Reader.component g.meaning c p :=
  answer_of_scripted (fun _ hbase =>
    component_scripted (fun _ _ => trivial) hbase p fun _ _ _ hd => hd) hdepth hw

theorem answer_components (hdepth : g.symbols.length * c.size ≤ depth) (hw : w.engine.Faithful)
    (s : S) (ds : List (Component S)) (fields : Fields V) :
    (components (call depth) s ds c fields).answer w =
      Reader.components g.meaning ds c fields :=
  answer_of_scripted (fun _ hbase =>
    components_scripted (fun _ _ => trivial) hbase s (fun _ _ _ _ _ _ _ hd _ => hd) fields)
    hdepth hw

end Scripts

end Parser

end Packrat
