import Mathlib.Data.Finset.Prod
import Mathlib.Order.Interval.Finset.Nat
import Packrat.Proofs.Script

/-!
How deep calls have to nest. A reading that was cut short approximates every other one, and more
depth only fills in what was cut short. One call for each symbol and each place is always deep
enough: an outcome that still changes at some depth needs a chain of calls of that length, and no
symbol occurs twice in it at one place. So the meaning of a grammar is a fixed point.
-/
namespace Packrat

variable {S : Type} {V : S → Type} {g : Grammar S V} {α β : Type}

open Grammar Cursor

/-- `r` is `t`, or was cut short. -/
def Approximates (r t : Except Halt α) : Prop := r = .error .leftRecursion ∨ r = t

namespace Approximates

theorem refl (r : Except Halt α) : Approximates r r := Or.inr rfl

theorem trans {r t u : Except Halt α} (hrt : Approximates r t) (htu : Approximates t u) :
    Approximates r u := by
  rcases hrt with hcut | rfl
  · exact Or.inl hcut
  · exact htu

theorem antisymm {r t : Except Halt α} (hrt : Approximates r t) (htr : Approximates t r) :
    r = t := by
  rcases hrt with hcut | heq
  · rcases htr with hcut' | heq
    · rw [hcut, hcut']
    · exact heq.symm
  · exact heq

theorem eq_of_ne {r t : Except Halt α} (h : Approximates r t)
    (hne : r ≠ .error .leftRecursion) : t = r := (h.resolve_left hne).symm

theorem eq_ok {a : α} {t : Except Halt α} (h : Approximates (.ok a) t) : t = .ok a :=
  h.eq_of_ne (by simp)

theorem bind {r t : Except Halt α} {f k : α → Except Halt β} (h : Approximates r t)
    (hf : ∀ a, r = .ok a → Approximates (f a) (k a)) : Approximates (r >>= f) (t >>= k) := by
  rcases h with rfl | rfl
  · exact Or.inl rfl
  · cases r with
    | error halt => exact refl _
    | ok a => exact hf a rfl

end Approximates

namespace Reader

/-- From `c` on, `low` says what `high` says or was cut short. -/
def ApproximatesFrom (c : Cursor) (low high : Reader V) : Prop :=
  ∀ s d, c ≤ d → Approximates (low s d) (high s d)

end Reader

/-- Along a script, more is known wherever more is known of its calls. -/
theorem Parser.Scripted.approximates {E : Event S → Prop} {C : S → Cursor → Prop}
    {low high : Reader V} {p : Caller g → Parser g α} {r : Reader V → Except Halt α}
    (hp : Scripted E C low p r) (h : ∀ s c, C s c → Approximates (low s c) (high s c)) :
    Approximates (r low) (r high) := by
  induction hp with
  | pure a => exact .refl _
  | fail error => exact .refl _
  | note _ _ ih => exact ih
  | call hcalled _ ih => exact (h _ _ hcalled).bind ih

theorem Reader.component_approximates {low high : Reader V} {c : Cursor} (hlow : low.Sound g)
    (h : low.ApproximatesFrom c high) (p : Policy S) :
    Approximates (component low c p) (component high c p) := by
  have hscript := Parser.component_scripted (E := fun _ => True) (C := fun _ d => c ≤ d)
    (fun _ _ => trivial) hlow p fun _ _ _ hd => hd
  exact hscript.approximates h

namespace Grammar

variable {c : Cursor}

theorem readSymbol_approximates {low high : Reader V} (hlow : low.Sound g)
    (h : low.ApproximatesFrom c high) (s : S) :
    Approximates (g.readSymbol low s c) (g.readSymbol high s c) := by
  unfold readSymbol
  split
  · exact .refl _
  · rename_i shape hshape
    have hscript := Parser.evaluate_scripted (E := fun _ => True) hlow (fun _ _ => trivial) c
      hshape fun _ _ => trivial
    exact hscript.approximates fun t d hcall => h t d hcall.1

/-- More depth only fills in what was cut short. -/
theorem read_approximates_succ (g : Grammar S V) (depth : Nat) (s : S) (c : Cursor) :
    Approximates (g.read depth s c) (g.read (depth + 1) s c) := by
  induction depth generalizing s c with
  | zero =>
    simp only [read]
    split
    · exact .refl _
    · exact Or.inl rfl
  | succ depth ih =>
    rw [read, read]
    split
    · exact .refl _
    · exact readSymbol_approximates (read_sound g depth) (fun t d _ => ih t d) s

theorem read_approximates_of_le (g : Grammar S V) {depth depth' : Nat} (h : depth ≤ depth')
    (s : S) (c : Cursor) : Approximates (g.read depth s c) (g.read depth' s c) := by
  induction h with
  | refl => exact .refl _
  | step _ ih => exact ih.trans (read_approximates_succ g _ s c)

/-- The outcome is no longer the same with one more nested call. -/
def ChangesAt (g : Grammar S V) (depth : Nat) (s : S) (c : Cursor) : Prop :=
  g.read (depth + 1) s c ≠ g.read depth s c

theorem ChangesAt.cut {depth : Nat} {s : S} (h : g.ChangesAt depth s c) :
    g.read depth s c = .error .leftRecursion ∧ g.read (depth + 1) s c ≠ .error .leftRecursion := by
  rcases read_approximates_succ g depth s c with hcut | heq
  · exact ⟨hcut, fun hcut' => h (by rw [hcut, hcut'])⟩
  · exact absurd heq.symm h

theorem ChangesAt.not_atEnd {depth : Nat} {s : S} (h : g.ChangesAt depth s c) :
    c.atEnd = false := by
  by_contra hend
  rw [Bool.not_eq_false] at hend
  exact h (by rw [read_atEnd _ _ hend, read_atEnd _ _ hend])

/-- An outcome changes at one depth only. -/
theorem ChangesAt.unique {depth depth' : Nat} {s : S} (h : g.ChangesAt depth s c)
    (h' : g.ChangesAt depth' s c) : depth = depth' := by
  have below : ∀ {i j : Nat}, g.ChangesAt i s c → g.ChangesAt j s c → ¬ i < j := by
    intro i j hi hj hij
    have hfilled := (read_approximates_of_le g hij s c).eq_of_ne hi.cut.2
    exact hi.cut.2 (hfilled.symm.trans hj.cut.1)
  have hle := below h h'
  have hge := below h' h
  omega

/-- An outcome that changes is owed to a call that changes one level further down. -/
theorem ChangesAt.nested {depth : Nat} {s : S} (h : g.ChangesAt (depth + 1) s c) :
    ∃ t d, c ≤ d ∧ g.ChangesAt depth t d := by
  by_contra hnone
  have hsame : ∀ t d, c ≤ d → g.read (depth + 1) t d = g.read depth t d := by
    intro t d hd
    by_contra hne
    exact hnone ⟨t, d, hd, hne⟩
  have hend := h.not_atEnd
  apply h
  rw [read_succ _ _ hend, read_succ _ _ hend]
  apply Approximates.antisymm
  · exact readSymbol_approximates (read_sound g _) (fun t d hd => Or.inr (hsame t d hd)) s
  · exact readSymbol_approximates (read_sound g _) (fun t d hd => Or.inr (hsame t d hd).symm) s

/-- The calls that an outcome owes its changes to, by symbol and tokens left, are all distinct. -/
theorem ChangesAt.chain [DecidableEq S] {depth : Nat} {s : S} (h : g.ChangesAt depth s c) :
    ∃ calls : Finset (S × Nat), calls.card = depth + 1 ∧ ∀ call ∈ calls, ∃ d, c ≤ d ∧
      d.size = call.2 ∧ ∃ i ≤ depth, g.ChangesAt i call.1 d := by
  induction depth generalizing s c with
  | zero =>
    refine ⟨{(s, c.size)}, by simp, ?_⟩
    intro call hcall
    rw [Finset.mem_singleton] at hcall
    subst hcall
    exact ⟨c, le_rfl, rfl, 0, le_rfl, h⟩
  | succ depth ih =>
    obtain ⟨t, d, hd, hnested⟩ := h.nested
    obtain ⟨calls, hcard, hcalls⟩ := ih hnested
    have hnew : (s, c.size) ∉ calls := by
      intro hmem
      obtain ⟨e, he, hsize, i, hi, hchange⟩ := hcalls _ hmem
      obtain rfl : e = c := ext_size (input_eq_of_le (hd.trans he)) hsize
      have := h.unique hchange
      omega
    refine ⟨insert (s, c.size) calls, ?_, ?_⟩
    · rw [Finset.card_insert_of_notMem hnew, hcard]
    · intro call hcall
      rcases Finset.mem_insert.mp hcall with rfl | hmem
      · exact ⟨c, le_rfl, rfl, depth + 1, le_rfl, h⟩
      · obtain ⟨e, he, hsize, i, hi, hchange⟩ := hcalls call hmem
        exact ⟨e, hd.trans he, hsize, i, by omega, hchange⟩

/-- There are not more calls to owe a change to than symbols and places. -/
theorem ChangesAt.lt {depth : Nat} {s : S} (h : g.ChangesAt depth s c) :
    depth < g.symbols.length * c.size := by
  classical
  obtain ⟨calls, hcard, hcalls⟩ := h.chain
  have hsub : calls ⊆ g.symbols.toFinset ×ˢ Finset.Icc 1 c.size := by
    intro call hcall
    obtain ⟨d, hd, hsize, i, -, hchange⟩ := hcalls call hcall
    have hsome : d.size ≠ 0 := size_ne_zero hchange.not_atEnd
    have hle := size_le_of_le hd
    rw [Finset.mem_product, List.mem_toFinset, Finset.mem_Icc]
    exact ⟨g.mem_symbols call.1, by omega, by omega⟩
  have hle := Finset.card_le_card hsub
  rw [hcard, Finset.card_product, Nat.card_Icc, Nat.add_sub_cancel] at hle
  calc
    depth + 1 ≤ g.symbols.toFinset.card * c.size := hle
    _ ≤ g.symbols.length * c.size := Nat.mul_le_mul_right _ g.symbols.toFinset_card_le

/-- One call for each symbol and each place is deep enough. -/
theorem read_eq_meaning {depth : Nat} (h : g.symbols.length * c.size ≤ depth) (s : S) :
    g.read depth s c = g.meaning s c := by
  induction h with
  | refl => rfl
  | @step depth hle ih =>
    rw [← ih]
    by_contra hchange
    have := ChangesAt.lt hchange
    simp only [Nat.le_eq] at hle
    omega

theorem read_approximates_meaning (g : Grammar S V) (depth : Nat) (s : S) (c : Cursor) :
    Approximates (g.read depth s c) (g.meaning s c) := by
  rcases Nat.le_total depth (g.symbols.length * c.size) with hle | hge
  · exact read_approximates_of_le g hle s c
  · exact Or.inr (read_eq_meaning hge s)

/-- Where tokens are left, a symbol means what its declaration says in terms of the meanings of
all symbols. -/
theorem meaning_eq (s : S) (h : c.atEnd = false) : g.meaning s c = g.readSymbol g.meaning s c := by
  have hsame : ∀ t d, c ≤ d →
      g.read (g.symbols.length * c.size) t d = g.meaning t d := fun t d hd =>
    read_eq_meaning (Nat.mul_le_mul_left _ (size_le_of_le hd)) t
  rw [← read_eq_meaning (Nat.le_succ _), read_succ _ _ h]
  apply Approximates.antisymm
  · exact readSymbol_approximates (read_sound g _) (fun t d hd => Or.inr (hsame t d hd)) s
  · exact readSymbol_approximates (meaning_sound g) (fun t d hd => Or.inr (hsame t d hd).symm) s

end Grammar

end Packrat
