import Mathlib.Algebra.Group.Action.Defs
import Mathlib.Algebra.Order.BigOperators.Group.List
import Mathlib.SetTheory.Cardinal.NatCard
import Packrat.Proofs.Switches

/-!
How much a table keeps. An outcome is remembered where nothing was found and where tokens are left,
so it takes a place of its own: as many outcomes are kept as evaluations were settled since the
table was dropped, and no more than there are pairs of a symbol and a place with tokens left.
-/
namespace Packrat

variable {S : Type} {V : S → Type} {g : Grammar S V}

theorem Grammar.finite (g : Grammar S V) : Finite S :=
  Set.finite_univ_iff.mp ((List.finite_toSet g.symbols).subset fun s _ => g.mem_symbols s)

def Event.isSettled : Event S → Bool
  | settled _ _ => true
  | _ => false

theorem Event.isSettled_of_isRemark {event : Event S} (h : event.isRemark = true) :
    event.isSettled = false := by
  cases event <;> first | rfl | cases h

namespace Cell

variable [DecidableEq S] {s : S}

theorem find?_eq_none_iff {cell : Cell V} : cell.find? s = none ↔ ∀ entry ∈ cell, entry.1 ≠ s := by
  induction cell with
  | nil => simp [find?]
  | cons entry rest ih =>
    obtain ⟨t, outcome⟩ := entry
    rw [find?, List.forall_mem_cons, ← ih]
    by_cases h : t = s
    · simp [h]
    · simp [h]

theorem length_insert {cell : Cell V} (h : cell.find? s = none) (outcome : Outcome (V s)) :
    (cell.insert s outcome).length = cell.length + 1 := by
  have hkept : cell.filter (fun entry => entry.1 != s) = cell :=
    List.filter_eq_self.mpr fun entry hmem => bne_iff_ne.mpr (find?_eq_none_iff.mp h entry hmem)
  rw [insert, hkept, List.length_cons]

theorem nodup_insert {cell : Cell V} (h : (cell.map Sigma.fst).Nodup) (outcome : Outcome (V s)) :
    ((cell.insert s outcome).map Sigma.fst).Nodup := by
  rw [insert, List.map_cons, List.nodup_cons]
  refine ⟨?_, h.sublist (List.filter_sublist.map _)⟩
  simp

end Cell

namespace Table

/-- A symbol stands in a cell at most once, and the cell where no token is left is empty. -/
structure Tidy (t : Table V) : Prop where
  nodup : ∀ left, ((t.cell left).map Sigma.fst).Nodup
  atEnd : t.cell 0 = []

theorem tidy_blank (input : Input) : (blank input : Table V).Tidy := by
  have hcell : ∀ left, (blank input : Table V).cell left = [] := by
    intro left
    simp only [cell, blank, Array.getElem?_replicate]
    split <;> rfl
  exact ⟨fun left => by simp [hcell], hcell 0⟩

theorem Tidy.length_cell_le [Finite S] {t : Table V} (h : t.Tidy) (left : Nat) :
    (t.cell left).length ≤ Nat.card S := by
  rw [← List.length_map Sigma.fst]
  exact (h.nodup left).length_le_natCard

/-- There is room for each symbol at each place with tokens left. -/
theorem Tidy.size_le [Finite S] {t : Table V} (h : t.Tidy) :
    t.size ≤ Nat.card S * t.input.size := by
  obtain ⟨first, rest, hcells⟩ : ∃ first rest, t.cells.toList = first :: rest :=
    List.exists_cons_of_length_pos (by rw [Array.length_toList, t.size_cells]; omega)
  have hcell : ∀ left c, (first :: rest)[left]? = some c → t.cell left = c := by
    intro left c hc
    rw [← hcells, Array.getElem?_toList] at hc
    rw [cell, hc, Option.getD_some]
  -- The cell where no token is left takes up no room.
  have hfirst : first = [] := (hcell 0 first rfl).symm.trans h.atEnd
  have hrest : rest.length = t.input.size := by
    have hlength := congrArg List.length hcells
    rw [Array.length_toList, t.size_cells, List.length_cons] at hlength
    omega
  have hle : ∀ n ∈ rest.map List.length, n ≤ Nat.card S := by
    intro n hn
    obtain ⟨c, hc, rfl⟩ := List.mem_map.mp hn
    obtain ⟨left, hleft⟩ := List.mem_iff_getElem?.mp hc
    rw [← hcell (left + 1) c hleft]
    exact h.length_cell_le (left + 1)
  have hsum := List.sum_le_card_nsmul _ _ hle
  rw [List.length_map, hrest, smul_eq_mul, Nat.mul_comm] at hsum
  rwa [size, hcells, hfirst, List.flatten_cons, List.nil_append, List.length_flatten]

variable [DecidableEq S] {s : S}

theorem Tidy.insert {t : Table V} (h : t.Tidy) (s : S) {left : Nat} (hleft : left ≠ 0)
    (hsize : left ≤ t.input.size) (outcome : Outcome (V s)) : (t.insert s left outcome).Tidy where
  nodup n := by
    rw [cell_insert t s hsize]
    split
    · exact Cell.nodup_insert (h.nodup n) outcome
    · exact h.nodup n
  atEnd := by rw [cell_insert t s hsize, if_neg hleft.symm, h.atEnd]

/-- What is inserted where nothing was found takes a place of its own. -/
theorem size_insert {t : Table V} {left : Nat} (hsize : left ≤ t.input.size)
    (h : t.find? s left = none) (outcome : Outcome (V s)) :
    (t.insert s left outcome).size = t.size + 1 := by
  have hlt : left < t.cells.toList.length := by
    rw [Array.length_toList, t.size_cells]
    omega
  have hcell : t.cells.toList[left].find? s = none := by
    simpa [find?, cell, Array.getElem?_eq_getElem (Array.length_toList ▸ hlt)] using h
  have hsplit : t.cells.toList = t.cells.toList.take left ++
      t.cells.toList[left] :: t.cells.toList.drop (left + 1) := by
    rw [← List.drop_eq_getElem_cons hlt, List.take_append_drop]
  have hinsert := Cell.length_insert hcell outcome
  rw [size, size, insert, Array.toList_modify, List.modify_eq_take_cons_drop hlt]
  conv_rhs => rw [hsplit]
  simp only [List.flatten_append, List.flatten_cons, List.length_append, hinsert]
  omega

end Table

namespace Engine

/-- An engine that memoizes, with the log of all that it has done, latest event first. It keeps an
outcome for each evaluation settled since its table was dropped. -/
structure Stocked (e : Engine g) (log : List (Event S)) : Prop where
  memoize : e.memoize = true
  remembered_eq : e.remembered = (sinceReset log).countP Event.isSettled
  tidy : ∀ t, e.table = some t → t.Tidy

variable {e e' : Engine g} {log : List (Event S)} {event : Event S}

namespace Stocked

theorem fresh (g : Grammar S V) : (fresh g true).Stocked [] where
  memoize := rfl
  remembered_eq := rfl
  tidy t ht := by cases ht

theorem reset (h : e.Stocked log) (input : Input) :
    (e.switch input).Stocked (.newInput e.remembered :: log) where
  memoize := h.memoize
  remembered_eq := Table.size_blank input
  tidy t ht := by
    cases ht
    exact Table.tidy_blank input

theorem aside (h : e.Stocked log) (hmemoize : e'.memoize = e.memoize)
    (htable : e'.table = e.table) (hreset : event.isReset = false)
    (hsettled : event.isSettled = false) : e'.Stocked (event :: log) where
  memoize := hmemoize.trans h.memoize
  remembered_eq := by
    rw [remembered, htable, sinceReset_cons hreset, List.countP_cons_of_neg (by simp [hsettled])]
    exact h.remembered_eq
  tidy t ht := h.tidy t (htable ▸ ht)

/-- The engine keeps no more outcomes than there are symbols and places with tokens left. -/
theorem remembered_le (h : e.Stocked log) :
    e.remembered ≤ Nat.card S * e.input?.elim 0 Input.size := by
  have := g.finite
  unfold remembered input?
  cases ht : e.table with
  | none => exact Nat.zero_le _
  | some t => exact (h.tidy t ht).size_le

end Stocked

variable [DecidableEq S] {s : S} {c : Cursor}

/-- What is remembered where nothing was found adds to what the engine keeps. -/
theorem remembered_remember (hmemoize : e.memoize = true) (hinput : e.input? = some c.input)
    (hnone : e.find? s c.size = none) (o : Outcome (V s)) :
    (e.remember s c.size o).remembered = e.remembered + 1 := by
  obtain ⟨t, ht, -, hsize⟩ := exists_table hinput
  have hfind : t.find? s c.size = none := by simpa [find?, hmemoize, ht] using hnone
  simp [remember, remembered, hmemoize, ht, Table.size_insert hsize hfind]

theorem Stocked.settled (h : e.Stocked log) (hend : c.atEnd = false)
    (hinput : e.input? = some c.input) (hnone : e.find? s c.size = none) (o : Outcome (V s)) :
    (e.remember s c.size o).Stocked (.settled s c.size :: log) where
  memoize := (e.memoize_remember s c.size o).trans h.memoize
  remembered_eq := by
    rw [remembered_remember h.memoize hinput hnone, h.remembered_eq, sinceReset_cons rfl,
      List.countP_cons_of_pos rfl]
  tidy t ht := by
    obtain ⟨t', ht', -, hsize⟩ := exists_table hinput
    have hinsert : (e.remember s c.size o).table = some (t'.insert s c.size o) := by
      simp [remember, h.memoize, ht']
    rw [hinsert] at ht
    cases ht
    exact (h.tidy t' ht').insert s (Cursor.size_ne_zero hend) hsize o

end Engine

section Stocking

variable [DecidableEq S]

/-- A run after `past` in which the calls of `stack` are evaluated. Their outcomes are not found
before they are settled. -/
structure Stocking (past : List (Event S)) (stack : List (S × Nat)) (w : Work g) : Prop where
  stocked : w.engine.Stocked (w.journal ++ past)
  nodup : stack.Nodup
  pending : ∀ call ∈ stack, w.engine.find? call.1 call.2 = none

namespace Stocking

variable {past : List (Event S)} {stack : List (S × Nat)} {w : Work g} {e : Engine g}
  {event : Event S} {s : S} {left : Nat} {c : Cursor}

theorem start (h : e.Stocked past) : Stocking past [] { engine := e } := ⟨h, by simp, by simp⟩

theorem aside (h : Stocking past stack w) (hmemoize : e.memoize = w.engine.memoize)
    (htable : e.table = w.engine.table) (hreset : event.isReset = false)
    (hsettled : event.isSettled = false) : Stocking past stack ⟨e, event :: w.journal⟩ where
  stocked := h.stocked.aside hmemoize htable hreset hsettled
  nodup := h.nodup
  pending call hmem := by
    rw [Engine.find?_of_table_eq hmemoize htable]
    exact h.pending call hmem

theorem opening (h : Stocking past stack w) (hmemoize : e.memoize = w.engine.memoize)
    (htable : e.table = w.engine.table) (hopening : event.isOpening = true) :
    Stocking past stack ⟨e, event :: w.journal⟩ :=
  h.aside hmemoize htable (Event.isReset_of_isOpening hopening)
    (by cases event <;> first | rfl | cases hopening)

theorem lookingUp (h : Stocking past stack w) (s : S) (left : Nat) :
    Stocking past stack (w.lookingUp s left) :=
  h.aside (Engine.memoize_count _ _) (Engine.table_count _ _) rfl rfl

theorem building (h : Stocking past stack w) (s : S) (left : Nat) :
    Stocking past stack ((w.lookingUp s left).building s) :=
  Work.building_of_openings (fun h hmemoize htable _ => h.opening hmemoize htable)
    (h.lookingUp s left)

theorem entering (h : Stocking past stack w) (hnone : w.engine.find? s left = none)
    (hstack : (s, left) ∉ stack) : Stocking past ((s, left) :: stack) (w.entering s left) := by
  have hentered : Stocking past stack (w.entering s left) :=
    Work.entering_of_openings (fun h hmemoize htable _ => h.opening hmemoize htable)
      (h.lookingUp s left)
  refine ⟨hentered.stocked, List.nodup_cons.mpr ⟨hstack, h.nodup⟩,
    List.forall_mem_cons.mpr ⟨?_, hentered.pending⟩⟩
  rw [w.find?_entering]
  exact hnone

/-- What is settled was not found before, and what is still evaluated is not found now. -/
theorem settling (h : Stocking past ((s, c.size) :: stack) w)
    (hinput : w.engine.input? = some c.input) (hend : c.atEnd = false) (o : Outcome (V s)) :
    Stocking past stack (w.settling s c.size o) := by
  obtain ⟨hself, hpending⟩ := List.forall_mem_cons.mp h.pending
  obtain ⟨hnot, hnodup⟩ := List.nodup_cons.mp h.nodup
  refine ⟨h.stocked.settled hend hinput hself o, hnodup, fun call hmem => ?_⟩
  have hne : call.1 ≠ s ∨ call.2 ≠ c.size := by
    rw [← not_and_or]
    rintro ⟨rfl, hleft⟩
    exact hnot (hleft ▸ hmem)
  rw [Work.settling, Engine.find?_remember_ne hinput s o hne]
  exact hpending call hmem

end Stocking

theorem stocking_upheld (g : Grammar S V) (past : List (Event S)) :
    Parser.Upheld g (Stocking past) fun _ w => w.engine.Stocked (w.journal ++ past) where
  reset h _ := ⟨h.stocked.reset _, by simp, by simp⟩
  hit h _ := h.lookingUp _ _
  invalid h _ _ := (h.building _ _).stocked
  enter h hnone _ hstack := h.entering hnone hstack
  remark h hremark := h.aside rfl rfl (Event.isReset_of_isAside (Event.isAside_of_isRemark hremark))
    (Event.isSettled_of_isRemark hremark)
  leave o h hinput hend := h.settling hinput hend o
  consult o h hnone _ hstack hinput hend :=
    ((h.entering hnone hstack).aside rfl rfl rfl rfl).settling
      ((Work.input_entering ..).trans hinput) hend o
  refuse _ h := h.stocked
  failed _ _ h := h.aside rfl rfl rfl rfl

end Stocking

namespace Engine

variable [DecidableEq S]

theorem Stocked.serve {e : Engine g} {past : List (Event S)} (h : e.Stocked past)
    (hg : g.LeftRecursionFree) (he : e.Faithful) (r : Request S) :
    (e.serve r).engine.Stocked ((e.serve r).journal.reverse ++ past) := by
  rcases (stocking_upheld g past).serve hg he (.start h) r with ⟨v, -, hw⟩ | ⟨halt, -, hw⟩
  · exact hw.stocked
  · exact hw

/-- Calls that fail make no difference to what is kept: their evaluations are not settled. -/
theorem Stocked.serveAll {e : Engine g} {past : List (Event S)} (h : e.Stocked past)
    (hg : g.LeftRecursionFree) (he : e.Faithful) (history : List (Request S)) :
    (e.serveAll history).Stocked ((e.journal history).reverse ++ past) :=
  serveAll_keeps (fun he h r => h.serve hg he r) he h history

end Engine

end Packrat
