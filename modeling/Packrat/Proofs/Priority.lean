import Mathlib.Data.List.Nodup
import Packrat.Shape

/-!
The order of attempts. It is the one ascending order in which the components of each single
priority stay as they were declared. So it depends on how priorities compare, not on what they
are, and only the flaw that a check comes upon first depends on the order of a declaration.
-/
namespace Packrat.Component

variable {S : Type} {ds es : List (Component S)}

/-- The components of one priority, as they are ordered. -/
def ofPriority (p : Int) (ds : List (Component S)) : List (Component S) :=
  ds.filter fun d => d.priority = p

theorem ofPriority_insertByPriority (p : Int) (c : Component S) (ds : List (Component S)) :
    ofPriority p (insertByPriority c ds) = ofPriority p (c :: ds) := by
  unfold ofPriority
  induction ds with
  | nil => rfl
  | cons d rest ih =>
    rw [insertByPriority]
    split
    · rfl
    · rename_i hlt
      by_cases hd : d.priority = p
      · have hc : c.priority ≠ p := by omega
        rw [List.filter_cons, ih]
        simp [hc, hd]
      · rw [List.filter_cons, ih]
        simp [List.filter_cons, hd]

/-- Equal priorities keep the order of their declaration. -/
theorem ofPriority_byPriority (p : Int) (ds : List (Component S)) :
    ofPriority p (byPriority ds) = ofPriority p ds := by
  induction ds with
  | nil => rfl
  | cons d rest ih =>
    change ofPriority p (insertByPriority d (byPriority rest)) = _
    rw [ofPriority_insertByPriority]
    unfold ofPriority at ih ⊢
    rw [List.filter_cons, List.filter_cons, ih]

theorem mem_of_ofPriority_eq (h : ∀ p, ofPriority p ds = ofPriority p es) {d : Component S}
    (hd : d ∈ ds) : d ∈ es := by
  have hmem : d ∈ ofPriority d.priority ds := List.mem_filter.mpr ⟨hd, by simp⟩
  rw [h] at hmem
  exact (List.mem_filter.mp hmem).1

/-- An ascending order is determined by the order within each single priority. -/
theorem eq_of_ascending (hds : ds.Pairwise fun c d => c.priority ≤ d.priority)
    (hes : es.Pairwise fun c d => c.priority ≤ d.priority)
    (h : ∀ p, ofPriority p ds = ofPriority p es) : ds = es := by
  induction ds generalizing es with
  | nil =>
    refine (List.eq_nil_iff_forall_not_mem.mpr fun d hd => ?_).symm
    exact List.not_mem_nil (mem_of_ofPriority_eq (fun p => (h p).symm) hd)
  | cons c ds ih =>
    cases es with
    | nil => exact (List.not_mem_nil (mem_of_ofPriority_eq h List.mem_cons_self)).elim
    | cons d es =>
      obtain ⟨hc, hrest⟩ := List.pairwise_cons.mp hds
      obtain ⟨hd, hrest'⟩ := List.pairwise_cons.mp hes
      -- The first of either list is the least in both, so they are of one priority.
      have hcd : c.priority ≤ d.priority := by
        have hmem : d ∈ c :: ds := mem_of_ofPriority_eq (fun p => (h p).symm) List.mem_cons_self
        rcases List.mem_cons.mp hmem with rfl | hmem
        · exact Int.le_refl _
        · exact hc d hmem
      have hdc : d.priority ≤ c.priority := by
        have hmem : c ∈ d :: es := mem_of_ofPriority_eq h List.mem_cons_self
        rcases List.mem_cons.mp hmem with rfl | hmem
        · exact Int.le_refl _
        · exact hd c hmem
      have hsame : d.priority = c.priority := Int.le_antisymm hdc hcd
      have hfirst := h c.priority
      simp only [ofPriority, List.filter_cons, hsame, decide_true, if_true] at hfirst
      obtain ⟨rfl, -⟩ := List.cons.inj hfirst
      refine congrArg (c :: ·) (ih hrest hrest' fun p => ?_)
      have hp := h p
      simp only [ofPriority, List.filter_cons] at hp ⊢
      split at hp
      · exact (List.cons.inj hp).2
      · exact hp

theorem byPriority_eq_of_ofPriority_eq (h : ∀ p, ofPriority p ds = ofPriority p es) :
    byPriority ds = byPriority es := by
  refine eq_of_ascending (byPriority_ascending ds) (byPriority_ascending es) fun p => ?_
  rw [ofPriority_byPriority, ofPriority_byPriority, h]

/-- A change that keeps how priorities compare keeps the order of attempts. -/
theorem byPriority_map {f : Component S → Component S}
    (h : ∀ c ∈ ds, ∀ d ∈ ds, (f c).priority ≤ (f d).priority ↔ c.priority ≤ d.priority) :
    byPriority (ds.map f) = (byPriority ds).map f := by
  have hinsert : ∀ (c : Component S) (es : List (Component S)),
      (∀ d ∈ es, (f c).priority ≤ (f d).priority ↔ c.priority ≤ d.priority) →
      insertByPriority (f c) (es.map f) = (insertByPriority c es).map f := by
    intro c es hc
    induction es with
    | nil => rfl
    | cons d rest ih =>
      obtain ⟨hd, hrest⟩ := List.forall_mem_cons.mp hc
      simp only [List.map_cons, insertByPriority, hd]
      split
      · rfl
      · rw [ih hrest, List.map_cons]
  induction ds with
  | nil => rfl
  | cons c rest ih =>
    have hrest := ih fun d hd e he => h d (List.mem_cons_of_mem c hd) e (List.mem_cons_of_mem c he)
    change insertByPriority (f c) (byPriority (rest.map f)) =
      (insertByPriority c (byPriority rest)).map f
    rw [hrest]
    refine hinsert c _ fun d hd => h c List.mem_cons_self d (List.mem_cons_of_mem c ?_)
    exact (byPriority_perm rest).mem_iff.mp hd

theorem flawAfter?_map {f : Component S → Component S} (hslot : ∀ d, (f d).slot = d.slot)
    (hpolicy : ∀ d, (f d).policy = d.policy) (seen : List String) :
    flawAfter? seen (ds.map f) = flawAfter? seen ds := by
  induction ds generalizing seen with
  | nil => rfl
  | cons d rest ih => simp only [List.map_cons, flawAfter?, hslot, hpolicy, ih]

theorem flawAfter?_eq_none_iff {seen : List String} :
    flawAfter? seen ds = none ↔
      (∀ d ∈ ds, d.slot ∉ seen ∧ d.policy.hasEmptyDelimiter = false) ∧ (ds.map slot).Nodup := by
  induction ds generalizing seen with
  | nil => simp [flawAfter?]
  | cons d rest ih =>
    rw [flawAfter?, List.forall_mem_cons, List.map_cons, List.nodup_cons]
    by_cases hseen : d.slot ∈ seen
    · simp [hseen]
    · cases hempty : d.policy.hasEmptyDelimiter with
      | true => simp [hseen]
      | false =>
        simp only [hseen, if_false, Bool.false_eq_true, ih, List.mem_cons, not_or]
        constructor
        · rintro ⟨hall, hnodup⟩
          refine ⟨⟨⟨not_false, trivial⟩, fun e he => ⟨(hall e he).1.2, (hall e he).2⟩⟩, ?_, hnodup⟩
          intro hmem
          obtain ⟨e, he, hslot⟩ := List.mem_map.mp hmem
          exact (hall e he).1.1 hslot
        · rintro ⟨⟨-, hall⟩, hnot, hnodup⟩
          refine ⟨fun e he => ⟨⟨?_, (hall e he).1⟩, (hall e he).2⟩, hnodup⟩
          intro heq
          exact hnot (heq ▸ List.mem_map_of_mem he)

/-- What makes a declaration valid does not depend on its order. -/
theorem flaw?_eq_none_iff :
    flaw? ds = none ↔
      ds ≠ [] ∧ (∀ d ∈ ds, d.policy.hasEmptyDelimiter = false) ∧ (ds.map slot).Nodup := by
  cases ds with
  | nil => simp [flaw?]
  | cons d rest => simp [flaw?, flawAfter?_eq_none_iff]

/-- The component with another priority in the place of its own. -/
def reprioritized (f : Int → Int) (d : Component S) : Component S :=
  { d with priority := f d.priority }

/-- The components `ds'` are `ds` up to a permutation that keeps the order within each single
priority, and up to other priorities by `f` that compare in the same way. -/
structure Rearranges (f : Int → Int) (ds ds' : List (Component S)) : Prop where
  comparisons : ∀ c ∈ ds, ∀ d ∈ ds, f c.priority < f d.priority ↔ c.priority < d.priority
  exists_perm : ∃ es : List (Component S), es.Perm ds ∧
    (∀ p, ofPriority p es = ofPriority p ds) ∧ ds' = es.map (reprioritized f)

namespace Rearranges

variable {f : Int → Int} {ds' : List (Component S)}

/-- The orders of attempts correspond, component by component. -/
theorem byPriority_eq (h : Rearranges f ds ds') :
    byPriority ds' = (byPriority ds).map (reprioritized f) := by
  obtain ⟨es, hperm, hties, rfl⟩ := h.exists_perm
  have hmap : byPriority (es.map (reprioritized f)) = (byPriority es).map (reprioritized f) := by
    refine byPriority_map fun c hc d hd => ?_
    have hlt := h.comparisons d (hperm.mem_iff.mp hd) c (hperm.mem_iff.mp hc)
    change f c.priority ≤ f d.priority ↔ _
    omega
  rw [hmap, byPriority_eq_of_ofPriority_eq hties]

theorem flaw?_eq_none_iff (h : Rearranges f ds ds') : flaw? ds' = none ↔ flaw? ds = none := by
  obtain ⟨es, hperm, -, rfl⟩ := h.exists_perm
  have hslots : (es.map (reprioritized f)).map slot = es.map slot := by
    rw [List.map_map]
    rfl
  rw [Component.flaw?_eq_none_iff, Component.flaw?_eq_none_iff, hslots,
    (hperm.map slot).nodup_iff]
  refine and_congr ?_ (and_congr_left fun _ => ?_)
  · rw [ne_eq, List.map_eq_nil_iff, ne_eq, ← List.length_eq_zero_iff, hperm.length_eq,
      List.length_eq_zero_iff]
  · rw [List.forall_mem_map]
    exact forall_congr' fun d => imp_congr hperm.mem_iff Iff.rfl

end Rearranges

end Packrat.Component
