import Packrat.Proofs.Priority

/-!
The check of a declared sequence. It goes through the components as declared and stops at the first
that repeats a slot or has the empty text for a delimiter. If there is none, it leaves each
component as it is and puts them all into the order of attempts. A sequence that has been checked
stands another check unchanged.
-/
namespace Packrat

variable {S : Type} {V : S → Type} {α : Type}

theorem Policy.hasEmptyDelimiter_iff {p : Policy S} :
    p.hasEmptyDelimiter = true ↔
      ∃ s trailing empty, p = .element s (.delimited ⟨""⟩ trailing empty) := by
  constructor
  · intro h
    match p with
    | .element s (.delimited ⟨text⟩ trailing empty) =>
      have htext : text = "" := by simpa [hasEmptyDelimiter] using h
      subst htext
      exact ⟨s, trailing, empty, rfl⟩
  · rintro ⟨s, trailing, empty, rfl⟩
    rfl

namespace Component

variable {ds es before : List (Component S)} {i j : Nat}

/-- The component at place `i` has the slot of an earlier one. -/
def RepeatsSlot (ds : List (Component S)) (i : Nat) : Prop :=
  ∃ j c d, j < i ∧ ds[j]? = some c ∧ ds[i]? = some d ∧ c.slot = d.slot

/-- The component at place `i` is a list with the empty text for a delimiter. -/
def LacksDelimiter (ds : List (Component S)) (i : Nat) : Prop :=
  ∃ d s trailing empty, ds[i]? = some d ∧
    d.policy = .element s (.delimited ⟨""⟩ trailing empty)

/-- There is something wrong with the component at place `i`. -/
def Faulty (ds : List (Component S)) (i : Nat) : Prop := RepeatsSlot ds i ∨ LacksDelimiter ds i

/-- The list `es` has the components of `ds` by ascending priority, and those of each single
priority as they are ordered in `ds`. -/
structure Sorts (ds es : List (Component S)) : Prop where
  perm : es.Perm ds
  ascending : es.Pairwise fun c d => c.priority ≤ d.priority
  stable : ∀ p, ofPriority p es = ofPriority p ds

theorem sorts_byPriority (ds : List (Component S)) : Sorts ds (byPriority ds) where
  perm := byPriority_perm ds
  ascending := byPriority_ascending ds
  stable p := ofPriority_byPriority p ds

theorem Sorts.eq_byPriority (h : Sorts ds es) : es = byPriority ds := by
  apply eq_of_ascending h.ascending (byPriority_ascending ds)
  intro p
  rw [h.stable, ofPriority_byPriority]

/-- Components in order are left as they are. -/
theorem byPriority_byPriority (ds : List (Component S)) :
    byPriority (byPriority ds) = byPriority ds :=
  byPriority_eq_of_ofPriority_eq fun p => ofPriority_byPriority p ds

theorem exists_repeatsSlot_iff (ds : List (Component S)) :
    (∃ i, RepeatsSlot ds i) ↔ ¬ (ds.map slot).Nodup := by
  rw [List.nodup_iff_getElem?_ne_getElem?]
  push Not
  constructor
  · rintro ⟨i, j, c, d, hj, hc, hd, hslot⟩
    obtain ⟨hi, -⟩ := List.getElem?_eq_some_iff.mp hd
    refine ⟨j, i, hj, by simpa using hi, ?_⟩
    simp [hc, hd, hslot]
  · rintro ⟨j, i, hj, hi, hslot⟩
    rw [List.length_map] at hi
    have hd : ds[i]? = some ds[i] := List.getElem?_eq_getElem hi
    have hc : ds[j]? = some ds[j] := List.getElem?_eq_getElem (Nat.lt_trans hj hi)
    refine ⟨i, j, ds[j], ds[i], hj, hc, hd, ?_⟩
    simpa [hc, hd] using hslot

theorem exists_lacksDelimiter_iff (ds : List (Component S)) :
    (∃ i, LacksDelimiter ds i) ↔ ∃ d ∈ ds, d.policy.hasEmptyDelimiter = true := by
  simp only [Policy.hasEmptyDelimiter_iff]
  constructor
  · rintro ⟨i, d, s, trailing, empty, hd, hpolicy⟩
    exact ⟨d, List.mem_of_getElem? hd, s, trailing, empty, hpolicy⟩
  · rintro ⟨d, hd, s, trailing, empty, hpolicy⟩
    obtain ⟨i, hi⟩ := List.mem_iff_getElem?.mp hd
    exact ⟨i, d, s, trailing, empty, hi, hpolicy⟩

theorem flawAfter?_nil_eq_none_iff : flawAfter? [] ds = none ↔ ∀ i, ¬ Faulty ds i := by
  have hslots := exists_repeatsSlot_iff ds
  have hdelimiters := exists_lacksDelimiter_iff ds
  rw [flawAfter?_eq_none_iff, ← not_exists]
  simp only [Faulty, exists_or, hslots, hdelimiters]
  push Not
  simp [and_comm]

/-- A fault of the first components is one of them all. -/
theorem Faulty.of_take (h : Faulty (ds.take i) j) : j < i ∧ Faulty ds j := by
  have hplace : ∀ {k d}, (ds.take i)[k]? = some d → k < i ∧ ds[k]? = some d := by
    intro k d hk
    rw [List.getElem?_take] at hk
    split at hk
    · exact ⟨by assumption, hk⟩
    · cases hk
  rcases h with ⟨k, c, d, hk, hc, hd, hslot⟩ | ⟨d, s, trailing, empty, hd, hpolicy⟩
  · exact ⟨(hplace hd).1, Or.inl ⟨k, c, d, hk, (hplace hc).2, (hplace hd).2, hslot⟩⟩
  · exact ⟨(hplace hd).1, Or.inr ⟨d, s, trailing, empty, (hplace hd).2, hpolicy⟩⟩

/-- Past components without a flaw, the check goes on with their slots in mind. -/
theorem flawAfter?_append {seen : List String} (h : flawAfter? seen before = none)
    (ds : List (Component S)) :
    flawAfter? seen (before ++ ds) = flawAfter? ((before.map slot).reverse ++ seen) ds := by
  induction before generalizing seen with
  | nil => rfl
  | cons d rest ih =>
    rw [flawAfter?] at h
    rw [List.cons_append, flawAfter?]
    split at h
    · cases h
    · rename_i hseen
      split at h
      · cases h
      · rename_i hempty
        rw [if_neg hseen, if_neg hempty, ih h, List.map_cons, List.reverse_cons,
          List.append_assoc, List.singleton_append]

theorem repeatsSlot_iff {d : Component S} (hd : ds[i]? = some d) :
    RepeatsSlot ds i ↔ d.slot ∈ (ds.take i).map slot := by
  rw [List.mem_map]
  constructor
  · rintro ⟨j, c, d', hj, hc, hd', hslot⟩
    obtain rfl : d' = d := Option.some.inj (hd'.symm.trans hd)
    refine ⟨c, List.mem_of_getElem? (i := j) ?_, hslot⟩
    rw [List.getElem?_take, if_pos hj, hc]
  · rintro ⟨c, hc, hslot⟩
    obtain ⟨j, hj⟩ := List.mem_iff_getElem?.mp hc
    rw [List.getElem?_take] at hj
    split at hj
    · rename_i hlt
      exact ⟨j, c, d, hlt, hj, hd, hslot⟩
    · cases hj

/-- The flaw of a declaration is that of its first faulty component, and there a repeated slot
counts before an empty delimiter. -/
theorem flaw?_of_first {d : Component S} (hd : ds[i]? = some d) (hfaulty : Faulty ds i)
    (hfirst : ∀ j < i, ¬ Faulty ds j) :
    (RepeatsSlot ds i → flaw? ds = some (.repeatedSlot d.slot)) ∧
      (¬ RepeatsSlot ds i → flaw? ds = some (.emptyDelimiter d.slot)) := by
  obtain ⟨hi, hget⟩ := List.getElem?_eq_some_iff.mp hd
  have hsplit : ds = ds.take i ++ d :: ds.drop (i + 1) := by
    rw [← hget, ← List.drop_eq_getElem_cons hi, List.take_append_drop]
  have hbefore : flawAfter? [] (ds.take i) = none :=
    flawAfter?_nil_eq_none_iff.mpr fun j hj => hfirst j hj.of_take.1 hj.of_take.2
  have hflaw : flaw? ds =
      flawAfter? (((ds.take i).map slot).reverse ++ []) (d :: ds.drop (i + 1)) := by
    rw [← flawAfter?_append hbefore, ← hsplit]
    cases ds with
    | nil => cases hd
    | cons c rest => rfl
  have hseen : d.slot ∈ ((ds.take i).map slot).reverse ++ [] ↔ RepeatsSlot ds i := by
    rw [List.append_nil, List.mem_reverse, repeatsSlot_iff hd]
  constructor
  · intro hrepeats
    rw [hflaw, flawAfter?, if_pos (hseen.mpr hrepeats)]
  · intro hnew
    obtain ⟨d', s, trailing, empty, hd', hpolicy⟩ := hfaulty.resolve_left hnew
    obtain rfl : d' = d := Option.some.inj (hd'.symm.trans hd)
    have hempty : d'.policy.hasEmptyDelimiter = true :=
      Policy.hasEmptyDelimiter_iff.mpr ⟨s, trailing, empty, hpolicy⟩
    rw [hflaw, flawAfter?, if_neg (fun hmem => hnew (hseen.mp hmem)), if_pos hempty]

theorem flaw?_eq_none_iff_forall : flaw? ds = none ↔ ds ≠ [] ∧ ∀ i, ¬ Faulty ds i := by
  cases ds with
  | nil => simp [flaw?]
  | cons d rest => simp [flaw?, flawAfter?_nil_eq_none_iff]

/-- The order of attempts is as good a declaration as the one that it comes from. -/
theorem flaw?_byPriority (h : flaw? ds = none) : flaw? (byPriority ds) = none := by
  obtain ⟨hne, hdelimiters, hslots⟩ := flaw?_eq_none_iff.mp h
  have hperm := byPriority_perm ds
  refine flaw?_eq_none_iff.mpr ⟨?_, ?_, ?_⟩
  · intro hnil
    rw [hnil] at hperm
    exact hne hperm.nil_eq.symm
  · intro d hd
    exact hdelimiters d (hperm.mem_iff.mp hd)
  · exact (hperm.map slot).nodup_iff.mpr hslots

end Component

namespace Shape

open Component

/-- A declared sequence fails its check just if it has no components, or two with one slot, or one
with an empty delimiter. The first component at fault is named, for its slot if that is repeated.
A sequence that passes is put into the one order that ascends in priority and keeps ties as they
were declared, and passes again as it is. -/
theorem checked_sequence (name : String) (seq : Sequence V α) :
    let ds := seq.components
    let checked := (sequence seq).checked name
    ((∃ error, checked = .error error) ↔
      ds = [] ∨ (∃ i, RepeatsSlot ds i) ∨ ∃ i, LacksDelimiter ds i) ∧
    (ds = [] → checked = .error (.declaration name .noComponents)) ∧
    (∀ i d, ds[i]? = some d → Faulty ds i → (∀ j < i, ¬ Faulty ds j) →
      (RepeatsSlot ds i → checked = .error (.declaration name (.repeatedSlot d.slot))) ∧
      (¬ RepeatsSlot ds i → checked = .error (.declaration name (.emptyDelimiter d.slot)))) ∧
    ∀ shape, checked = .ok shape →
      ∃ es, shape = sequence { seq with components := es } ∧ Sorts ds es ∧
        (∀ es', Sorts ds es' → es' = es) ∧ shape.checked name = .ok shape := by
  intro ds checked
  have hflawed : ∀ {flaw}, Component.flaw? ds = some flaw →
      checked = .error (.declaration name flaw) := by
    intro flaw hflaw
    simp only [checked, Shape.checked, Shape.flaw?, ds] at hflaw ⊢
    rw [hflaw]
  have hvalid : Component.flaw? ds = none →
      checked = .ok (sequence { seq with components := byPriority ds }) := by
    intro hnone
    simp only [checked, Shape.checked, Shape.flaw?, ds] at hnone ⊢
    rw [hnone]
    rfl
  refine ⟨?_, ?_, ?_, ?_⟩
  · have hfails : (∃ error, checked = .error error) ↔ ¬ Component.flaw? ds = none := by
      cases hflaw : Component.flaw? ds with
      | none => simp [hvalid hflaw]
      | some flaw => simp [hflawed hflaw]
    rw [hfails, flaw?_eq_none_iff_forall, not_and_or, not_not, not_forall]
    simp only [Faulty, not_not, exists_or]
  · intro hnil
    apply hflawed
    rw [hnil]
    rfl
  · intro i d hd hfaulty hfirst
    obtain ⟨hrepeats, hempty⟩ := flaw?_of_first hd hfaulty hfirst
    exact ⟨fun h => hflawed (hrepeats h), fun h => hflawed (hempty h)⟩
  · intro shape hshape
    cases hflaw : Component.flaw? ds with
    | some flaw =>
      rw [hflawed hflaw] at hshape
      cases hshape
    | none =>
      rw [hvalid hflaw] at hshape
      cases hshape
      refine ⟨byPriority ds, rfl, sorts_byPriority ds, fun es' h => h.eq_byPriority, ?_⟩
      simp only [Shape.checked, Shape.flaw?, flaw?_byPriority hflaw, inOrder,
        byPriority_byPriority]

/-- Of two faults the one declared first is named, even though its component is attempted last, and
of two faults of one component the repeated slot. Without them the components change places. -/
theorem checked_sequence_faults :
    let name : Component Unit := .required "name" 5 ()
    let args : Component Unit := .delimited "name" 9 () ""
    let tail : Component Unit := .delimited "tail" 2 () ""
    let body : Component Unit := .required "body" 2 ()
    let declared (ds : List (Component Unit)) : Shape (fun _ => Nat) Nat :=
      sequence ⟨ds, pure 0⟩
    (declared [name, args, tail]).checked "Call" =
      .error (.declaration "Call" (.repeatedSlot "name")) ∧
    (declared [name, tail, args]).checked "Call" =
      .error (.declaration "Call" (.emptyDelimiter "tail")) ∧
    ∃ es, (declared [name, body]).checked "Call" = .ok (declared es) ∧ Sorts [name, body] es ∧
      (declared es).checked "Call" = .ok (declared es) := by
  intro name args tail body declared
  have hname : ∀ ds, ∀ j < 1, ¬ Faulty (name :: ds) j := by
    intro ds j hj hfaulty
    obtain rfl : j = 0 := by omega
    rcases hfaulty with ⟨k, -, -, hk, -⟩ | ⟨d, s, trailing, empty, hd, hpolicy⟩
    · omega
    · cases hd
      cases hpolicy
  have hargs : RepeatsSlot [name, args, tail] 1 := ⟨0, name, args, by decide, rfl, rfl, rfl⟩
  have htail : LacksDelimiter [name, tail, args] 1 := ⟨tail, (), false, false, rfl, rfl⟩
  have hnew : ¬ RepeatsSlot [name, tail, args] 1 := by
    rw [repeatsSlot_iff (d := tail) rfl]
    decide
  obtain ⟨-, -, hrepeated, -⟩ := checked_sequence (V := fun _ => Nat) "Call"
    ⟨[name, args, tail], pure 0⟩
  obtain ⟨-, -, hlacking, -⟩ := checked_sequence (V := fun _ => Nat) "Call"
    ⟨[name, tail, args], pure 0⟩
  obtain ⟨-, -, -, hpasses⟩ := checked_sequence (V := fun _ => Nat) "Call"
    ⟨[name, body], pure 0⟩
  obtain ⟨es, hshape, hsorts, -, hagain⟩ := hpasses _ rfl
  rw [hshape] at hagain
  exact ⟨(hrepeated 1 args rfl (Or.inl hargs) (hname _)).1 hargs,
    (hlacking 1 tail rfl (Or.inr htail) (hname _)).2 hnew, es, congrArg Except.ok hshape, hsorts,
    hagain⟩

end Shape

end Packrat
