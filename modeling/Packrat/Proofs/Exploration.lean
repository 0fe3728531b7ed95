import Mathlib.Data.List.Nodup
import Mathlib.Data.List.Perm.Subperm
import Mathlib.Logic.Relation
import Packrat.Grammar.Text

/-!
The symbols that a symbol leads to. Their search never queues a symbol twice, so it is over after
as many rounds as the grammar has symbols, and then nothing is mentioned that it has not found.
The text of a grammar looks at the declarations of all that was found, up to the first that is
invalid.
-/
namespace Packrat.Grammar

variable {S : Type} {V : S → Type} {g : Grammar S V}

/-- The declaration of `s` has `t` as an alternative, or as the element of a component. -/
inductive Mentions (g : Grammar S V) (s : S) : S → Prop
  | alternative {alternatives : List (Alternative V (V s))} {a : Alternative V (V s)}
      (hshape : g.shape s = .alternation alternatives) (ha : a ∈ alternatives) :
      Mentions g s a.symbol
  | element {seq : Sequence V (V s)} {d : Component S} {t : S}
      (hshape : g.shape s = .sequence seq) (hd : d ∈ seq.components)
      (ht : d.policy.symbol? = some t) : Mentions g s t

theorem mem_references_iff {s t : S} : t ∈ g.references s ↔ g.Mentions s t := by
  unfold references
  constructor
  · intro h
    cases hshape : g.shape s with
    | terminal matcher =>
      rw [hshape] at h
      cases h
    | alternation alternatives =>
      rw [hshape] at h
      obtain ⟨a, ha, rfl⟩ := List.mem_map.mp h
      exact .alternative hshape ha
    | sequence seq =>
      rw [hshape] at h
      obtain ⟨d, hd, ht⟩ := List.mem_filterMap.mp h
      exact .element hshape ((Component.byPriority_perm _).mem_iff.mp hd) ht
  · intro h
    cases h with
    | alternative hshape ha =>
      rw [hshape]
      exact List.mem_map_of_mem ha
    | element hshape hd ht =>
      rw [hshape]
      exact List.mem_filterMap.mpr ⟨_, (Component.byPriority_perm _).mem_iff.mpr hd, ht⟩

/-- A chain of mentions leads from one symbol to the other. -/
def LeadsTo (g : Grammar S V) : S → S → Prop := Relation.ReflTransGen g.Mentions

/-- A search from `root` that has served some symbols and has others in its queue. -/
structure Searched (g : Grammar S V) (root : S) (served queue : List S) : Prop where
  nodup : (served ++ queue).Nodup
  root_mem : root ∈ served ++ queue
  leadsTo : ∀ s ∈ served ++ queue, g.LeadsTo root s
  closed : ∀ s ∈ served, ∀ t, g.Mentions s t → t ∈ served ++ queue

namespace Searched

variable {root s : S} {served queue : List S}

theorem start (g : Grammar S V) (root : S) : g.Searched root [] [root] where
  nodup := by simp
  root_mem := List.mem_singleton_self root
  leadsTo s hs := by
    obtain rfl := List.mem_singleton.mp hs
    exact .refl
  closed s hs := (List.not_mem_nil hs).elim

theorem length_le (h : g.Searched root served queue) :
    served.length + queue.length ≤ g.symbols.length := by
  rw [← List.length_append]
  exact (List.subperm_of_subset h.nodup fun s _ => g.mem_symbols s).length_le

/-- What is mentioned by something found has been found. -/
theorem mem_iff (h : g.Searched root served []) : s ∈ served ↔ g.LeadsTo root s := by
  have hroot := h.root_mem
  have hleads := h.leadsTo
  have hclosed := h.closed
  rw [List.append_nil] at hroot hleads hclosed
  refine ⟨hleads s, fun hs => ?_⟩
  induction hs with
  | refl => exact hroot
  | tail _ hmentions ih => exact hclosed _ ih _ hmentions

end Searched

section Search

variable [DecidableEq S]

theorem mem_fresh_iff {seen mentioned : List S} {s : S} :
    s ∈ fresh seen mentioned ↔ s ∈ mentioned ∧ s ∉ seen := by
  induction mentioned generalizing seen with
  | nil => simp [fresh]
  | cons t rest ih =>
    by_cases ht : t ∈ seen
    · rw [fresh, if_pos ht, ih, List.mem_cons]
      constructor
      · exact fun ⟨hs, hnew⟩ => ⟨Or.inr hs, hnew⟩
      · rintro ⟨rfl | hs, hnew⟩
        · exact (hnew ht).elim
        · exact ⟨hs, hnew⟩
    · rw [fresh, if_neg ht, List.mem_cons, ih, List.mem_cons, List.mem_cons, not_or]
      by_cases hst : s = t
      · subst hst
        simp [ht]
      · simp [hst]

theorem nodup_fresh (seen mentioned : List S) : (fresh seen mentioned).Nodup := by
  induction mentioned generalizing seen with
  | nil => exact List.nodup_nil
  | cons t rest ih =>
    rw [fresh]
    split
    · exact ih seen
    · refine List.nodup_cons.mpr ⟨fun ht => ?_, ih _⟩
      exact (mem_fresh_iff.mp ht).2 List.mem_cons_self

variable {root s : S} {served queue : List S}

/-- Whatever the next symbol mentions and was not found before is queued. -/
theorem Searched.serve (h : g.Searched root served (s :: queue)) :
    g.Searched root (served ++ [s])
      (queue ++ fresh (served ++ s :: queue) (g.references s)) := by
  have hfound : (served ++ [s]) ++ (queue ++ fresh (served ++ s :: queue) (g.references s)) =
      (served ++ s :: queue) ++ fresh (served ++ s :: queue) (g.references s) := by simp
  have hs : s ∈ served ++ s :: queue := by simp
  refine ⟨?_, ?_, ?_, ?_⟩
  · rw [hfound]
    refine h.nodup.append (nodup_fresh _ _) fun t hold hnew => ?_
    exact (mem_fresh_iff.mp hnew).2 hold
  · rw [hfound]
    exact List.mem_append_left _ h.root_mem
  · rw [hfound]
    intro t ht
    rcases List.mem_append.mp ht with hold | hnew
    · exact h.leadsTo t hold
    · exact (h.leadsTo s hs).tail (mem_references_iff.mp (mem_fresh_iff.mp hnew).1)
  · rw [hfound]
    intro u hu t hmentions
    rw [List.mem_append]
    by_cases hold : t ∈ served ++ s :: queue
    · exact Or.inl hold
    rcases List.mem_append.mp hu with hu | hu
    · exact Or.inl (h.closed u hu t hmentions)
    · obtain rfl := List.mem_singleton.mp hu
      exact Or.inr (mem_fresh_iff.mpr ⟨mem_references_iff.mpr hmentions, hold⟩)

/-- With a round for each symbol that may still be found, a search comes to its end, and what each
of its rounds keeps holds there. -/
theorem Searched.explore_keeps {P : List S → List S → Prop}
    (hserve : ∀ {served queue : List S} {s : S}, g.Searched root served (s :: queue) →
      P served (s :: queue) →
      P (served ++ [s]) (queue ++ fresh (served ++ s :: queue) (g.references s)))
    (h : g.Searched root served queue) (hP : P served queue) {rounds : Nat}
    (hrounds : g.symbols.length ≤ served.length + rounds) :
    P (g.explore rounds served queue) [] := by
  induction rounds generalizing served queue with
  | zero =>
    have hlength := h.length_le
    obtain rfl : queue = [] := List.eq_nil_of_length_eq_zero (by omega)
    rwa [Grammar.explore, List.append_nil]
  | succ rounds ih =>
    cases queue with
    | nil => exact hP
    | cons s queue =>
      refine ih h.serve (hserve h hP) ?_
      rw [List.length_append, List.length_singleton]
      omega

theorem searched_reachable (g : Grammar S V) (root : S) : g.Searched root (g.reachable root) [] :=
  (Searched.start g root).explore_keeps (fun h _ => h.serve) (Searched.start g root) (by simp)

theorem mem_reachable_iff : s ∈ g.reachable root ↔ g.LeadsTo root s :=
  (searched_reachable g root).mem_iff

end Search

theorem blockOf_of_isValid {s : S} (h : g.isValid s = true) :
    g.blockOf s = .ok (g.block (g.name s) (g.shape s).inOrder) := by
  have hflaw : (g.shape s).flaw? = none := Option.isNone_iff_eq_none.mp h
  simp [blockOf, checked, Shape.checked, hflaw, Except.map]

theorem blockOf_of_flaw? {s : S} {flaw : Flaw} (h : (g.shape s).flaw? = some flaw) :
    g.blockOf s = .error (.declaration (g.name s) flaw) := by
  simp [blockOf, checked, Shape.checked, h, Except.map]

theorem mapM_blockOf_of_isValid {order : List S} (h : ∀ s ∈ order, g.isValid s = true) :
    order.mapM g.blockOf =
      .ok (order.map fun s => g.block (g.name s) (g.shape s).inOrder) := by
  induction order with
  | nil => rfl
  | cons s rest ih =>
    obtain ⟨hs, hrest⟩ := List.forall_mem_cons.mp h
    rw [List.mapM_cons, blockOf_of_isValid hs, ih hrest]
    rfl

/-- Blocks are made up to the first declaration that is invalid. -/
theorem exists_mapM_blockOf_eq_error {order : List S} (h : ∃ s ∈ order, g.isValid s = false) :
    ∃ first flaw, order.find? (fun s => !g.isValid s) = some first ∧
      (g.shape first).flaw? = some flaw ∧
      order.mapM g.blockOf = .error (.declaration (g.name first) flaw) := by
  obtain ⟨s, hs, hinvalid⟩ := h
  have hsome : (order.find? fun s => !g.isValid s).isSome = true :=
    List.find?_isSome.mpr ⟨s, hs, by simp [hinvalid]⟩
  obtain ⟨first, hfirst⟩ := Option.isSome_iff_exists.mp hsome
  obtain ⟨hflawed, before, after, rfl, hbefore⟩ := List.find?_eq_some_iff_append.mp hfirst
  have hvalid : ∀ t ∈ before, g.isValid t = true := fun t ht => by simpa using hbefore t ht
  obtain ⟨flaw, hflaw⟩ : ∃ flaw, (g.shape first).flaw? = some flaw :=
    Option.isSome_iff_exists.mp (Option.isNone_eq_false_iff.mp (by simpa [isValid] using hflawed))
  refine ⟨first, flaw, hfirst, hflaw, ?_⟩
  rw [List.mapM_append, mapM_blockOf_of_isValid hvalid, List.mapM_cons, blockOf_of_flaw? hflaw]
  rfl

/-- The blocks of some symbols are an error just if one of the declarations is invalid. -/
theorem mapM_blockOf_eq_error_iff {order : List S} :
    (∃ error, order.mapM g.blockOf = .error error) ↔ ∃ s ∈ order, g.isValid s = false := by
  constructor
  · rintro ⟨error, herror⟩
    by_contra hnone
    have hvalid : ∀ s ∈ order, g.isValid s = true := by simpa using hnone
    rw [mapM_blockOf_of_isValid hvalid] at herror
    cases herror
  · intro hinvalid
    obtain ⟨first, flaw, -, -, herror⟩ := exists_mapM_blockOf_eq_error hinvalid
    exact ⟨_, herror⟩

/-- A grammar has no text just if a symbol with an invalid declaration can be reached. -/
theorem text_eq_error_iff [DecidableEq S] {root : S} :
    (∃ error, g.text root = .error error) ↔ ∃ s, g.LeadsTo root s ∧ g.isValid s = false := by
  have hblocks : (∃ error, (g.reachable root).mapM g.blockOf = .error error) ↔
      ∃ s ∈ g.reachable root, g.isValid s = false := mapM_blockOf_eq_error_iff
  simp only [mem_reachable_iff] at hblocks
  rw [← hblocks, text]
  cases (g.reachable root).mapM g.blockOf with
  | error error => exact iff_of_true ⟨error, rfl⟩ ⟨error, rfl⟩
  | ok blocks => exact iff_of_false (fun ⟨_, h⟩ => nomatch h) fun ⟨_, h⟩ => nomatch h

end Packrat.Grammar
