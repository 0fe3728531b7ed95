import Mathlib.Order.Lattice.Nat
import Packrat.Proofs.Exploration
import Packrat.Proofs.Memoization
import Packrat.Proofs.Priority

/-!
The order in which the search finds the symbols that a symbol leads to, and with it the order of
blocks in the text of a grammar. The queue holds symbols of at most two neighbouring distances, the
nearer first, so that what is found next is never nearer than what was found before. What has been
found at any time are the first mentions in all that has been served.
-/
namespace Packrat

namespace Grammar

variable {S : Type} {V : S → Type} {g : Grammar S V} {root s t : S} {n : Nat}

/-- A chain of so many mentions leads from `root` to a symbol. -/
inductive LeadsIn (g : Grammar S V) (root : S) : Nat → S → Prop
  | here : LeadsIn g root 0 root
  | next {n : Nat} {s t : S} (hs : LeadsIn g root n s) (ht : g.Mentions s t) :
      LeadsIn g root (n + 1) t

theorem leadsTo_iff_exists_leadsIn : g.LeadsTo root s ↔ ∃ n, g.LeadsIn root n s := by
  constructor
  · intro h
    induction h with
    | refl => exact ⟨0, .here⟩
    | tail _ hmentions ih =>
      obtain ⟨n, hn⟩ := ih
      exact ⟨n + 1, hn.next hmentions⟩
  · rintro ⟨n, hn⟩
    induction hn with
    | here => exact .refl
    | next _ hmentions ih => exact ih.tail hmentions

/-- The length of the shortest chains of mentions. -/
noncomputable def distance (g : Grammar S V) (root s : S) : Nat := sInf {n | g.LeadsIn root n s}

theorem LeadsIn.distance_le (h : g.LeadsIn root n s) : g.distance root s ≤ n := Nat.sInf_le h

theorem LeadsTo.leadsIn_distance (h : g.LeadsTo root s) : g.LeadsIn root (g.distance root s) s :=
  Nat.sInf_mem (leadsTo_iff_exists_leadsIn.mp h)

theorem LeadsTo.distance_le_of_mentions (h : g.LeadsTo root s) (hmentions : g.Mentions s t) :
    g.distance root t ≤ g.distance root s + 1 :=
  (h.leadsIn_distance.next hmentions).distance_le

/-- A chain to what was not found yet passes through the queue. -/
theorem Searched.exists_queued {served queue : List S} (h : g.Searched root served queue)
    (hn : g.LeadsIn root n t) (ht : t ∉ served ++ queue) :
    ∃ s ∈ queue, g.distance root s < n := by
  induction hn with
  | here => exact (ht h.root_mem).elim
  | @next n u t hu hmentions ih =>
    by_cases hfound : u ∈ served ++ queue
    · rcases List.mem_append.mp hfound with hserved | hqueued
      · exact (ht (h.closed u hserved t hmentions)).elim
      · exact ⟨u, hqueued, Nat.lt_succ_of_le hu.distance_le⟩
    · obtain ⟨s, hs, hlt⟩ := ih hfound
      exact ⟨s, hs, hlt.trans n.lt_succ_self⟩

variable [DecidableEq S]

theorem fresh_eq_eraseDups (seen mentioned : List S) :
    fresh seen mentioned = (mentioned.removeAll seen).eraseDups := by
  induction mentioned generalizing seen with
  | nil => rfl
  | cons s rest ih =>
    rw [fresh, List.removeAll, List.filter_cons]
    by_cases hs : s ∈ seen
    · rw [if_pos hs, ih, if_neg (by simpa using hs), List.removeAll]
    · rw [if_neg hs, ih, if_pos (by simpa using hs), List.eraseDups_cons, List.removeAll_cons,
        List.removeAll, List.filter_comm]

/-- Only what was seen matters, not how. -/
theorem fresh_congr {seen seen' : List S} (h : ∀ s, s ∈ seen ↔ s ∈ seen') (mentioned : List S) :
    fresh seen mentioned = fresh seen' mentioned := by
  rw [fresh_eq_eraseDups, fresh_eq_eraseDups, List.removeAll, List.removeAll]
  refine congrArg List.eraseDups (List.filter_congr fun s _ => ?_)
  simp [h s]

/-- A search that finds symbols in the order of their distances and of their first mentions. -/
structure Layered (g : Grammar S V) (root : S) (served queue : List S) : Prop
    extends Searched g root served queue where
  ascending : (served ++ queue).Pairwise fun s t => g.distance root s ≤ g.distance root t
  /-- Of neighbouring distances only. -/
  within : ∀ s ∈ served ++ queue, ∀ t ∈ queue, g.distance root s ≤ g.distance root t + 1
  first_mentions : served ++ queue = (root :: served.flatMap g.references).eraseDups

namespace Layered

variable {served queue : List S}

theorem start (g : Grammar S V) (root : S) : g.Layered root [] [root] where
  toSearched := Searched.start g root
  ascending := by simp
  within := by simp
  first_mentions := by rw [List.flatMap_nil, List.eraseDups_cons, List.filter_nil]; rfl

/-- The next symbol to be served is the nearest of those queued. -/
theorem distance_head_le (h : g.Layered root served (s :: queue)) :
    ∀ t ∈ s :: queue, g.distance root s ≤ g.distance root t := by
  have hqueue := (List.pairwise_append.mp h.ascending).2.1
  exact List.forall_mem_cons.mpr ⟨le_rfl, (List.pairwise_cons.mp hqueue).1⟩

/-- What a round finds is one further away than what it serves. -/
theorem distance_fresh (h : g.Layered root served (s :: queue))
    (ht : t ∈ fresh (served ++ s :: queue) (g.references s)) :
    g.distance root t = g.distance root s + 1 := by
  obtain ⟨hmem, hnew⟩ := mem_fresh_iff.mp ht
  have hs : g.LeadsTo root s := h.leadsTo s (by simp)
  have hmentions := mem_references_iff.mp hmem
  have hle := hs.distance_le_of_mentions hmentions
  have ht : g.LeadsTo root t := hs.tail hmentions
  have hchain := ht.leadsIn_distance
  -- A shorter way to `t` would pass through the queue nearer than `s`, which is the nearest.
  obtain ⟨u, hu, hlt⟩ := h.exists_queued hchain hnew
  have hhead := h.distance_head_le u hu
  omega

theorem serve (h : g.Layered root served (s :: queue)) :
    g.Layered root (served ++ [s])
      (queue ++ fresh (served ++ s :: queue) (g.references s)) := by
  have hfound : (served ++ [s]) ++ (queue ++ fresh (served ++ s :: queue) (g.references s)) =
      (served ++ s :: queue) ++ fresh (served ++ s :: queue) (g.references s) := by simp
  have hold : ∀ t ∈ served ++ s :: queue, g.distance root t ≤ g.distance root s + 1 :=
    fun t ht => h.within t ht s List.mem_cons_self
  refine ⟨h.toSearched.serve, ?_, ?_, ?_⟩
  · rw [hfound, List.pairwise_append]
    refine ⟨h.ascending, List.pairwise_of_forall_mem_list fun t ht u hu => ?_, fun t ht u hu => ?_⟩
    · rw [h.distance_fresh ht, h.distance_fresh hu]
    · rw [h.distance_fresh hu]
      exact hold t ht
  · rw [hfound]
    intro t ht u hu
    have hfar : g.distance root s ≤ g.distance root u := by
      rcases List.mem_append.mp hu with hu | hu
      · exact h.distance_head_le u (List.mem_cons_of_mem s hu)
      · rw [h.distance_fresh hu]
        omega
    have hnear : g.distance root t ≤ g.distance root s + 1 := by
      rcases List.mem_append.mp ht with ht | ht
      · exact hold t ht
      · exact (h.distance_fresh ht).le
    omega
  · -- What has been found are the mentions so far, so the round adds what is first mentioned now.
    have hsame : ∀ t, t ∈ served ++ s :: queue ↔ t ∈ root :: served.flatMap g.references := by
      intro t
      rw [h.first_mentions, List.mem_eraseDups]
    rw [hfound, fresh_congr hsame, fresh_eq_eraseDups, h.first_mentions, List.flatMap_append,
      List.flatMap_singleton, ← List.cons_append, List.eraseDups_append]

end Layered

/-- The symbols that `root` leads to, each once, from `root` outwards. Within one distance, and
altogether, they stand in the order in which they are first mentioned. -/
structure BreadthFirst (g : Grammar S V) (root : S) (order : List S) : Prop where
  nodup : order.Nodup
  mem_iff : ∀ s, s ∈ order ↔ g.LeadsTo root s
  head?_eq : order.head? = some root
  ascending : order.Pairwise fun s t => g.distance root s ≤ g.distance root t
  first_mentions : order = (root :: order.flatMap g.references).eraseDups

theorem reachable_breadthFirst (g : Grammar S V) (root : S) :
    g.BreadthFirst root (g.reachable root) := by
  have hlayered : g.Layered root (g.reachable root) [] :=
    (Searched.start g root).explore_keeps (fun _ h => h.serve) (Layered.start g root) (by simp)
  have hnodup := hlayered.nodup
  have hascending := hlayered.ascending
  have hmentions := hlayered.first_mentions
  rw [List.append_nil] at hnodup hascending hmentions
  refine ⟨hnodup, fun s => mem_reachable_iff, ?_, hascending, hmentions⟩
  rw [hmentions, List.eraseDups_cons, List.head?_cons]

/-- More rounds than there are symbols find nothing else. -/
theorem explore_eq_reachable {rounds : Nat} (hrounds : g.symbols.length ≤ rounds) (root : S) :
    g.explore rounds [] [root] = g.reachable root := by
  -- After any number of rounds, those that are left come to the same result.
  have hagree : g.explore rounds [] [root] =
      g.explore (rounds - (g.reachable root).length) (g.reachable root) [] := by
    refine (Searched.start g root).explore_keeps (P := fun served queue =>
      g.explore rounds [] [root] = g.explore (rounds - served.length) served queue)
      (fun {served queue s} hsearched hagree => ?_) rfl (by simp)
    have hlength := hsearched.length_le
    rw [List.length_cons] at hlength
    obtain ⟨more, hmore⟩ : ∃ more, rounds - served.length = more + 1 :=
      Nat.exists_eq_succ_of_ne_zero (by omega)
    have hless : rounds - (served ++ [s]).length = more := by
      rw [List.length_append, List.length_singleton]
      omega
    rw [hagree, hmore, hless, explore]
  rw [hagree]
  cases rounds - (g.reachable root).length with
  | zero => exact List.append_nil _
  | succ => rfl

/-- The text of a grammar has one block for each symbol that `root` leads to, in breadth-first
order. An alternation mentions its alternatives as declared, a sequence the elements of its
components by priority, equal priorities as declared. The search is over after as many rounds as
there are symbols. If declarations are invalid, the first in that order is the error. -/
theorem text_breadthFirst (g : Grammar S V) (root : S) :
    let order := g.reachable root
    g.BreadthFirst root order ∧
    (∀ s alternatives, g.shape s = .alternation alternatives →
      g.references s = alternatives.map Alternative.symbol) ∧
    (∀ s seq, g.shape s = .sequence seq →
      ∃ components, g.references s = components.filterMap (fun d => d.policy.symbol?) ∧
        components.Pairwise (fun d e => d.priority ≤ e.priority) ∧
        ∀ p, Component.ofPriority p components = Component.ofPriority p seq.components) ∧
    (∀ rounds, g.symbols.length ≤ rounds → g.explore rounds [] [root] = order) ∧
    ((∀ s, g.LeadsTo root s → g.isValid s = true) →
      g.text root =
        .ok ("\n\n".intercalate (order.map fun s => g.block (g.name s) (g.shape s).inOrder))) ∧
    ∀ s, g.LeadsTo root s → g.isValid s = false →
      ∃ first flaw, order.find? (fun s => !g.isValid s) = some first ∧
        (g.shape first).flaw? = some flaw ∧
        g.text root = .error (.declaration (g.name first) flaw) := by
  intro order
  refine ⟨g.reachable_breadthFirst root, fun s alternatives hshape => ?_, fun s seq hshape => ?_,
    fun rounds hrounds => explore_eq_reachable hrounds root, fun hvalid => ?_,
    fun s hs hinvalid => ?_⟩
  · rw [references, hshape]
    rfl
  · refine ⟨Component.byPriority seq.components, ?_, Component.byPriority_ascending _, fun p =>
      Component.ofPriority_byPriority p seq.components⟩
    rw [references, hshape]
    rfl
  · rw [text, mapM_blockOf_of_isValid fun s hs => hvalid s (mem_reachable_iff.mp hs)]
    rfl
  · obtain ⟨first, flaw, hfirst, hflaw, herror⟩ :=
      exists_mapM_blockOf_eq_error ⟨s, mem_reachable_iff.mpr hs, hinvalid⟩
    refine ⟨first, flaw, hfirst, hflaw, ?_⟩
    rw [text, herror]
    rfl

end Grammar

namespace Schema

/-- An item leads back to itself, through a pair that mentions itself too. Its alternatives repeat,
and one of them has its name. -/
def rings : Schema 5 := #v[
  ⟨"Item", .alternation [1, 2, 1]⟩,
  ⟨"Pair", .sequence [.required "rest" 1 1, .required "first" 0 3] {}⟩,
  ⟨"Item", .terminal .number⟩,
  ⟨"Ring", .alternation [4, 0]⟩,
  ⟨"Word", .terminal .identifier⟩]

/-- The declaration of the pair that mentions a stub is valid, so the error is that of the stub. -/
theorem rings_text :
    (grammar rings).BreadthFirst 0 [0, 1, 2, 3, 4] ∧
    (grammar rings).text 0 = .ok ("Item = Pair\n     | Item\n     | Pair\n\n" ++
      "Pair = Ring\n       Pair\n\n" ++ "Item = ....\n\n" ++ "Ring = Word\n     | Item\n\n" ++
      "Word = ....") ∧
    (grammar stub).text 2 = .error (.declaration "Stub" .noAlternatives) := by
  have horder : (grammar rings).reachable 0 = [0, 1, 2, 3, 4] := by decide
  have hvalid : ∀ s, (grammar rings).isValid s = true := by decide
  have hleads : (grammar stub).LeadsTo 2 1 := Grammar.mem_reachable_iff.mp (by decide)
  obtain ⟨hbreadthFirst, -, -, -, htext, -⟩ := (grammar rings).text_breadthFirst 0
  obtain ⟨first, flaw, hfirst, hflaw, herror⟩ :=
    ((grammar stub).text_breadthFirst 2).2.2.2.2.2 1 hleads rfl
  rw [horder] at hbreadthFirst
  refine ⟨hbreadthFirst, (htext fun s _ => hvalid s).trans rfl, ?_⟩
  obtain rfl : 1 = first := Option.some.inj hfirst
  obtain rfl : Flaw.noAlternatives = flaw := Option.some.inj hflaw
  exact herror

end Schema

end Packrat
