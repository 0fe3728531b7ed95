import Mathlib.Data.Nat.Init
import Packrat.Name

/-!
What is left of a qualified name. A run of word characters with a colon right behind it is part of a
path. A scan holds each run back until it knows what follows, so it drops the paths and the colons
and keeps all else in order. Between what it keeps nothing is dropped but whole parts of paths, so
no two words meet.
-/
namespace Packrat.Name

variable {s : List Char} {c : Char} {j k : Nat}

def WordAt (s : List Char) (k : Nat) : Prop := ∃ c, s[k]? = some c ∧ isWord c = true

/-- The places from `i` up to `j` hold word characters, and the places next to them do not. -/
structure IsRun (s : List Char) (i j : Nat) : Prop where
  lt : i < j
  wordAt : ∀ k, i ≤ k → k < j → WordAt s k
  starts : i = 0 ∨ ¬ WordAt s (i - 1)
  ends : ¬ WordAt s j

/-- At place `k` there is a colon, or a character of a run that a colon follows at once. -/
def Dropped (s : List Char) (k : Nat) : Prop :=
  s[k]? = some ':' ∨ ∃ i j, IsRun s i j ∧ i ≤ k ∧ k < j ∧ s[j]? = some ':'

/-- The first thing that is no word character is a colon. -/
def InPath (s : List Char) : Prop := (s.dropWhile isWord).head? = some ':'

instance (s : List Char) : Decidable (InPath s) := inferInstanceAs (Decidable (_ = _))

theorem not_wordAt_of_colon (h : s[k]? = some ':') : ¬ WordAt s k := by
  rintro ⟨c, hc, hword⟩
  obtain rfl : ':' = c := Option.some.inj (h.symm.trans hc)
  exact absurd hword (by rw [isWord_colon]; decide)

theorem inPath_colon (s : List Char) : InPath (':' :: s) := by
  rw [InPath, List.dropWhile_cons_of_neg (by rw [isWord_colon]; decide), List.head?_cons]

theorem inPath_cons_of_isWord (h : isWord c = true) : InPath (c :: s) ↔ InPath s := by
  rw [InPath, InPath, List.dropWhile_cons_of_pos h]

theorem not_inPath_cons (hword : isWord c = false) (hcolon : c ≠ ':') : ¬ InPath (c :: s) := by
  rw [InPath, List.dropWhile_cons_of_neg (by rw [hword]; decide), List.head?_cons]
  exact fun h => hcolon (Option.some.inj h)

theorem InPath.mem (h : InPath s) : ':' ∈ s :=
  (List.dropWhile_suffix isWord).subset (List.mem_of_head? h)

/-- What comes after a separator does not matter to what comes before it. -/
theorem inPath_append_cons (hword : isWord c = false) (hcolon : c ≠ ':') (s t : List Char) :
    InPath (s ++ c :: t) ↔ InPath s := by
  induction s with
  | nil => exact iff_of_false (not_inPath_cons hword hcolon) (by simp [InPath])
  | cons d rest ih =>
    rw [List.cons_append]
    by_cases hd : isWord d = true
    · rw [inPath_cons_of_isWord hd, inPath_cons_of_isWord hd, ih]
    · rw [Bool.not_eq_true] at hd
      by_cases hcolon : d = ':'
      · subst hcolon
        exact iff_of_true (inPath_colon _) (inPath_colon _)
      · exact iff_of_false (not_inPath_cons hd hcolon) (not_inPath_cons hd hcolon)

theorem inPath_drop_of_wordAt (h : WordAt s k) : InPath (s.drop k) ↔ InPath (s.drop (k + 1)) := by
  obtain ⟨c, hc, hword⟩ := h
  obtain ⟨hk, rfl⟩ := List.getElem?_eq_some_iff.mp hc
  rw [List.drop_eq_getElem_cons hk, inPath_cons_of_isWord hword]

/-- Word characters up to a colon are in its path. -/
theorem inPath_drop_of_words (hle : k ≤ j) (hwords : ∀ m, k ≤ m → m < j → WordAt s m)
    (hcolon : s[j]? = some ':') : InPath (s.drop k) := by
  induction hle using Nat.decreasingInduction with
  | self =>
    obtain ⟨hj, hget⟩ := List.getElem?_eq_some_iff.mp hcolon
    rw [List.drop_eq_getElem_cons hj, hget]
    exact inPath_colon _
  | of_succ k hk ih =>
    rw [inPath_drop_of_wordAt (hwords k (Nat.le_refl k) hk)]
    exact ih fun m hm => hwords m (by omega)

/-- A path goes on with word characters up to a colon. -/
theorem InPath.exists_colon (h : InPath (s.drop k)) :
    ∃ j, k ≤ j ∧ s[j]? = some ':' ∧ ∀ m, k ≤ m → m < j → WordAt s m := by
  generalize ht : s.drop k = t at h
  induction t generalizing k with
  | nil => cases h
  | cons c rest ih =>
    have hget : s[k]? = some c := by
      rw [← List.head?_drop, ht, List.head?_cons]
    by_cases hword : isWord c = true
    · have hrest : s.drop (k + 1) = rest := by
        rw [← List.drop_drop, ht, List.drop_succ_cons, List.drop_zero]
      obtain ⟨j, hle, hcolon, hwords⟩ := ih hrest ((inPath_cons_of_isWord hword).mp h)
      refine ⟨j, by omega, hcolon, fun m hm hmj => ?_⟩
      by_cases heq : m = k
      · subst heq
        exact ⟨c, hget, hword⟩
      · exact hwords m (by omega) hmj
    · rw [Bool.not_eq_true] at hword
      by_cases hcolon : c = ':'
      · subst hcolon
        exact ⟨k, Nat.le_refl k, hget, fun m hm hmk => by omega⟩
      · exact absurd h (not_inPath_cons hword hcolon)

/-- A word character has a run before it that nothing continues to the left. -/
theorem exists_run_start (h : WordAt s k) :
    ∃ i, i ≤ k ∧ (∀ m, i ≤ m → m ≤ k → WordAt s m) ∧ (i = 0 ∨ ¬ WordAt s (i - 1)) := by
  induction k with
  | zero =>
    refine ⟨0, Nat.le_refl 0, fun m _ hm => ?_, Or.inl rfl⟩
    obtain rfl : m = 0 := by omega
    exact h
  | succ k ih =>
    by_cases hk : WordAt s k
    · obtain ⟨i, hi, hwords, hstart⟩ := ih hk
      refine ⟨i, by omega, fun m him hm => ?_, hstart⟩
      by_cases heq : m = k + 1
      · subst heq
        exact h
      · exact hwords m him (by omega)
    · refine ⟨k + 1, Nat.le_refl _, fun m hkm hm => ?_, Or.inr hk⟩
      obtain rfl : m = k + 1 := by omega
      exact h

/-- To know whether a character is dropped it is enough to look ahead from it. -/
theorem dropped_iff : Dropped s k ↔ InPath (s.drop k) := by
  constructor
  · rintro (hcolon | ⟨i, j, hrun, hik, hkj, hcolon⟩)
    · exact inPath_drop_of_words (Nat.le_refl k) (fun m hm hmk => by omega) hcolon
    · exact inPath_drop_of_words (Nat.le_of_lt hkj)
        (fun m hm hmj => hrun.wordAt m (by omega) hmj) hcolon
  · intro h
    obtain ⟨j, hle, hcolon, hwords⟩ := h.exists_colon
    by_cases heq : k = j
    · subst heq
      exact Or.inl hcolon
    · have hkj : k < j := by omega
      obtain ⟨i, hik, hbefore, hstart⟩ := exists_run_start (hwords k (Nat.le_refl k) hkj)
      have hrun : ∀ m, i ≤ m → m < j → WordAt s m := by
        intro m him hmj
        by_cases hmk : m ≤ k
        · exact hbefore m him hmk
        · exact hwords m (by omega) hmj
      exact Or.inr ⟨i, j, ⟨by omega, hrun, hstart, not_wordAt_of_colon hcolon⟩, hik, hkj, hcolon⟩

instance (s : List Char) (k : Nat) : Decidable (Dropped s k) :=
  decidable_of_iff _ dropped_iff.symm

theorem dropped_zero : Dropped s 0 ↔ InPath s := by rw [dropped_iff, List.drop_zero]

theorem dropped_cons_succ : Dropped (c :: s) (k + 1) ↔ Dropped s k := by
  rw [dropped_iff, dropped_iff, List.drop_succ_cons]

/-- Of two neighbours in one run, neither is dropped without the other. -/
theorem dropped_of_wordAt (hword : WordAt s k) (h : Dropped s (k + 1)) : Dropped s k := by
  rw [dropped_iff] at h ⊢
  exact (inPath_drop_of_wordAt hword).mpr h

/-- The places of what is not dropped, in order. -/
def keptPlaces (s : List Char) : List Nat :=
  (List.range s.length).filter fun k => ¬ Dropped s k

theorem mem_keptPlaces_iff : k ∈ keptPlaces s ↔ k < s.length ∧ ¬ Dropped s k := by
  simp [keptPlaces]

theorem keptPlaces_ascending (s : List Char) : (keptPlaces s).Pairwise (· < ·) :=
  List.pairwise_lt_range.filter _

theorem keptPlaces_cons (c : Char) (s : List Char) :
    keptPlaces (c :: s) = if InPath (c :: s) then (keptPlaces s).map (· + 1)
      else 0 :: (keptPlaces s).map (· + 1) := by
  have hlater : ((List.range s.length).map (· + 1)).filter (fun k => ¬ Dropped (c :: s) k) =
      (keptPlaces s).map (· + 1) := by
    rw [keptPlaces, List.filter_map]
    refine congrArg _ (List.filter_congr fun k _ => ?_)
    simp only [Function.comp_apply, dropped_cons_succ]
  rw [keptPlaces, List.length_cons, List.range_succ_eq_map, List.filter_cons, hlater]
  simp only [dropped_zero, decide_not, Bool.not_eq_true', decide_eq_false_iff_not]
  by_cases h : InPath (c :: s)
  · rw [if_pos h, if_neg (not_not_intro h)]
  · rw [if_neg h, if_pos h]

/-- Two places in a row of what is kept, the first of them in a word, are neighbours. -/
theorem keptPlaces_adjacent {m l : Nat} (hk : (keptPlaces s)[m]? = some k)
    (hl : (keptPlaces s)[m + 1]? = some l) (hword : WordAt s k) : l = k + 1 := by
  obtain ⟨hm, rfl⟩ := List.getElem?_eq_some_iff.mp hk
  obtain ⟨hm', rfl⟩ := List.getElem?_eq_some_iff.mp hl
  have hascending := List.pairwise_iff_getElem.mp (keptPlaces_ascending s)
  have hlt := hascending m (m + 1) hm hm' (Nat.lt_succ_self m)
  have hkept := mem_keptPlaces_iff.mp (List.getElem_mem hm)
  have hbound := (mem_keptPlaces_iff.mp (List.getElem_mem hm')).1
  -- The place after `k` is kept too, so it must be the next one.
  have hnext : (keptPlaces s)[m] + 1 ∈ keptPlaces s :=
    mem_keptPlaces_iff.mpr ⟨by omega, fun h => hkept.2 (dropped_of_wordAt hword h)⟩
  obtain ⟨n, hn, hget⟩ := List.getElem_of_mem hnext
  rcases Nat.lt_trichotomy n (m + 1) with hbefore | rfl | hafter
  · rcases Nat.lt_or_eq_of_le (Nat.le_of_lt_succ hbefore) with hless | rfl
    · have hfewer := hascending n m hn hm hless
      omega
    · omega
  · exact hget
  · have hmore := hascending (m + 1) n hm' hn hafter
    omega

/-- The characters that are left of a name. -/
def stripped : List Char → List Char
  | [] => []
  | c :: s => if InPath (c :: s) then stripped s else c :: stripped s

theorem stripped_cons (c : Char) (s : List Char) :
    stripped (c :: s) = if InPath (c :: s) then stripped s else c :: stripped s := rfl

theorem Scan.read_of_isWord (b : Scan) (hword : isWord c = true) :
    b.read c = { b with word := b.word ++ [c] } := if_pos hword

theorem Scan.read_colon (b : Scan) : b.read ':' = { b with word := [] } := rfl

theorem Scan.read_separator (b : Scan) (hword : isWord c = false) (hcolon : c ≠ ':') :
    b.read c = ⟨b.name ++ b.word ++ [c], []⟩ := by
  rw [read, hword, if_neg Bool.false_ne_true, if_neg hcolon]

/-- Whether a scan keeps the word it holds back hangs on what it reads next; the rest of what it
reads is treated as if it stood alone. -/
theorem kept_foldl_read (s : List Char) (b : Scan) :
    (s.foldl Scan.read b).kept = b.name ++ (if InPath s then [] else b.word) ++ stripped s := by
  induction s generalizing b with
  | nil => exact (List.append_nil _).symm
  | cons c rest ih =>
    rw [List.foldl_cons, ih, stripped_cons]
    by_cases hword : isWord c = true
    · rw [b.read_of_isWord hword]
      simp only [inPath_cons_of_isWord hword]
      by_cases hpath : InPath rest
      · rw [if_pos hpath, if_pos hpath, if_pos hpath]
      · simp only [if_neg hpath, List.append_assoc, List.singleton_append]
    · rw [Bool.not_eq_true] at hword
      by_cases hcolon : c = ':'
      · subst hcolon
        rw [b.read_colon, if_pos (inPath_colon rest), if_pos (inPath_colon rest), ite_self]
      · have hkept := not_inPath_cons (s := rest) hword hcolon
        rw [b.read_separator hword hcolon, if_neg hkept, if_neg hkept, ite_self]
        simp only [List.append_assoc, List.singleton_append]

/-- What is left are the characters at the places that are kept. -/
theorem stripped_map_some (s : List Char) :
    (stripped s).map some = (keptPlaces s).map (s[·]?) := by
  induction s with
  | nil => rfl
  | cons c rest ih =>
    have hlater : ((keptPlaces rest).map (· + 1)).map ((c :: rest)[·]?) =
        (keptPlaces rest).map (rest[·]?) := by
      rw [List.map_map]
      rfl
    rw [stripped_cons, keptPlaces_cons]
    by_cases h : InPath (c :: rest)
    · rw [if_pos h, if_pos h, hlater, ih]
    · rw [if_neg h, if_neg h, List.map_cons, List.map_cons, hlater, ih]
      rfl

theorem stripped_append_cons (hword : isWord c = false) (hcolon : c ≠ ':') (s t : List Char) :
    stripped (s ++ c :: t) = stripped s ++ c :: stripped t := by
  induction s with
  | nil => rw [List.nil_append, stripped_cons, if_neg (not_inPath_cons hword hcolon)]; rfl
  | cons d rest ih =>
    have hsame : InPath (d :: (rest ++ c :: t)) ↔ InPath (d :: rest) :=
      inPath_append_cons hword hcolon (d :: rest) t
    rw [List.cons_append, stripped_cons, stripped_cons, ih]
    simp only [hsame]
    split
    · rfl
    · rw [List.cons_append]

theorem colon_not_mem_stripped (s : List Char) : ':' ∉ stripped s := by
  induction s with
  | nil => exact List.not_mem_nil
  | cons c rest ih =>
    rw [stripped_cons]
    split
    · exact ih
    · rename_i hkept
      rw [List.mem_cons, not_or]
      refine ⟨?_, ih⟩
      rintro rfl
      exact hkept (inPath_colon rest)

/-- Without a colon there is nothing to strip. -/
theorem stripped_of_not_mem (h : ':' ∉ s) : stripped s = s := by
  induction s with
  | nil => rfl
  | cons c rest ih =>
    have hkept : ¬ InPath (c :: rest) := fun hpath => h hpath.mem
    rw [stripped_cons, if_neg hkept, ih fun hmem => h (List.mem_cons_of_mem c hmem)]

theorem toList_unqualified (full : String) :
    (unqualified full).toList = stripped full.toList := by
  rw [unqualified, String.toList_ofList, kept_foldl_read]
  simp

/-- A name keeps, in order, all that is neither a colon nor in a run of word characters right before
one. Around a separator the parts of a name are treated on their own. No colon is left, whatever
follows a word character followed it before, and there is nothing more to strip the second time. -/
theorem unqualified_strips_paths :
    (∀ full : String, (unqualified full).toList.map some =
      (keptPlaces full.toList).map (full.toList[·]?)) ∧
    (∀ (a b : String) (c : Char), isWord c = false → c ≠ ':' →
      unqualified (a ++ String.singleton c ++ b) =
        unqualified a ++ String.singleton c ++ unqualified b) ∧
    (∀ full : String, ':' ∉ (unqualified full).toList) ∧
    (∀ (full : String) (m k l : Nat), (keptPlaces full.toList)[m]? = some k →
      (keptPlaces full.toList)[m + 1]? = some l → WordAt full.toList k → l = k + 1) ∧
    ∀ full : String, unqualified (unqualified full) = unqualified full := by
  refine ⟨fun full => ?_, fun a b c hword hcolon => ?_, fun full => ?_,
    fun full m k l hk hl hword => keptPlaces_adjacent hk hl hword, fun full => ?_⟩
  · rw [toList_unqualified, stripped_map_some]
  · apply String.toList_inj.mp
    simp only [toList_unqualified, String.toList_append, String.toList_singleton,
      List.append_assoc, List.singleton_append]
    exact stripped_append_cons hword hcolon a.toList b.toList
  · rw [toList_unqualified]
    exact colon_not_mem_stripped full.toList
  · apply String.toList_inj.mp
    rw [toList_unqualified, stripped_of_not_mem]
    rw [toList_unqualified]
    exact colon_not_mem_stripped full.toList

/-- The arguments of a pair lose their paths apart from each other. The word that is left of a path
stays in one piece. -/
theorem unqualified_pair :
    isWord '<' = false ∧ '<' ≠ ':' ∧
    unqualified "a::Pair<b::X, ::c::d::Y>" = "Pair" ++ "<" ++ "X, Y>" ∧
    (keptPlaces "b::Pair".toList)[0]? = some 3 ∧ WordAt "b::Pair".toList 3 ∧
    ∀ l, (keptPlaces "b::Pair".toList)[1]? = some l → l = 4 := by
  obtain ⟨-, hseparator, -, hadjacent, -⟩ := unqualified_strips_paths
  have hword : isWord '<' = false := by decide
  have hcolon : '<' ≠ ':' := by decide
  have hplace : (keptPlaces "b::Pair".toList)[0]? = some 3 := by decide
  have hletter : WordAt "b::Pair".toList 3 := ⟨'P', by decide, by decide⟩
  refine ⟨hword, hcolon, ?_, hplace, hletter, fun l hl => ?_⟩
  · exact (hseparator "a::Pair" "b::X, ::c::d::Y>" '<' hword hcolon).trans (by decide)
  · exact hadjacent "b::Pair" 0 3 l hplace hl hletter

end Packrat.Name
