import Mathlib.Data.List.Forall2
import Mathlib.Data.String.Basic
import Packrat.Proofs.Exploration
import Packrat.Schema

/-!
The columns of a printed grammar, counted in characters. The first entry of a block begins where the
head ends, and each other entry where its indent ends. The indent is as wide as the head has bytes,
so the two are the same column just if each character of the name is one byte, and so are those of
the equals sign and of the bars.
-/
namespace Packrat

theorem not_mem_toList_append {c : Char} {a b : String} :
    c ∉ (a ++ b).toList ↔ c ∉ a.toList ∧ c ∉ b.toList := by
  rw [String.toList_append, List.mem_append, not_or]

theorem utf8Size_eq_one_iff (c : Char) : c.utf8Size = 1 ↔ c.toNat < 0x80 := by
  rw [Char.utf8Size_eq_one_iff, UInt32.le_iff_toNat_le]
  exact Nat.lt_succ_iff.symm

theorem length_le_utf8Len (cs : List Char) : cs.length ≤ String.utf8Len cs := by
  induction cs with
  | nil => exact Nat.le_refl 0
  | cons c rest ih =>
    have hpos := c.utf8Size_pos
    rw [List.length_cons, String.utf8Len_cons]
    omega

theorem length_eq_utf8Len_iff (cs : List Char) :
    cs.length = String.utf8Len cs ↔ ∀ c ∈ cs, c.toNat < 0x80 := by
  induction cs with
  | nil => simp
  | cons c rest ih =>
    have hpos := c.utf8Size_pos
    have hle := length_le_utf8Len rest
    rw [List.length_cons, String.utf8Len_cons, List.forall_mem_cons, ← ih, ← utf8Size_eq_one_iff]
    omega

/-- A text has as many bytes as characters just if it is plain ASCII. -/
theorem length_eq_utf8ByteSize_iff (text : String) :
    text.length = text.utf8ByteSize ↔ ∀ c ∈ text.toList, c.toNat < 0x80 := by
  have hsize : text.utf8ByteSize = String.utf8Len text.toList := by
    rw [← String.utf8ByteSize_ofList, String.ofList_toList]
  rw [hsize, ← String.length_toList, length_eq_utf8Len_iff]

def lines (text : String) : List String := (text.toList.splitOn '\n').map String.ofList

theorem lines_append_break (a b : String) : lines (a ++ "\n" ++ b) = lines a ++ lines b := by
  have hbreak : (a ++ "\n" ++ b).toList = a.toList ++ '\n' :: b.toList := by
    rw [String.append_assoc, String.toList_append, String.toList_append]
    rfl
  rw [lines, hbreak, List.splitOn_append_cons_self, List.map_append]
  rfl

theorem lines_of_not_mem {text : String} (h : '\n' ∉ text.toList) : lines text = [text] := by
  rw [lines, List.splitOn_eq_singleton h, List.map_singleton, String.ofList_toList]

/-- With a break and an indent between them, texts are a line each. -/
theorem lines_indented {head pad first : String} {others : List String}
    (hhead : '\n' ∉ head.toList) (hpad : '\n' ∉ pad.toList)
    (htexts : ∀ e ∈ first :: others, '\n' ∉ e.toList) :
    lines (head ++ ("\n" ++ pad).intercalate (first :: others)) =
      (head ++ first) :: others.map (pad ++ ·) := by
  induction others generalizing head first with
  | nil =>
    rw [String.intercalate_singleton]
    exact lines_of_not_mem (not_mem_toList_append.mpr ⟨hhead, htexts first List.mem_cons_self⟩)
  | cons next rest ih =>
    obtain ⟨hfirst, hrest⟩ := List.forall_mem_cons.mp htexts
    have hsplit : head ++ ("\n" ++ pad).intercalate (first :: next :: rest) =
        (head ++ first) ++ "\n" ++ (pad ++ ("\n" ++ pad).intercalate (next :: rest)) := by
      rw [String.intercalate_cons_cons]
      simp only [String.append_assoc]
    rw [hsplit, lines_append_break, ih hpad hrest,
      lines_of_not_mem (not_mem_toList_append.mpr ⟨hhead, hfirst⟩)]
    rfl

/-- A blank line comes between texts that are joined by two breaks. -/
theorem lines_intercalate_cons {first : String} {rest : List String} (hrest : rest ≠ []) :
    lines ("\n\n".intercalate (first :: rest)) =
      lines first ++ "" :: lines ("\n\n".intercalate rest) := by
  have hbreaks : "\n\n".intercalate (first :: rest) =
      first ++ "\n" ++ ("" ++ "\n" ++ "\n\n".intercalate rest) := by
    rw [String.intercalate_cons_of_ne_nil hrest]
    simp only [String.append_assoc, String.empty_append]
    rfl
  rw [hbreaks, lines_append_break, lines_append_break]
  rfl

/-- The lines of a text are found in a row where it is joined to others by blank lines. -/
theorem exists_lines_intercalate {text : String} {texts : List String} (h : text ∈ texts) :
    ∃ before after, lines ("\n\n".intercalate texts) = before ++ lines text ++ after ∧
      (before = [] ∨ before.getLast? = some "") ∧ (after = [] ∨ after.head? = some "") := by
  induction texts with
  | nil => cases h
  | cons first rest ih =>
    by_cases hrest : rest = []
    · subst hrest
      obtain rfl := List.mem_singleton.mp h
      exact ⟨[], [], by simp, Or.inl rfl, Or.inl rfl⟩
    rw [lines_intercalate_cons hrest]
    rcases List.mem_cons.mp h with rfl | hmem
    · exact ⟨[], "" :: lines ("\n\n".intercalate rest), by simp, Or.inl rfl, Or.inr rfl⟩
    · obtain ⟨before, after, hlines, hbefore, hafter⟩ := ih hmem
      refine ⟨lines first ++ "" :: before, after, by simp [hlines], Or.inr ?_, hafter⟩
      rcases hbefore with rfl | hlast
      · simp
      · simp [List.getLast?_append, List.getLast?_cons, hlast]

/-- The line ends with the text, which begins in the given column. -/
def EndsAt (line : String) (column : Nat) (text : String) : Prop :=
  ∃ before : String, line = before ++ text ∧ before.length = column

/-- Each line ends with its text, and all the texts begin in one column. -/
def Aligned (ls texts : List String) : Prop :=
  ∃ column, List.Forall₂ (fun line text => EndsAt line column text) ls texts

theorem endsAt_append_iff {before text : String} {column : Nat} :
    EndsAt (before ++ text) column text ↔ before.length = column := by
  constructor
  · rintro ⟨before', heq, hlength⟩
    rwa [(String.append_left_inj text).mp heq]
  · exact fun hlength => ⟨before, rfl, hlength⟩

theorem endsAt_indented (pad : String) (texts : List String) :
    List.Forall₂ (fun line text => EndsAt line pad.length text) (texts.map (pad ++ ·)) texts := by
  rw [List.forall₂_map_left_iff, List.forall₂_same]
  exact fun text _ => endsAt_append_iff.mpr rfl

/-- A head and indents put texts into one column just if they are equally wide. -/
theorem aligned_iff (head pad first : String) (others : List String) :
    Aligned ((head ++ first) :: others.map (pad ++ ·)) (first :: others) ↔
      others = [] ∨ head.length = pad.length := by
  simp only [Aligned, List.forall₂_cons, List.forall₂_map_left_iff, List.forall₂_same,
    endsAt_append_iff]
  cases others with
  | nil => simp
  | cons next rest =>
    constructor
    · rintro ⟨column, hhead, hpad⟩
      exact Or.inr (hhead.trans (hpad next List.mem_cons_self).symm)
    · rintro (hnil | hwidth)
      · cases hnil
      · exact ⟨head.length, rfl, fun _ _ => hwidth.symm⟩

variable {S : Type} {V : S → Type} {α : Type}

/-- The text of a keyword or of a delimiter. -/
def Policy.literal? : Policy S → Option Literal
  | keyword literal => some literal
  | element _ (.delimited delimiter _ _) => some delimiter
  | element _ _ => none

def Shape.literals : Shape V α → List Literal
  | sequence seq => seq.components.filterMap fun d => d.policy.literal?
  | _ => []

theorem Policy.suffix_unbroken {p : Policy S}
    (h : ∀ l, p.literal? = some l → '\n' ∉ l.text.toList) : '\n' ∉ p.suffix.toList := by
  match p with
  | .keyword literal =>
    simp [suffix, h literal rfl]
  | .element _ (.delimited delimiter _ _) =>
    simp [suffix, Quantity.suffix, h delimiter rfl]
  | .element _ .required | .element _ .optional | .element _ .oneOrMore | .element _ .zeroOrMore =>
    simp [suffix, Quantity.suffix]

namespace Grammar

variable {g : Grammar S V} {s : S}

/-- No line break is in the name of a symbol, in the names that it mentions or in its literals. -/
structure Unbroken (g : Grammar S V) (s : S) : Prop where
  name : '\n' ∉ (g.name s).toList
  mentioned : ∀ t, g.Mentions s t → '\n' ∉ (g.name t).toList
  literals : ∀ l ∈ (g.shape s).literals, '\n' ∉ l.text.toList

/-- The block of a symbol, and the entries in it. -/
def printed (g : Grammar S V) (s : S) : String := g.block (g.name s) (g.shape s).inOrder

def shown (g : Grammar S V) (s : S) : List String := g.entries (g.shape s).inOrder

/-- The entries of alternatives, each with its sign. -/
def signed : List String → List String
  | [] => []
  | first :: others => ("= " ++ first) :: others.map ("| " ++ ·)

/-- The entries of a block stand in one column, and the bars of an alternation in that of its equals
sign. -/
structure LinesUp (g : Grammar S V) (s : S) : Prop where
  entries : Aligned (lines (g.printed s)) (g.shown s)
  bars : ∀ alternatives, g.shape s = .alternation alternatives →
    Aligned (lines (g.printed s)) (signed (g.shown s))

theorem toList_spaces (n : Nat) : (spaces n).toList = List.replicate n ' ' :=
  String.toList_ofList

theorem length_spaces (n : Nat) : (spaces n).length = n := by
  rw [spaces, String.length_ofList, List.length_replicate]

theorem utf8ByteSize_head (name : String) : (head name).utf8ByteSize = name.utf8ByteSize + 3 :=
  String.utf8ByteSize_append

theorem length_head (name : String) : (head name).length = name.length + 3 :=
  String.length_append _ _

/-- All that is indented is as far in as the head has bytes. -/
theorem length_indent (name : String) (shape : Shape V α) :
    (indent name shape).length = name.utf8ByteSize + 3 := by
  have hblank : (spaces (head name).utf8ByteSize).length = name.utf8ByteSize + 3 := by
    rw [length_spaces, utf8ByteSize_head]
  cases shape with
  | alternation alternatives =>
    change (spaces ((head name).utf8ByteSize - 2) ++ "| ").length = _
    rw [String.length_append, length_spaces, utf8ByteSize_head]
    rfl
  | terminal matcher => exact hblank
  | sequence seq => exact hblank

theorem indent_unbroken (name : String) (shape : Shape V α) :
    '\n' ∉ (indent name shape).toList := by
  have hspaces : ∀ n, '\n' ∉ (spaces n).toList := by
    intro n
    rw [toList_spaces, List.mem_replicate]
    exact fun h => absurd h.2 (by decide)
  cases shape with
  | alternation alternatives => exact not_mem_toList_append.mpr ⟨hspaces _, by decide⟩
  | terminal matcher => exact hspaces _
  | sequence seq => exact hspaces _

theorem Unbroken.shown (h : g.Unbroken s) : ∀ e ∈ g.shown s, '\n' ∉ e.toList := by
  intro e he
  rw [Grammar.shown] at he
  cases hshape : g.shape s with
  | terminal matcher =>
    rw [hshape] at he
    obtain rfl := List.mem_singleton.mp he
    decide
  | alternation alternatives =>
    rw [hshape] at he
    obtain ⟨a, ha, rfl⟩ := List.mem_map.mp he
    exact h.mentioned a.symbol (.alternative hshape ha)
  | sequence seq =>
    rw [hshape] at he
    obtain ⟨d, hd, rfl⟩ := List.mem_map.mp he
    have hdeclared : d ∈ seq.components := (Component.byPriority_perm _).mem_iff.mp hd
    refine not_mem_toList_append.mpr ⟨?_, ?_⟩
    · cases ht : d.policy.symbol? with
      | none => exact List.not_mem_nil
      | some t => exact h.mentioned t (.element hshape hdeclared ht)
    · refine Policy.suffix_unbroken fun l hl => h.literals l ?_
      rw [hshape]
      exact List.mem_filterMap.mpr ⟨d, hdeclared, hl⟩

/-- A valid declaration has something to show. -/
theorem shown_ne_nil (h : g.isValid s = true) : g.shown s ≠ [] := by
  rw [isValid, Option.isNone_iff_eq_none] at h
  rw [shown]
  cases hshape : g.shape s with
  | terminal matcher => exact List.cons_ne_nil _ _
  | alternation alternatives =>
    rw [hshape] at h
    cases alternatives with
    | nil => cases h
    | cons a rest => exact List.cons_ne_nil _ _
  | sequence seq =>
    rw [hshape] at h
    intro hnil
    have hordered : Component.byPriority seq.components = [] := List.map_eq_nil_iff.mp hnil
    have hperm := Component.byPriority_perm seq.components
    rw [hordered] at hperm
    rw [Shape.flaw?, hperm.nil_eq.symm] at h
    cases h

theorem lines_printed {first : String} {others : List String} (h : g.Unbroken s)
    (hshown : g.shown s = first :: others) :
    lines (g.printed s) =
      (head (g.name s) ++ first) :: others.map (indent (g.name s) (g.shape s).inOrder ++ ·) := by
  have hhead : '\n' ∉ (head (g.name s)).toList :=
    not_mem_toList_append.mpr ⟨h.name, by decide⟩
  have hentries := h.shown
  rw [hshown] at hentries
  rw [printed, block]
  rw [shown] at hshown
  rw [hshown]
  exact lines_indented hhead (indent_unbroken _ _) hentries

/-- The signs of an alternation are two columns before the entries. -/
theorem aligned_signed_iff (h : g.Unbroken s) {first : String} {others : List String}
    (hshown : g.shown s = first :: others) {alternatives : List (Alternative V (V s))}
    (hshape : g.shape s = .alternation alternatives) :
    Aligned (lines (g.printed s)) (signed (g.shown s)) ↔
      others = [] ∨ (g.name s).length = (g.name s).utf8ByteSize := by
  have hhead : head (g.name s) ++ first = (g.name s ++ " ") ++ ("= " ++ first) := by
    have hsign : " = " = " " ++ "= " := rfl
    simp only [head, hsign, String.append_assoc]
  have hindent : indent (g.name s) (g.shape s).inOrder =
      spaces ((g.name s).utf8ByteSize + 1) ++ "| " := by
    rw [hshape]
    change spaces ((head (g.name s)).utf8ByteSize - 2) ++ "| " = _
    rw [utf8ByteSize_head]
    rfl
  have hothers : others.map (indent (g.name s) (g.shape s).inOrder ++ ·) =
      (others.map ("| " ++ ·)).map (spaces ((g.name s).utf8ByteSize + 1) ++ ·) := by
    rw [hindent, List.map_map]
    exact List.map_congr_left fun e _ => String.append_assoc
  rw [lines_printed h hshown, hshown, signed, hhead, hothers, aligned_iff, List.map_eq_nil_iff,
    String.length_append, length_spaces]
  exact or_congr_right (Nat.add_right_cancel_iff (m := (g.name s).length))

/-- Blocks line up just if there is nothing to line up with, or the name is plain ASCII. -/
theorem linesUp_iff (h : g.Unbroken s) (hvalid : g.isValid s = true) :
    g.LinesUp s ↔ (g.shown s).length ≤ 1 ∨ ∀ c ∈ (g.name s).toList, c.toNat < 0x80 := by
  obtain ⟨first, others, hshown⟩ := List.exists_cons_of_ne_nil (shown_ne_nil hvalid)
  have hentries : Aligned (lines (g.printed s)) (g.shown s) ↔
      others = [] ∨ (g.name s).length = (g.name s).utf8ByteSize := by
    rw [lines_printed h hshown, hshown, aligned_iff, length_head, length_indent]
    exact or_congr_right (Nat.add_right_cancel_iff)
  have hfew : (g.shown s).length ≤ 1 ↔ others = [] := by
    rw [hshown, List.length_cons, ← List.length_eq_zero_iff]
    omega
  rw [hfew, ← length_eq_utf8ByteSize_iff, ← hentries]
  constructor
  · exact LinesUp.entries
  · intro haligned
    exact ⟨haligned, fun alternatives hshape =>
      (aligned_signed_iff h hshown hshape).mpr (hentries.mp haligned)⟩

/-- A grammar that has a text has nothing invalid in it. -/
theorem eq_intercalate_of_text [DecidableEq S] {root : S} {text : String}
    (h : g.text root = .ok text) :
    (∀ t, g.LeadsTo root t → g.isValid t = true) ∧
      text = "\n\n".intercalate ((g.reachable root).map g.printed) := by
  have hvalid : ∀ t, g.LeadsTo root t → g.isValid t = true := by
    intro t ht
    by_contra hinvalid
    rw [Bool.not_eq_true] at hinvalid
    obtain ⟨error, herror⟩ := text_eq_error_iff.mpr ⟨t, ht, hinvalid⟩
    cases h.symm.trans herror
  refine ⟨hvalid, ?_⟩
  rw [Grammar.text, mapM_blockOf_of_isValid fun t ht => hvalid t (mem_reachable_iff.mp ht)] at h
  exact (Except.ok.inj h).symm

/-- In the text of a grammar the block of a symbol has lines of its own, between blank lines. The
first entry follows the name and an equals sign, and each other entry is as far in as the name has
bytes, and three columns more. So the block lines up just if it is one line, or its name is plain
ASCII. -/
theorem text_linesUp_iff [DecidableEq S] {root : S} {text : String} (htext : g.text root = .ok text)
    (hs : g.LeadsTo root s) (hunbroken : g.Unbroken s) :
    (∃ before after, lines text = before ++ lines (g.printed s) ++ after ∧
      (before = [] ∨ before.getLast? = some "") ∧ (after = [] ∨ after.head? = some "")) ∧
    (∃ first others continuations, g.shown s = first :: others ∧
      lines (g.printed s) = (g.name s ++ " = " ++ first) :: continuations ∧
      List.Forall₂ (fun line entry => EndsAt line ((g.name s).utf8ByteSize + 3) entry)
        continuations others) ∧
    (g.LinesUp s ↔ (g.shown s).length ≤ 1 ∨ ∀ c ∈ (g.name s).toList, c.toNat < 0x80) := by
  obtain ⟨hvalid, rfl⟩ := eq_intercalate_of_text htext
  refine ⟨?_, ?_, linesUp_iff hunbroken (hvalid s hs)⟩
  · exact exists_lines_intercalate (List.mem_map_of_mem (mem_reachable_iff.mpr hs))
  · obtain ⟨first, others, hshown⟩ := List.exists_cons_of_ne_nil (shown_ne_nil (hvalid s hs))
    refine ⟨first, others, _, hshown, lines_printed hunbroken hshown, ?_⟩
    rw [← length_indent (g.name s) (g.shape s).inOrder]
    exact endsAt_indented _ others

end Grammar

namespace Schema

/-- A menu whose own name is plain, of things whose names are not. -/
def menu : Schema 6 := #v[
  ⟨"Menu", .alternation [1, 2]⟩,
  ⟨"Café", .alternation [3, 4]⟩,
  ⟨"Thé", .sequence [.required "leaf" 0 5, .keyword "with" 1 "citron"] {}⟩,
  ⟨"Noir", .terminal (.oneOf ["noir"])⟩,
  ⟨"Crème", .terminal (.oneOf ["crème"])⟩,
  ⟨"Feuille", .terminal .identifier⟩]

theorem menu_unbroken (s : Fin 6) : (grammar menu).Unbroken s := by
  have hnames : ∀ t, '\n' ∉ ((grammar menu).name t).toList := by decide
  have hliterals : ∀ t, ∀ l ∈ ((grammar menu).shape t).literals, '\n' ∉ l.text.toList := by decide
  exact ⟨hnames s, fun t _ => hnames t, hliterals s⟩

/-- The menu as it is printed. -/
def menuText : String :=
  "Menu = Café\n     | Thé\n\n" ++ "Café = Noir\n      | Crème\n\n" ++
    "Thé = Feuille\n       `citron`\n\n" ++ "Noir = ....\n\n" ++ "Crème = ....\n\n" ++
    "Feuille = ...."

theorem text_menu : (grammar menu).text 0 = .ok menuText := by decide +kernel

/-- Under a plain name the entries line up, whatever they are. -/
theorem menu_linesUp :
    (grammar menu).text 0 = .ok menuText ∧
    (grammar menu).LeadsTo 0 0 ∧ (grammar menu).Unbroken 0 ∧ (grammar menu).LinesUp 0 := by
  have hroot : (grammar menu).LeadsTo 0 0 := .refl
  have hplain : ∀ c ∈ ((grammar menu).name 0).toList, c.toNat < 0x80 := by
    have hall : ((grammar menu).name 0).toList.all (fun c => decide (c.toNat < 0x80)) = true := rfl
    simpa only [List.all_eq_true, decide_eq_true_eq] using hall
  obtain ⟨-, -, haligned⟩ := Grammar.text_linesUp_iff text_menu hroot (menu_unbroken 0)
  exact ⟨text_menu, hroot, menu_unbroken 0, haligned.mpr (Or.inr hplain)⟩

/-- Under a name with an accent the bar of an alternation is not under its equals sign, and the
second component of a sequence is not under the first. -/
theorem menu_not_linesUp :
    (grammar menu).text 0 = .ok menuText ∧
    ((grammar menu).LeadsTo 0 1 ∧ (grammar menu).Unbroken 1 ∧ ¬ (grammar menu).LinesUp 1) ∧
    ((grammar menu).LeadsTo 0 2 ∧ (grammar menu).Unbroken 2 ∧ ¬ (grammar menu).LinesUp 2) := by
  have haccent : ∀ s, (grammar menu).isValid s = true → ¬ ((grammar menu).shown s).length ≤ 1 →
      'é' ∈ ((grammar menu).name s).toList → ¬ (grammar menu).LinesUp s := by
    intro s hvalid hmany hmem halign
    rcases (Grammar.linesUp_iff (menu_unbroken s) hvalid).mp halign with hfew | hplain
    · exact hmany hfew
    · exact absurd (hplain 'é' hmem) (by decide)
  refine ⟨text_menu, ⟨?_, menu_unbroken 1, ?_⟩, ?_, menu_unbroken 2, ?_⟩
  · exact Grammar.mem_reachable_iff.mp (by decide)
  · exact haccent 1 rfl (by decide) (by decide)
  · exact Grammar.mem_reachable_iff.mp (by decide)
  · exact haccent 2 rfl (by decide) (by decide)

end Schema

end Packrat
