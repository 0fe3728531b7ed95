import Packrat.Proofs.Registration
import Packrat.Proofs.Tandem
import Packrat.Schema

/-!
Engines that memoize beside engines that do not. Both come to know the same declarations in the
same order, and build as many: what a table spares an engine, it has met already. The engine with
the table runs at most as many matchers as the other.
-/
namespace Packrat

variable {S : Type} {V : S → Type} {g : Grammar S V}

open Cursor

/-- In the first journal, as many declarations built, and at most as many matchers run. -/
structure Spares (journal journal' : List (Event S)) : Prop where
  built_eq : journal.countP Event.isBuilt = journal'.countP Event.isBuilt
  consulted_le : journal.countP Event.isConsulted ≤ journal'.countP Event.isConsulted

namespace Spares

variable {journal journal' later later' : List (Event S)}

theorem append (h : Spares journal journal') (hlater : Spares later later') :
    Spares (later ++ journal) (later' ++ journal') where
  built_eq := by rw [List.countP_append, List.countP_append, h.built_eq, hlater.built_eq]
  consulted_le := by
    rw [List.countP_append, List.countP_append]
    exact Nat.add_le_add hlater.consulted_le h.consulted_le

theorem of_reverse (h : Spares journal.reverse journal'.reverse) : Spares journal journal' where
  built_eq := by simpa only [List.countP_reverse] using h.built_eq
  consulted_le := by simpa only [List.countP_reverse] using h.consulted_le

/-- Events that count the same. -/
theorem cons (h : Spares journal journal') {event event' : Event S}
    (hbuilt : event.isBuilt = event'.isBuilt) (hconsulted : event.isConsulted = event'.isConsulted) :
    Spares (event :: journal) (event' :: journal') := by
  have hone : Spares [event] [event'] := ⟨by simp [hbuilt], by simp [hconsulted]⟩
  exact h.append hone

/-- An event that counts for nothing, while the other side builds nothing. -/
theorem quiet {w v : Work g} (h : Spares journal w.journal) (hquiet : w.Quiet v)
    {event : Event S} (hbuilt : event.isBuilt = false) (hconsulted : event.isConsulted = false) :
    Spares (event :: journal) v.journal where
  built_eq := by
    rw [List.countP_cons_of_neg (by simp [hbuilt]), h.built_eq, hquiet.built_eq]
  consulted_le := by
    rw [List.countP_cons_of_neg (by simp [hconsulted])]
    exact h.consulted_le.trans hquiet.consulted_le

end Spares

namespace Engine

variable [DecidableEq S] {rank : S → Nat}

/-- Some run that does not memoize has come to an outcome of `s` at `c`, and all that it has
registered is known. -/
def Rehearsed (g : Grammar S V) (rank : S → Nat) (known : List S) (s : S) (c : Cursor) : Prop :=
  ∃ (depth : Nat) (o : Outcome (V s)) (w v : Work g), g.Allows rank depth s c ∧
    w.Plain c.input ∧ Parser.call depth s c w = .ok o v ∧ v.engine.registry ⊆ known

/-- An engine that memoizes and one that does not, which know the same. Whatever the first can
find, the second can come to without a symbol that is new to it. -/
structure Paired (rank : S → Nat) (e e' : Engine g) : Prop where
  memoize : e.memoize = true
  plain : e'.memoize = false
  input_eq : e.input? = e'.input?
  registry_eq : e.registry = e'.registry
  rehearsed : ∀ s c o, e.input? = some c.input → e.find? s c.size = some o →
    Rehearsed g rank e.registry s c

theorem Rehearsed.mono {known known' : List S} {s : S} {c : Cursor}
    (h : Rehearsed g rank known s c) (hsub : known ⊆ known') : Rehearsed g rank known' s c := by
  obtain ⟨depth, o, w, v, hdepth, hw, hrun, hknown⟩ := h
  exact ⟨depth, o, w, v, hdepth, hw, hrun, List.Subset.trans hknown hsub⟩

namespace Paired

variable {e e' : Engine g}

theorem fresh (g : Grammar S V) (rank : S → Nat) :
    Paired rank (fresh g true) (Engine.fresh g false) where
  memoize := rfl
  plain := rfl
  input_eq := rfl
  registry_eq := rfl
  rehearsed s c o hinput := by cases hinput

/-- Another engine may take the place of the second. -/
theorem replace (h : Paired rank e e') {d : Engine g} (hplain : d.memoize = false)
    (hinput : d.input? = e'.input?) (hregistry : d.registry = e'.registry) : Paired rank e d where
  memoize := h.memoize
  plain := hplain
  input_eq := h.input_eq.trans hinput.symm
  registry_eq := h.registry_eq.trans hregistry.symm
  rehearsed := h.rehearsed

theorem switch (h : Paired rank e e') (input : Input) :
    Paired rank (e.switch input) (e'.switch input) where
  memoize := h.memoize
  plain := h.plain
  input_eq := rfl
  registry_eq := h.registry_eq
  rehearsed s c o _ hfind := by
    rw [find?_switch] at hfind
    cases hfind

theorem count_left (h : Paired rank e e') (hit : Bool) : Paired rank (e.count hit) e' where
  memoize := (memoize_count e hit).trans h.memoize
  plain := h.plain
  input_eq := (input_count e hit).trans h.input_eq
  registry_eq := (registry_count e hit).trans h.registry_eq
  rehearsed s c o hinput hfind := by
    rw [input_count] at hinput
    rw [find?_count] at hfind
    rw [registry_count]
    exact h.rehearsed s c o hinput hfind

theorem count (h : Paired rank e e') (hit hit' : Bool) :
    Paired rank (e.count hit) (e'.count hit') :=
  (h.count_left hit).replace ((memoize_count e' hit').trans h.plain) (input_count e' hit')
    (registry_count e' hit')

theorem register (h : Paired rank e e') (s : S) :
    Paired rank (e.register s) (e'.register s) where
  memoize := h.memoize
  plain := h.plain
  input_eq := h.input_eq
  registry_eq := congrArg (s :: ·) h.registry_eq
  rehearsed t c o hinput hfind :=
    (h.rehearsed t c o hinput hfind).mono (List.subset_cons_self s e.registry)

/-- What is remembered has been rehearsed. -/
theorem remember (h : Paired rank e e') {s : S} {c : Cursor} (hinput : e.input? = some c.input)
    (hs : Rehearsed g rank e.registry s c) (o : Outcome (V s)) :
    Paired rank (e.remember s c.size o) (e'.remember s c.size o) where
  memoize := (memoize_remember ..).trans h.memoize
  plain := (memoize_remember ..).trans h.plain
  input_eq := by rw [input_remember, input_remember, h.input_eq]
  registry_eq := by rw [registry_remember, registry_remember, h.registry_eq]
  rehearsed t d o' hinput' hfind := by
    rw [input_remember] at hinput'
    rw [registry_remember]
    by_cases hsame : t = s ∧ d.size = c.size
    · obtain ⟨rfl, hsize⟩ := hsame
      obtain rfl : d = c := ext_size (Option.some.inj (hinput'.symm.trans hinput)) hsize
      exact hs
    · rw [find?_remember_ne hinput s o (not_and_or.mp hsame)] at hfind
      exact h.rehearsed t d o' hinput' hfind

end Paired

end Engine

namespace Work

variable [DecidableEq S] {rank : S → Nat}

/-- The run of an engine that memoizes beside that of one that does not. -/
structure Paired (rank : S → Nat) (w v : Work g) : Prop where
  engine : Engine.Paired rank w.engine v.engine
  journal : Spares w.journal v.journal

namespace Paired

variable {w v : Work g}

theorem noting (h : Paired rank w v) {event event' : Event S}
    (hbuilt : event.isBuilt = event'.isBuilt) (hconsulted : event.isConsulted = event'.isConsulted) :
    Paired rank (w.noting event) (v.noting event') :=
  ⟨h.engine, h.journal.cons hbuilt hconsulted⟩

theorem lookingUp (h : Paired rank w v) (s : S) (left : Nat) :
    Paired rank (w.lookingUp s left) (v.lookingUp s left) :=
  ⟨h.engine.count _ _, h.journal.cons rfl rfl⟩

theorem building (h : Paired rank w v) (s : S) : Paired rank (w.building s) (v.building s) := by
  unfold Work.building
  rw [h.engine.registry_eq]
  split
  · exact h
  · exact h.noting rfl rfl

theorem registering (h : Paired rank w v) (s : S) :
    Paired rank (w.registering s) (v.registering s) := by
  unfold Work.registering
  rw [h.engine.registry_eq]
  split
  · exact h
  · exact ⟨h.engine.register s, (h.journal.cons rfl rfl).cons rfl rfl⟩

theorem entering (h : Paired rank w v) (s : S) (left : Nat) :
    Paired rank (w.entering s left) (v.entering s left) :=
  ((h.lookingUp s left).registering s).noting rfl rfl

theorem observing (h : Paired rank w v) (c : Cursor) :
    Paired rank (w.observing c) (v.observing c) := by
  unfold Work.observing
  rw [h.engine.input_eq]
  split
  · exact h
  · exact ⟨h.engine.switch c.input, h.journal.cons rfl rfl⟩

/-- What the first run finds, the second evaluates again. -/
theorem replay (h : Paired rank w v) (hrank : g.Ranked rank) {depth : Nat} {s : S} {c : Cursor}
    (hdepth : g.Allows rank depth s c) (hw : w.engine.FaithfulOn c.input)
    (hv : v.engine.FaithfulOn c.input) {o : Outcome (V s)}
    (hfind : w.engine.find? s c.size = some o) :
    ∃ v', Parser.call depth s c v = .ok o v' ∧ v'.Plain c.input ∧
      Paired rank (w.lookingUp s c.size) v' := by
  obtain ⟨depth₀, o₀, u, u', hdepth₀, hu, hrun, hknown⟩ :=
    h.engine.rehearsed s c o hw.input_eq hfind
  have hstart : Replays c.input v u v := ⟨hu, ⟨h.engine.plain, hv⟩, fun _ => .refl v⟩
  have hmeet := Parser.call_replays hrank hdepth₀ hdepth v u v hstart
  rw [hrun] at hmeet
  cases hagain : Parser.call depth s c v with
  | error halt v' =>
    rw [hagain] at hmeet
    exact hmeet.elim
  | ok o' v' =>
    rw [hagain] at hmeet
    obtain ⟨rfl, hmeant, hreplays⟩ := hmeet
    obtain rfl : o = o₀ := Except.ok.inj ((hw.find? hfind).symm.trans hmeant)
    have hquiet : v.Quiet v' := hreplays.quiet (h.engine.registry_eq ▸ hknown)
    have hinput : v'.engine.input? = v.engine.input? :=
      hreplays.again.faithfulOn.input_eq.trans hv.input_eq.symm
    have hengine := h.engine.replace hreplays.again.memoize hinput hquiet.registry_eq
    exact ⟨v', rfl, hreplays.again, ⟨hengine.count_left _, h.journal.quiet hquiet rfl rfl⟩⟩

end Paired

end Work

namespace Parser

variable [DecidableEq S] {rank : S → Nat} {s : S} {c : Cursor}

/-- Both at work on the input of a cursor. -/
structure PairedOn (rank : S → Nat) (input : Input) (w v : Work g) : Prop
    extends Work.Paired rank w v where
  left : w.engine.FaithfulOn input
  right : v.engine.FaithfulOn input

/-- A call that finds nothing, given that the calls nested in it meet. -/
theorem call_succ_paired {depth : Nat} (hdepth : g.Allows rank (depth + 1) s c)
    (hend : c.atEnd = false) {w v : Work g} (h : PairedOn rank c.input w v)
    (hfind : w.engine.find? s c.size = none)
    (hcall : ∀ t d, g.MayCall s c t d → Tandem (g := g) (PairedOn rank c.input)
      (fun o w v => g.meaning t d = .ok o ∧ PairedOn rank c.input w v) (Work.Paired rank)
      (call depth t d) (call depth t d)) :
    Meet (fun o w v => g.meaning s c = .ok o ∧ PairedOn rank c.input w v) (Work.Paired rank)
      (call (depth + 1) s c w) (call (depth + 1) s c v) := by
  have hplain : v.Plain c.input := ⟨h.engine.plain, h.right⟩
  have hrun := call_succ_of_find?_none depth hend h.right (hplain.find? s c.size)
  rw [call_succ_of_find?_none depth hend h.left hfind]
  cases hshape : g.checked s with
  | error error =>
    simp only [hshape] at hrun
    rw [hrun]
    exact ((h.toPaired.lookingUp s c.size).building s).noting rfl rfl
  | ok shape =>
    simp only [hshape] at hrun
    have hentered : PairedOn rank c.input (w.entering s c.size) (v.entering s c.size) :=
      ⟨h.toPaired.entering s c.size, Work.entering_faithfulOn h.left s c.size,
        Work.entering_faithfulOn h.right s c.size⟩
    have hmeet := evaluate_tandem hshape
      (fun _ _ _ _ h => ⟨h.toPaired.noting rfl rfl, h.left, h.right⟩)
      (fun _ _ h => h.toPaired) hcall _ _ hentered
    rw [hrun]
    refine hmeet.concluding (fun o w' v' hv' ho => ?_) fun _ _ _ _ h => h.noting rfl rfl
    obtain ⟨ho, h'⟩ := ho
    have hmeant : g.meaning s c = .ok o := (Grammar.meaning_of_checked hend hshape).trans ho
    rw [hv'] at hrun
    have hrehearsed : Engine.Rehearsed g rank w'.engine.registry s c := by
      refine ⟨depth + 1, o, v, v'.settling s c.size o, hdepth, hplain, hrun, ?_⟩
      rw [h'.engine.registry_eq, Work.settling, Engine.registry_remember]
      exact List.Subset.refl _
    have hengine := h'.engine.remember h'.left.input_eq hrehearsed o
    exact ⟨hmeant, ⟨⟨hengine, h'.journal.cons rfl rfl⟩, h'.left.remember hmeant,
      h'.right.remember hmeant⟩⟩

theorem call_paired (hrank : g.Ranked rank) {depth : Nat} (hdepth : g.Allows rank depth s c) :
    Tandem (g := g) (PairedOn rank c.input)
      (fun o w v => g.meaning s c = .ok o ∧ PairedOn rank c.input w v) (Work.Paired rank)
      (call depth s c) (call depth s c) := by
  induction depth, s, c, hdepth using Grammar.Allows.induction hrank with
  | atEnd depth s c _ hend =>
    rw [call_atEnd depth s hend]
    exact fun w v h => ⟨rfl, Grammar.meaning_atEnd s hend, h⟩
  | nest depth s c hdepth hend ih =>
    intro w v h
    cases hfind : w.engine.find? s c.size with
    | some o =>
      obtain ⟨v', hv', hplain, hpaired⟩ := h.toPaired.replay hrank hdepth h.left h.right hfind
      rw [call_succ_of_find?_some depth hend h.left hfind, hv']
      exact ⟨rfl, h.left.find? hfind, hpaired, Work.lookingUp_faithfulOn h.left s c.size,
        hplain.faithfulOn⟩
    | none =>
      refine call_succ_paired hdepth hend h hfind fun t d hcall => ?_
      rw [← input_eq_of_le hcall.1]
      exact ih t d hcall

theorem parse_paired (hg : g.Ranked rank) (s : S) (c : Cursor) {w v : Work g}
    (h : Work.Paired rank w v) (hw : w.engine.Faithful) (hv : v.engine.Faithful) :
    Meet (fun _ => Work.Paired rank) (Work.Paired rank) (parse s c w) (parse s c v) := by
  cases hend : c.atEnd with
  | true =>
    rw [parse, call_atEnd _ s hend]
    exact ⟨rfl, h⟩
  | false =>
    rw [← parse_observing s hend w, ← parse_observing s hend v]
    have hmeet := call_paired hg (hg.allows s c) _ _
      ⟨h.observing c, Work.observing_faithfulOn hw c, Work.observing_faithfulOn hv c⟩
    exact hmeet.weaken fun _ _ _ h => h.2.toPaired

end Parser

namespace Engine

variable [DecidableEq S] {rank : S → Nat} {e e' : Engine g}

/-- Each call keeps the two engines in step. -/
theorem Paired.serve (h : Paired rank e e') (hrank : g.Ranked rank) (he : e.Faithful)
    (he' : e'.Faithful) (r : Request S) :
    Work.Paired rank ⟨(e.serve r).engine, (e.serve r).journal.reverse⟩
      ⟨(e'.serve r).engine, (e'.serve r).journal.reverse⟩ := by
  have hstart : Work.Paired rank { engine := e } { engine := e' } := ⟨h, ⟨rfl, le_rfl⟩⟩
  cases r with
  | one s c => exact (Parser.parse_paired hrank s c hstart he he').runOn
  | complete s c =>
    refine Parser.Meet.runOn ((Parser.parse_paired hrank s c hstart he he').bind
      fun o w v h => ?_)
    cases o with
    | none => exact h
    | some m =>
      simp only
      split
      · exact ⟨rfl, h⟩
      · exact h

theorem Paired.serveAll (h : Paired rank e e') (hrank : g.Ranked rank) (he : e.Faithful)
    (he' : e'.Faithful) (history : List (Request S)) :
    Paired rank (e.serveAll history) (e'.serveAll history) ∧
      Spares (e.journal history) (e'.journal history) := by
  induction history generalizing e e' with
  | nil => exact ⟨h, ⟨rfl, le_rfl⟩⟩
  | cons r rest ih =>
    obtain ⟨hengine, hjournal⟩ := h.serve hrank he he' r
    obtain ⟨hrest, hlater⟩ := ih hengine (he.serve r) (he'.serve r)
    exact ⟨hrest, hlater.append hjournal.of_reverse⟩

/-- Memoizing spares runs of matchers, and makes no difference to the declarations: after each
history, an engine with a table and one without know the same symbols, have reported the same
registrations and have built as many declarations. Either builds a valid one once, and an invalid
one once in each call that it puts an end to. -/
theorem memoize_spares (hg : g.LeftRecursionFree) (history : List (Request S)) :
    ((fresh g true).serveAll history).registry = ((fresh g false).serveAll history).registry ∧
    ((fresh g true).journal history).filterMap Event.registered? =
      ((fresh g false).journal history).filterMap Event.registered? ∧
    ((fresh g true).journal history).countP Event.isBuilt =
      ((fresh g false).journal history).countP Event.isBuilt ∧
    ((fresh g true).journal history).countP Event.isConsulted ≤
      ((fresh g false).journal history).countP Event.isConsulted ∧
    ∀ memoize,
      (∀ s, g.isValid s = true → BuiltOnce s ((fresh g memoize).journal history)) ∧
      ∀ r s flaw, (g.shape s).flaw? = some flaw →
        BuiltOnce s (((fresh g memoize).serveAll history).serve r).journal ∧
        (.built s ∈ (((fresh g memoize).serveAll history).serve r).journal →
          (((fresh g memoize).serveAll history).serve r).answer =
            .error (.failure (.declaration (g.name s) flaw))) := by
  obtain ⟨rank, hrank⟩ := hg.exists_ranked
  obtain ⟨hengine, hjournal⟩ := (Paired.fresh g rank).serveAll hrank (fresh_faithful g true)
    (fresh_faithful g false) history
  have henrolled := fun memoize => enrolled_serveAll hg memoize history
  refine ⟨hengine.registry_eq, ?_, hjournal.built_eq, hjournal.consulted_le, fun memoize => ⟨?_, ?_⟩⟩
  · have hon := (henrolled true).registry_eq
    have hoff := (henrolled false).registry_eq
    rw [List.filterMap_reverse] at hon hoff
    exact List.reverse_injective (hon.symm.trans (hengine.registry_eq.trans hoff))
  · intro s hs
    simpa using ((henrolled memoize).once s hs).reverse
  · intro r
    exact ((henrolled memoize).serve hg ((fresh_faithful g memoize).serveAll history) r).2

end Engine

namespace Schema

/-- A number, an alternation that has nothing to choose from, and a pair of the two. -/
def stub : Schema 3 := #v[
  ⟨"Number", .terminal .number⟩,
  ⟨"Stub", .alternation []⟩,
  ⟨"Pair", .sequence [.required "number" 0 0, .required "stub" 1 1] { takes := some [] }⟩]

theorem stub_leftRecursionFree : (grammar stub).LeftRecursionFree :=
  Grammar.leftRecursionFree_of_leading Fin.val (by decide)

def digits : Input := .ofTexts ["1", "2"]

/-- Two calls of the pair, each of which fails at the alternation. -/
def attempts : List (Request (Fin 3)) := [.one 2 digits.start, .one 2 digits.start]

/-- Of the four builds two are of the alternation. The number is read once with a table and twice
without; a third call builds the alternation once more. -/
theorem attempts_spared :
    ((Engine.fresh (grammar stub) true).journal attempts).countP Event.isBuilt = 4 ∧
    ((Engine.fresh (grammar stub) false).journal attempts).countP Event.isBuilt = 4 ∧
    ((Engine.fresh (grammar stub) true).journal attempts).countP Event.isConsulted = 1 ∧
    ((Engine.fresh (grammar stub) false).journal attempts).countP Event.isConsulted = 2 ∧
    BuiltOnce 0 ((Engine.fresh (grammar stub) true).journal attempts) ∧
    BuiltOnce 1 (((Engine.fresh (grammar stub) true).serveAll attempts).serve
      (.one 2 digits.start)).journal ∧
    (((Engine.fresh (grammar stub) true).serveAll attempts).serve (.one 2 digits.start)).answer =
      .error (.failure (.declaration "Stub" .noAlternatives)) := by
  obtain ⟨-, -, hbuilt, -, honce⟩ := Engine.memoize_spares stub_leftRecursionFree attempts
  obtain ⟨hvalid, hflawed⟩ := honce true
  obtain ⟨hstub, hanswer⟩ := hflawed (.one 2 digits.start) 1 .noAlternatives rfl
  have hfour : ((Engine.fresh (grammar stub) true).journal attempts).countP Event.isBuilt = 4 := by
    decide
  exact ⟨hfour, hbuilt ▸ hfour, by decide, by decide, hvalid 0 rfl, hstub, hanswer (by decide)⟩

end Schema

end Packrat
