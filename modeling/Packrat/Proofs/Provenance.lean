import Packrat.Proofs.Invariants
import Packrat.Proofs.ListFlags

/-!
Whom a parse error blames. Unless an assembler makes it, a parse error is raised by the label of a
component that is absent, and the token that it blames is the one where this component was
attempted, not one where something within the component has gone wrong. Every call around passes
the error on as it is. So along a run an error can be traced to an assembler that has refused or to
a label, and a component that can do without matches never has its label raised.
-/
namespace Packrat

variable {S : Type} {V : S → Type} {g : Grammar S V} {α : Type}

open Cursor Grammar

/-- The error that an assembler has made, if the event is that it refused. -/
def Event.refusal? : Event S → Option Error
  | assembled _ refusal => refusal
  | _ => none

/-- The errors that assemblers have made in the run. -/
def Run.refusals (r : Run g α) : List Error := r.journal.filterMap Event.refusal?

namespace Policy

/-- Whether the policy leaves it possible that a component is absent. -/
def mayMiss : Policy S → Bool
  | keyword _ => true
  | element _ .required => true
  | element _ .optional => false
  | element _ .oneOrMore => true
  | element _ .zeroOrMore => false
  | element _ (.delimited _ trailing empty) => !(trailing && empty)

end Policy

namespace Reader

variable {read : Reader V} {s : S} {c : Cursor}

/-- Reads as `read` does, but is cut short where that fails. -/
def muted (read : Reader V) : Reader V := fun s c =>
  match read s c with
  | .ok o => .ok o
  | .error _ => .error .leftRecursion

theorem muted_of_ok {o : Outcome (V s)} (h : read s c = .ok o) : read.muted s c = .ok o := by
  simp [muted, h]

theorem muted_ne_failure (read : Reader V) (s : S) (c : Cursor) (error : Error) :
    read.muted s c ≠ .error (.failure error) := by
  unfold muted
  cases read s c <;> simp

theorem muted_approximates (read : Reader V) (s : S) (c : Cursor) :
    Approximates (read.muted s c) (read s c) := by
  unfold muted
  cases read s c with
  | ok o => exact .refl _
  | error halt => exact Or.inl rfl

theorem Sound.muted (h : read.Sound g) : read.muted.Sound g := by
  intro s c m hm
  have happroximates := read.muted_approximates s c
  rw [hm] at happroximates
  exact h s c m happroximates.eq_ok

/-- A component is absent only where its policy allows for that. -/
theorem mayMiss_of_component {p : Policy S} (h : component read c p = .ok none) :
    p.mayMiss = true := by
  match p with
  | .keyword _ | .element _ .required | .element _ .oneOrMore => rfl
  | .element s .optional =>
    obtain ⟨o, -, h⟩ := bind_eq_ok_iff.mp h
    cases o <;> cases h
  | .element s .zeroOrMore =>
    obtain ⟨m, -, h⟩ := bind_eq_ok_iff.mp h
    simp only [Nat.not_lt_zero, if_false] at h
    cases h
  | .element s (.delimited delimiter trailing empty) =>
    obtain ⟨m, -, h⟩ := bind_eq_ok_iff.mp h
    cases hflags : trailing && empty with
    | true =>
      obtain ⟨rfl, rfl⟩ := Bool.and_eq_true_iff.mp hflags
      rw [Parser.Listing.accepted_of_allowed] at h
      cases h
    | false => rw [Policy.mayMiss, hflags, Bool.not_false]

theorem component_of_muted (hread : read.Sound g) {p : Policy S}
    {o : Outcome (p.slotType.Value V)} (h : component read.muted c p = .ok o) :
    component read c p = .ok o := by
  have happroximates := component_approximates (c := c) hread.muted
    (fun t d _ => read.muted_approximates t d) p
  rw [h] at happroximates
  exact happroximates.eq_ok

/-- Components whose calls are all answered fail at a label only, after those before it have
matched. -/
theorem label_of_components_muted (hread : read.Sound g) {ds : List (Component S)}
    {fields : Fields V} {error : Error}
    (h : components read.muted ds c fields = .error (.failure error)) :
    ∃ before d after label m, ds = before ++ d :: after ∧ d.label = some label ∧
      components read before c fields = .ok (some m) ∧
      component read m.rest d.policy = .ok none ∧ error = .parse label m.rest.first := by
  induction ds generalizing c fields with
  | nil => cases h
  | cons d rest ih =>
    rcases bind_eq_error_iff.mp h with h | ⟨o, ho, h⟩
    · obtain ⟨t, f, -, -, hfailed⟩ := component_error hread.muted h
      exact absurd hfailed (muted_ne_failure _ _ _ _)
    · replace ho := component_of_muted hread ho
      cases o with
      | some m =>
        obtain ⟨before, d', after, label, m', rfl, hlabel, hbefore, habsent, heq⟩ := ih h
        refine ⟨d :: before, d', after, label, m', rfl, hlabel, ?_, habsent, heq⟩
        exact bind_eq_ok_iff.mpr ⟨some m, ho, hbefore⟩
      | none =>
        cases hlabel : d.label with
        | some label =>
          simp only [hlabel] at h
          cases h
          exact ⟨[], d, rest, label, ⟨c, fields⟩, rfl, hlabel, rfl, ho, rfl⟩
        | none =>
          simp only [hlabel] at h
          cases h

end Reader

namespace Work

/-- In the run so far, `s` has been attempted at `c` or further on, as the sequence that it is. Its
first components match, and the next is absent and has the label that the error quotes. -/
inductive LabelFires (w : Work g) (s : S) (c : Cursor) : Error → Prop
  | intro {seq : Sequence V (V s)} {before after : List (Component S)} {d : Component S}
      {label : String} {start : Cursor} {m : Match (Fields V)}
      (hshape : g.shape s = .sequence seq)
      (hsplit : Component.byPriority seq.components = before ++ d :: after)
      (hlabel : d.label = some label) (hstart : c ≤ start)
      (hattempt : .sequence s start ∈ w.journal)
      (hbefore : Reader.components g.meaning before start (g.noFields s) = .ok (some m))
      (habsent : Reader.component g.meaning m.rest d.policy = .ok none) :
      LabelFires w s c (.parse label m.rest.first)

/-- The run has halted for `halt`. If that is a parse error, an assembler has made it, or the label
of a symbol that `s` leads to. -/
def Traced (s : S) (c : Cursor) (halt : Halt) (w : Work g) : Prop :=
  ∀ expectation token, halt = .failure (.parse expectation token) →
    (∃ t, .assembled t (some (.parse expectation token)) ∈ w.journal) ∨
      ∃ t, g.LeadsTo s t ∧ w.LabelFires t c (.parse expectation token)

namespace Traced

variable {s t : S} {c d : Cursor} {halt : Halt} {w : Work g}

theorem noting (h : w.Traced s c halt) (event : Event S) : (w.noting event).Traced s c halt := by
  intro expectation token heq
  rcases h expectation token heq with ⟨t, ht⟩ | ⟨t, hleads, hfires⟩
  · exact Or.inl ⟨t, List.mem_cons_of_mem _ ht⟩
  · cases hfires with
    | intro hshape hsplit hlabel hstart hattempt hbefore habsent =>
      exact Or.inr ⟨t, hleads, .intro hshape hsplit hlabel hstart
        (List.mem_cons_of_mem _ hattempt) hbefore habsent⟩

/-- What is traced from a call can be traced from where it is made. -/
theorem of_mentions (h : w.Traced t d halt) (hmentions : g.Mentions s t) (hd : c ≤ d) :
    w.Traced s c halt := by
  intro expectation token heq
  rcases h expectation token heq with hmade | ⟨u, hleads, hfires⟩
  · exact Or.inl hmade
  · cases hfires with
    | intro hshape hsplit hlabel hstart hattempt hbefore habsent =>
      exact Or.inr ⟨u, .head hmentions hleads, .intro hshape hsplit hlabel (hd.trans hstart)
        hattempt hbefore habsent⟩

theorem of_label {error : Error} (h : w.LabelFires s c error) :
    w.Traced s c (.failure error) := by
  intro expectation token heq
  cases heq
  exact Or.inr ⟨s, .refl, h⟩

theorem refused (s : S) (c : Cursor) (error : Error) (w : Work g) :
    (w.noting (.assembled s (some error))).Traced s c (.failure error) := by
  intro expectation token heq
  cases heq
  exact Or.inl ⟨s, List.mem_cons_self⟩

theorem cut (s : S) (c : Cursor) (w : Work g) : w.Traced s c .leftRecursion :=
  fun _ _ heq => nomatch heq

theorem invalid {error : Error} (h : g.checked t = .error error) (s : S) (c : Cursor)
    (w : Work g) : w.Traced s c (.failure error) := by
  obtain ⟨flaw, -, rfl⟩ := checked_eq_error_iff.mp h
  exact fun _ _ heq => nomatch heq

end Traced

/-- At work on the input, with no event of `past` forgotten. -/
structure Since [DecidableEq S] (input : Input) (past : List (Event S)) (w : Work g) : Prop where
  faithfulOn : w.engine.FaithfulOn input
  suffix : past <:+ w.journal

namespace Since

variable [DecidableEq S] {input : Input} {past : List (Event S)} {w : Work g} {s : S}

theorem noting (h : w.Since input past) (event : Event S) : (w.noting event).Since input past :=
  ⟨h.faithfulOn, h.suffix.trans (List.suffix_cons _ _)⟩

theorem lookingUp (h : w.Since input past) (s : S) (left : Nat) :
    (w.lookingUp s left).Since input past :=
  ⟨lookingUp_faithfulOn h.faithfulOn s left, h.suffix.trans (List.suffix_cons _ _)⟩

theorem entering (h : w.Since input past) (s : S) (left : Nat) :
    (w.entering s left).Since input past := by
  refine ⟨entering_faithfulOn h.faithfulOn s left, ?_⟩
  have hlooked := (h.lookingUp s left).suffix
  refine List.IsSuffix.trans ?_ (List.suffix_cons _ _)
  unfold registering
  split
  · exact hlooked
  · exact hlooked.trans ((List.suffix_cons _ _).trans (List.suffix_cons _ _))

theorem settling {c : Cursor} (h : w.Since c.input past) {o : Outcome (V s)}
    (ho : g.meaning s c = .ok o) : (w.settling s c.size o).Since c.input past :=
  ⟨h.faithfulOn.remember ho, h.suffix.trans (List.suffix_cons _ _)⟩

end Since

end Work

namespace Parser

/-- Up to an error of its own, a script has had all its calls answered, so the error is one of the
reading that is cut short where calls fail. -/
theorem Scripted.leads_muted {E : Event S → Prop} {C : S → Cursor → Prop} {base : Reader V}
    {p : Caller g → Parser g α} {r : Reader V → Except Halt α} {call : Caller g}
    {I : Work g → Prop} {F : Halt → Work g → Prop} (hp : Scripted E C base p r)
    (hnote : ∀ event w, I w → I (w.noting event))
    (hfail : ∀ error w, r base.muted = .error (.failure error) → I w → F (.failure error) w)
    (hcall : ∀ s c, C s c → Leads I (fun o w => base s c = .ok o ∧ I w) F (call s c)) :
    Leads I (fun a w => r base = .ok a ∧ I w) F (p call) := by
  induction hp with
  | pure a => exact fun w hw => ⟨rfl, hw⟩
  | fail error => exact fun w hw => hfail error w rfl hw
  | note _ _ ih => exact fun w hw => ih hfail _ (hnote _ w hw)
  | @call s c k f hcalled _ ih =>
    refine fun w hw => (hcall s c hcalled w hw).bind fun o w hw => ?_
    obtain ⟨ho, hw⟩ := hw
    simp only [ho]
    refine ih o ho (fun error w herror hw => hfail error w ?_ hw) w hw
    simp only [Reader.muted_of_ok ho]
    exact herror

variable [DecidableEq S] {call : Caller g} {s : S} {c : Cursor} {past : List (Event S)}

/-- At work on the input, a call of `s` finds what is meant, or its failure can be traced. -/
def Traceable (call : Caller g) (input : Input) (s : S) (c : Cursor) : Prop :=
  ∀ past, Leads (fun w => w.Since input past)
    (fun o w => g.meaning s c = .ok o ∧ w.Since input past)
    (fun halt w => w.Traced s c halt) (call s c)

/-- Matching a shape, given that the failures of its calls can be traced. -/
theorem leads_evaluate_traced {shape : Shape V (V s)} (hshape : g.checked s = .ok shape)
    (hcall : ∀ t d, g.Mentions s t → c ≤ d → Traceable call c.input t d) :
    Leads (fun w => w.Since c.input past)
      (fun o w => g.readShape g.meaning s c shape = .ok o ∧ w.Since c.input past)
      (fun halt w => w.Traced s c halt) (evaluate call s c shape) := by
  obtain ⟨-, rfl⟩ := checked_eq_ok_iff.mp hshape
  have hnote : ∀ (past : List (Event S)) event (w : Work g), w.Since c.input past →
      (w.noting event).Since c.input past := fun _ event _ hw => hw.noting event
  have hpassed : ∀ past t d, g.Mentions s t ∧ c ≤ d →
      Leads (fun w => w.Since c.input past)
        (fun o w => g.meaning t d = .ok o ∧ w.Since c.input past)
        (fun halt w => w.Traced s c halt) (call t d) := by
    intro past t d hcalled w hw
    obtain ⟨hmentions, hd⟩ := hcalled
    exact (hcall t d hmentions hd past w hw).weaken (fun _ _ h => h)
      fun _ _ h => h.of_mentions hmentions hd
  cases hdeclared : g.shape s with
  | terminal matcher =>
    intro w hw
    change Ends _ _ (terminal s matcher c w)
    rw [terminal_eq]
    split
    · exact ⟨rfl, hw⟩
    · exact ⟨rfl, hw.noting _⟩
  | alternation alternatives =>
    intro w hw
    have hscript := alternation_mentioned (E := fun _ => True) g.meaning (fun _ _ => trivial)
      hdeclared c
    refine hscript.leads_muted (hnote past) (fun error w herror _ => ?_) (hpassed past) _
      (hw.noting (.alternation s c))
    obtain ⟨a, -, hfailed⟩ := Reader.alternation_error herror
    exact absurd hfailed (Reader.muted_ne_failure _ _ _ _)
  | sequence seq =>
    have hscript := components_mentioned (E := fun _ => True) (fun _ _ => trivial)
      (meaning_sound g) hdeclared c (g.noFields s)
    intro w hw
    -- From here on, the attempt is part of what is not to be forgotten.
    have hattempted : Ends (fun _ u => u.Since c.input (.sequence s c :: w.journal))
        (fun halt u => u.Traced s c halt) ((note (.sequence s c) : Parser g Unit) w) :=
      ⟨hw.faithfulOn, List.suffix_refl _⟩
    refine hattempted.bind fun _ u hu => ?_
    have hcomponents := hscript.leads_muted (hnote _) (fun error w' herror hw' => ?_)
      (hpassed (.sequence s c :: w.journal)) u hu
    · refine hcomponents.bind fun o w' hw' => ?_
      obtain ⟨ho, hw'⟩ := hw'
      replace hw' : w'.Since c.input past :=
        ⟨hw'.faithfulOn, (hw.suffix.trans (List.suffix_cons _ _)).trans hw'.suffix⟩
      simp only [Grammar.readShape, ho, Shape.inOrder]
      cases o with
      | none => exact ⟨rfl, hw'⟩
      | some m =>
        change Ends (fun o' w => Reader.assemble seq.assemble m = .ok o' ∧ _) _
          (assemble s seq.assemble m w')
        unfold assemble Reader.assemble
        cases seq.assemble m.value with
        | ok value left => exact ⟨rfl, hw'.noting _⟩
        | error error left => exact .refused s c error w'
    · obtain ⟨before, d, after, label, m, hsplit, hlabel, hbefore, habsent, rfl⟩ :=
        Reader.label_of_components_muted (meaning_sound g) herror
      have hattempt : .sequence s c ∈ w'.journal := hw'.suffix.subset List.mem_cons_self
      exact .of_label (.intro hdeclared hsplit hlabel le_rfl hattempt hbefore habsent)

/-- The failure of a call can be traced, to whatever depth calls nest. -/
theorem call_traceable (g : Grammar S V) (depth : Nat) (s : S) (c : Cursor) :
    Traceable (g := g) (Parser.call depth) c.input s c := by
  induction depth generalizing s c with
  | zero =>
    intro past w hw
    cases hend : c.atEnd with
    | true =>
      rw [call_atEnd 0 s hend]
      exact ⟨meaning_atEnd s hend, hw⟩
    | false =>
      rw [Parser.call, if_neg (by simp [hend])]
      exact .cut s c w
  | succ depth ih =>
    intro past w hw
    cases hend : c.atEnd with
    | true =>
      rw [call_atEnd (depth + 1) s hend]
      exact ⟨meaning_atEnd s hend, hw⟩
    | false =>
      cases hfind : w.engine.find? s c.size with
      | some o =>
        rw [call_succ_of_find?_some depth hend hw.faithfulOn hfind]
        exact ⟨hw.faithfulOn.find? hfind, hw.lookingUp s c.size⟩
      | none =>
        rw [call_succ_of_find?_none depth hend hw.faithfulOn hfind]
        cases hshape : g.checked s with
        | error error => exact .invalid hshape s c _
        | ok shape =>
          have hmeaning := meaning_of_checked hend hshape
          have hcall : ∀ t d, g.Mentions s t → c ≤ d →
              Traceable (g := g) (Parser.call depth) c.input t d := by
            intro t d _ hd
            rw [← input_eq_of_le hd]
            exact ih t d
          have hends := leads_evaluate_traced hshape hcall (w.entering s c.size)
            (hw.entering s c.size)
          simp only
          cases hevaluate : evaluate (Parser.call depth) s c shape (w.entering s c.size) with
          | ok o w' =>
            rw [hevaluate] at hends
            obtain ⟨ho, hw'⟩ := hends
            have hmeant := hmeaning.trans ho
            exact ⟨hmeant, hw'.settling hmeant⟩
          | error halt w' =>
            rw [hevaluate] at hends
            exact Work.Traced.noting hends _

end Parser

namespace Engine

open Packrat.Parser

variable [DecidableEq S]

theorem Faithful.traced {e : Engine g} (he : e.Faithful) {s : S} {c : Cursor} {halt : Halt}
    (h : (e.parseOne s c).answer = .error halt) :
    Work.Traced (g := g) s c halt
      ⟨(e.parseOne s c).engine, (e.parseOne s c).journal.reverse⟩ := by
  have hcall : Leads (fun w : Work g => w.engine.FaithfulOn c.input ∧ True)
      (fun o w => g.meaning s c = .ok o ∧ w.engine.FaithfulOn c.input ∧ True)
      (fun halt w => w.Traced s c halt) (call (g.symbols.length * c.size) s c) := by
    intro w hw
    have hends := call_traceable g (g.symbols.length * c.size) s c [] w
      ⟨hw.1, List.nil_suffix⟩
    exact hends.weaken (fun o w h => ⟨h.1, h.2.faithfulOn, trivial⟩) fun _ _ h => h
  have hends := (ends_parse he trivial (fun _ _ => trivial) hcall).runOn
  rcases hends with ⟨o, ho, -⟩ | ⟨halt', hhalt, htraced⟩
  · have hclash := h.symm.trans ho
    cases hclash
  · obtain rfl : halt = halt' := Except.error.inj (h.symm.trans hhalt)
    exact htraced

/-- A parse error that no assembler has made in the run is the label of a component. Its sequence is
one that the symbol leads to and that the run has attempted. The components before it match up to
the place where it stands and is absent; so its policy is none of those that do without matches. The
token is the one at this place, or the end token of the whole input, wherever within the component
its match may have gone wrong. -/
theorem parseOne_error_of_label {e : Engine g} (he : e.Reachable) {s : S} {c : Cursor}
    {expectation : String} {token : Token}
    (h : (e.parseOne s c).answer = .error (.failure (.parse expectation token)))
    (hmade : .parse expectation token ∉ (e.parseOne s c).refusals) :
    ∃ (t : S) (seq : Sequence V (V t)) (before after : List (Component S)) (d : Component S)
      (j k : Nat),
      g.LeadsTo s t ∧ g.shape t = .sequence seq ∧
      Component.byPriority seq.components = before ++ d :: after ∧ d ∈ seq.components ∧
      d.label = some expectation ∧ j ≤ k ∧ k ≤ c.size ∧
      .sequence t (c.drop j) ∈ (e.parseOne s c).journal ∧
      token = (c.drop k).first ∧ (k = c.size → token = c.input.endToken) ∧
      (∀ depth, g.symbols.length * (c.drop j).size ≤ depth → ∀ w : Work g, w.engine.Faithful →
        (∃ fields, (components (call depth) t before (c.drop j) (g.noFields t)).answer w =
          .ok (some ⟨c.drop k, fields⟩)) ∧
        (component (call depth) (c.drop k) d.policy).answer w = .ok none) ∧
      d.policy.mayMiss = true := by
  have htraced := he.faithful.traced h expectation token rfl
  rcases htraced with ⟨t, ht⟩ | ⟨t, hleads, hfires⟩
  · have hmem : .parse expectation token ∈ (e.parseOne s c).refusals :=
      List.mem_filterMap.mpr ⟨_, List.mem_reverse.mp ht, rfl⟩
    exact absurd hmem hmade
  · cases hfires with
    | @intro seq before after d _ start m hshape hsplit hlabel hstart hattempt hbefore habsent =>
      obtain ⟨ws, hspells, -⟩ := Reader.components_sound (meaning_sound g) hbefore
      have hrest := hspells.le
      have hplace := hstart.trans hrest
      have hsize := size_le_of_le hrest
      have hj := eq_drop_of_le hstart
      have hk := eq_drop_of_le hplace
      refine ⟨t, seq, before, after, d, c.size - start.size, c.size - m.rest.size, hleads, hshape,
        hsplit, ?_, hlabel, by omega, Nat.sub_le _ _, ?_, ?_, ?_, ?_,
        Reader.mayMiss_of_component habsent⟩
      · apply (Component.byPriority_perm seq.components).mem_iff.mp
        rw [hsplit]
        simp
      · rw [← hj]
        exact List.mem_reverse.mp hattempt
      · rw [← hk]
      · intro hend
        have hnone : m.rest.size = 0 := by rw [hk, size_drop, hend, Nat.sub_self]
        rw [first_of_atEnd ((atEnd_iff m.rest).mpr hnone), input_eq_of_le hplace]
      · rw [← hj, ← hk]
        intro depth hdepth w hw
        have hdepth' := (Nat.mul_le_mul_left g.symbols.length hsize).trans hdepth
        refine ⟨⟨m.value, ?_⟩, ?_⟩
        · rw [answer_components hdepth hw, hbefore]
        · rw [answer_component hdepth' hw, habsent]

end Engine

namespace Sample

/-- A pair of a sum and another pair, whose second number should be a comma. -/
def mistyped : Input := .ofTexts ["x", ",", "1", "2"]

/-- The inner pair goes wrong at its second token, but has no label there. So it is absent where it
stands, and the label that it has as the second part of the outer pair blames its first token. An
engine that has been through this before says the same. -/
theorem mistyped_label :
    let run := ((Engine.fresh grammar true).serveAll
      [.complete .pairExprPair mistyped.start]).parseOne .pairExprPair mistyped.start
    let token : Token := ⟨"", some "1", 0, 0⟩
    ∃ (t : Symbol) (seq : Sequence Value (Value t)) (before after : List (Component Symbol))
      (d : Component Symbol) (j k : Nat),
      grammar.LeadsTo .pairExprPair t ∧ grammar.shape t = .sequence seq ∧
      Component.byPriority seq.components = before ++ d :: after ∧ d ∈ seq.components ∧
      d.label = some "expected second" ∧ j ≤ k ∧ k ≤ mistyped.start.size ∧
      .sequence t (mistyped.start.drop j) ∈ run.journal ∧
      token = (mistyped.start.drop k).first ∧
      (k = mistyped.start.size → token = mistyped.start.input.endToken) ∧
      (∀ depth, grammar.symbols.length * (mistyped.start.drop j).size ≤ depth →
        ∀ w : Work grammar, w.engine.Faithful →
          (∃ fields, (Parser.components (Parser.call depth) t before (mistyped.start.drop j)
            (grammar.noFields t)).answer w = .ok (some ⟨mistyped.start.drop k, fields⟩)) ∧
          (Parser.component (Parser.call depth) (mistyped.start.drop k) d.policy).answer w =
            .ok none) ∧
      d.policy.mayMiss = true := by
  have hfailed : (((Engine.fresh grammar true).serveAll
      [.complete .pairExprPair mistyped.start]).parseOne .pairExprPair mistyped.start).answer =
        .error (.failure (.parse "expected second" ⟨"", some "1", 0, 0⟩)) := rfl
  have hmade : (((Engine.fresh grammar true).serveAll
      [.complete .pairExprPair mistyped.start]).parseOne .pairExprPair mistyped.start).refusals =
        [] := rfl
  refine Engine.parseOne_error_of_label ⟨true, _, rfl⟩ hfailed ?_
  rw [hmade]
  exact List.not_mem_nil

end Sample

end Packrat
