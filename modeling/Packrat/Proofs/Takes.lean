import Packrat.Proofs.Conduct
import Packrat.Proofs.Priority

/-!
What assemblers find in their slots. Components that have all matched leave one value for each slot
that was declared, of the type that the policy of its component fixes. A take empties its slot
whether or not it succeeds. So what a take comes to depends on the declaration and on the slots
named before, and an assembler that respects both never meets an error of a take.
-/
namespace Packrat

variable {S : Type} {V : S → Type} {g : Grammar S V} {α : Type}

namespace Fields

variable {f : Fields V} {slot other : String} {type : SlotType S} {x : Slot V}

/-- The slots that hold a value. -/
def names (f : Fields V) : List String := f.slots.map Prod.fst

theorem names_insert (h : slot ∉ f.names) (x : Slot V) :
    (f.insert slot x).names = slot :: f.names := by
  have hkept : (f.erase slot).slots = f.slots := by
    refine List.filter_eq_self.mpr fun entry hentry => ?_
    rw [bne_iff_ne]
    rintro rfl
    exact h (List.mem_map_of_mem hentry)
  simp [insert, names, hkept]

section Takes

variable [DecidableEq S]

/-- What comes of a take, and the fields that it leaves. -/
def takeOne (f : Fields V) (slot : String) (type : SlotType S) :
    Except Error (Slot V) × Fields V :=
  match take slot type f with
  | .ok value left => (.ok ⟨type, value⟩, left)
  | .error error left => (.error error, left)

/-- The fields that takes leave, whatever comes of them. -/
def afterTakes (f : Fields V) (takes : List (String × SlotType S)) : Fields V :=
  takes.foldl (fun f t => (f.takeOne t.1 t.2).2) f

/-- What comes of takes made one after another, going on after those that fail. -/
def takeEach (f : Fields V) : List (String × SlotType S) → List (Except Error (Slot V))
  | [] => []
  | t :: rest => (f.takeOne t.1 t.2).1 :: (f.takeOne t.1 t.2).2.takeEach rest

theorem takeOne_of_none (h : f.get? slot = none) (type : SlotType S) :
    f.takeOne slot type = (.error (.declaration f.owner (.unfilledSlot slot)), f) := by
  simp [takeOne, take, h]

theorem takeOne_of_some (h : f.get? slot = some x) :
    f.takeOne slot x.type = (.ok x, f.erase slot) := by
  simp [takeOne, take, h]

theorem takeOne_of_ne (h : f.get? slot = some x) (hne : x.type ≠ type) :
    f.takeOne slot type =
      (.error (.declaration f.owner (.wrongType slot (Name.unqualified (type.name f.typeName)))),
        f.erase slot) := by
  simp [takeOne, take, h, Slot.as?_of_ne hne]

/-- All that a take does is to empty its slot. -/
theorem takeOne_leaves (f : Fields V) (slot : String) (type : SlotType S) :
    (f.takeOne slot type).2.owner = f.owner ∧
      (f.takeOne slot type).2.typeName = f.typeName ∧
      ∀ other, (f.takeOne slot type).2.get? other = if other = slot then none else f.get? other := by
  have herased : ∀ other, (f.erase slot).get? other =
      if other = slot then none else f.get? other := by
    intro other
    split
    · rename_i heq
      rw [heq, get?_erase_self]
    · rename_i hne
      exact get?_erase_ne f hne
  cases hget : f.get? slot with
  | none =>
    rw [takeOne_of_none hget]
    refine ⟨rfl, rfl, fun other => ?_⟩
    split
    · rename_i heq
      rw [heq, hget]
    · rfl
  | some x =>
    by_cases htype : x.type = type
    · subst htype
      rw [takeOne_of_some hget]
      exact ⟨rfl, rfl, herased⟩
    · rw [takeOne_of_ne hget htype]
      exact ⟨rfl, rfl, herased⟩

theorem takeOne_eq_ok_iff :
    (f.takeOne slot type).1 = .ok x ↔ x.type = type ∧ f.get? slot = some x := by
  cases hget : f.get? slot with
  | none => simp [takeOne_of_none hget]
  | some y =>
    by_cases htype : y.type = type
    · subst htype
      rw [takeOne_of_some hget]
      constructor
      · rintro ⟨⟩
        exact ⟨rfl, rfl⟩
      · rintro ⟨-, ⟨⟩⟩
        rfl
    · rw [takeOne_of_ne hget htype]
      constructor
      · rintro ⟨⟩
      · rintro ⟨hx, ⟨⟩⟩
        exact (htype hx).elim

theorem takeOne_unfilled_iff :
    (f.takeOne slot type).1 = .error (.declaration f.owner (.unfilledSlot slot)) ↔
      f.get? slot = none := by
  cases hget : f.get? slot with
  | none => simp [takeOne_of_none hget]
  | some x =>
    by_cases htype : x.type = type
    · subst htype
      simp [takeOne_of_some hget]
    · simp [takeOne_of_ne hget htype]

theorem takeOne_wrongType_iff :
    (f.takeOne slot type).1 =
        .error (.declaration f.owner (.wrongType slot (Name.unqualified (type.name f.typeName)))) ↔
      ∃ x, f.get? slot = some x ∧ x.type ≠ type := by
  cases hget : f.get? slot with
  | none => simp [takeOne_of_none hget]
  | some x =>
    by_cases htype : x.type = type
    · subst htype
      simp [takeOne_of_some hget]
    · simp [takeOne_of_ne hget htype, htype]

/-- After some takes the slots that they named are empty, and the others as before. -/
theorem afterTakes_leaves (f : Fields V) (takes : List (String × SlotType S)) :
    (f.afterTakes takes).owner = f.owner ∧ (f.afterTakes takes).typeName = f.typeName ∧
      ∀ slot, (f.afterTakes takes).get? slot =
        if slot ∈ takes.map Prod.fst then none else f.get? slot := by
  induction takes generalizing f with
  | nil => exact ⟨rfl, rfl, fun slot => by simp [afterTakes]⟩
  | cons t rest ih =>
    obtain ⟨howner, htypeName, hget⟩ := f.takeOne_leaves t.1 t.2
    obtain ⟨howner', htypeName', hget'⟩ := ih (f.takeOne t.1 t.2).2
    refine ⟨howner'.trans howner, htypeName'.trans htypeName, fun slot => ?_⟩
    change ((f.takeOne t.1 t.2).2.afterTakes rest).get? slot = _
    rw [hget', hget]
    by_cases hrest : slot ∈ rest.map Prod.fst
    · simp [hrest]
    · simp only [hrest, if_false, List.map_cons, List.mem_cons, or_false]

/-- Each take finds the fields as those before it have left them. -/
theorem takeEach_getElem? (f : Fields V) (takes : List (String × SlotType S)) (i : Nat) :
    (f.takeEach takes)[i]? =
      (takes[i]?).map fun t => ((f.afterTakes (takes.take i)).takeOne t.1 t.2).1 := by
  induction takes generalizing f i with
  | nil => rfl
  | cons t rest ih =>
    cases i with
    | zero => rfl
    | succ i => exact ih (f.takeOne t.1 t.2).2 i

/-- The result of a take among others depends on the slots named before it, and on what its slot
held at first. -/
theorem takeEach_iff {takes : List (String × SlotType S)} {i : Nat}
    (htake : takes[i]? = some (slot, type)) :
    let result := (f.takeEach takes)[i]?
    let named := slot ∈ (takes.take i).map Prod.fst
    (∀ x, result = some (.ok x) ↔ ¬ named ∧ x.type = type ∧ f.get? slot = some x) ∧
    (result = some (.error (.declaration f.owner (.unfilledSlot slot))) ↔
      named ∨ f.get? slot = none) ∧
    (result = some (.error (.declaration f.owner
        (.wrongType slot (Name.unqualified (type.name f.typeName))))) ↔
      ¬ named ∧ ∃ x, f.get? slot = some x ∧ x.type ≠ type) := by
  intro result named
  obtain ⟨howner, htypeName, hleft⟩ := f.afterTakes_leaves (takes.take i)
  have hresult : result = some ((f.afterTakes (takes.take i)).takeOne slot type).1 := by
    simp only [result, takeEach_getElem?, htake, Option.map_some]
  have hget : (f.afterTakes (takes.take i)).get? slot = if named then none else f.get? slot :=
    hleft slot
  rw [hresult, ← howner, ← htypeName]
  simp only [Option.some.injEq, takeOne_eq_ok_iff, takeOne_unfilled_iff, takeOne_wrongType_iff, hget]
  by_cases hnamed : named
  · simp [hnamed]
  · simp [hnamed]

end Takes

end Fields

/-- An assembler that takes slots of the components `ds` only, each at most once and at the type of
its component. Slots of `taken` it takes no more. It may refuse with an error of `own`. -/
inductive Careful [DecidableEq S] (ds : List (Component S)) (own : Error → Prop) :
    List String → Assembler V α → Prop
  | build (taken : List String) (value : α) : Careful ds own taken (pure value)
  | refuse (taken : List String) {error : Error} (herror : own error) :
      Careful ds own taken (throw error)
  | take {taken : List String} {d : Component S}
      {k : d.policy.slotType.Value V → Assembler V α} (hd : d ∈ ds) (hnew : d.slot ∉ taken)
      (hk : ∀ v, Careful ds own (d.slot :: taken) (k v)) :
      Careful ds own taken (Fields.take d.slot d.policy.slotType >>= k)

/-- Where the slots not taken yet are filled as declared, a careful assembler makes no errors but
its own. -/
theorem Careful.own_of_error [DecidableEq S] {ds : List (Component S)} {own : Error → Prop}
    {taken : List String} {assembler : Assembler V α} (h : Careful ds own taken assembler)
    {f : Fields V}
    (hf : ∀ d ∈ ds, d.slot ∉ taken → ∃ v, f.get? d.slot = some ⟨d.policy.slotType, v⟩)
    {error : Error} {left : Fields V} (herror : assembler f = .error error left) : own error := by
  induction h generalizing f with
  | build taken value => cases herror
  | refuse taken hown =>
    cases herror
    exact hown
  | @take taken d k hd hnew _ ih =>
    obtain ⟨v, hv⟩ := hf d hd hnew
    have htake : Fields.take d.slot d.policy.slotType f = .ok v (f.erase d.slot) := by
      simp [Fields.take, hv]
    have hnext : k v (f.erase d.slot) = .error error left := by
      simpa [bind, EStateM.bind, htake] using herror
    refine ih v (fun e he hfresh => ?_) hnext
    rw [List.mem_cons, not_or] at hfresh
    rw [Fields.get?_erase_ne f hfresh.1]
    exact hf e he hfresh.2

namespace Parser

section Components

variable {call : Caller g} {s : S} {d : Component S} {ds : List (Component S)} {c : Cursor}
  {start f : Fields V} {w w' : Work g} {m : Match (Fields V)}

/-- The slots of the components `ds`, each filled with the match of its component. -/
structure Fills (call : Caller g) (ds : List (Component S)) (start f : Fields V) : Prop where
  owner_eq : f.owner = start.owner
  typeName_eq : f.typeName = start.typeName
  names_perm : f.names.Perm (ds.map Component.slot ++ start.names)
  filled : ∀ d ∈ ds, ∃ (at_ : Cursor) (u u' : Work g) (found : Match (d.policy.slotType.Value V)),
    component call at_ d.policy u = .ok (some found) u' ∧
      f.get? d.slot = some ⟨d.policy.slotType, found.value⟩
  others : ∀ slot, slot ∉ ds.map Component.slot → f.get? slot = start.get? slot

/-- Components all match just if the first does, and then the others. -/
theorem components_cons_found (h : components call s (d :: ds) c start w = .ok (some m) w') :
    ∃ found u, component call c d.policy w = .ok (some found) u ∧
      components call s ds found.rest (start.insert d.slot ⟨_, found.value⟩) u =
        .ok (some m) w' := by
  rw [components] at h
  simp only [bind, EStateM.bind] at h
  cases hfirst : component call c d.policy w with
  | error halt u =>
    rw [hfirst] at h
    cases h
  | ok o u =>
    rw [hfirst] at h
    cases o with
    | some found => exact ⟨found, u, rfl, h⟩
    | none => cases hlabel : d.label <;> simp only [hlabel] at h <;> cases h

/-- Components with different slots fill them all, and no slot loses what was put into it. -/
theorem components_fill (h : components call s ds c start w = .ok (some m) w')
    (hslots : (ds.map Component.slot).Nodup)
    (hnew : ∀ slot ∈ ds.map Component.slot, slot ∉ start.names) :
    Fills call ds start m.value := by
  induction ds generalizing c start w with
  | nil =>
    cases h
    exact ⟨rfl, rfl, List.Perm.refl _, by simp, fun _ _ => rfl⟩
  | cons d rest ih =>
    rw [List.map_cons, List.nodup_cons] at hslots
    rw [List.map_cons, List.forall_mem_cons] at hnew
    obtain ⟨found, u, hfirst, hrest⟩ := components_cons_found h
    have hnames := Fields.names_insert hnew.1 (⟨_, found.value⟩ : Slot V)
    have hfresh : ∀ slot ∈ rest.map Component.slot,
        slot ∉ (start.insert d.slot ⟨_, found.value⟩).names := by
      intro slot hslot hmem
      rw [hnames, List.mem_cons] at hmem
      rcases hmem with rfl | hmem
      · exact hslots.1 hslot
      · exact hnew.2 slot hslot hmem
    have hfills := ih hrest hslots.2 hfresh
    refine ⟨hfills.owner_eq, hfills.typeName_eq, ?_, ?_, ?_⟩
    · have hperm := hfills.names_perm
      rw [hnames] at hperm
      exact hperm.trans List.perm_middle
    · refine List.forall_mem_cons.mpr ⟨⟨c, w, u, found, hfirst, ?_⟩, hfills.filled⟩
      rw [hfills.others d.slot hslots.1, Fields.get?_insert_self]
    · intro slot hslot
      rw [List.map_cons, List.mem_cons, not_or] at hslot
      rw [hfills.others slot hslot.2, Fields.get?_insert_ne start hslot.1]

theorem Fills.get?_eq_none_iff (h : Fills call ds start f) {slot : String}
    (hstart : start.get? slot = none) :
    f.get? slot = none ↔ ∀ d ∈ ds, d.slot ≠ slot := by
  constructor
  · rintro hnone d hd rfl
    obtain ⟨_, _, _, found, -, hfilled⟩ := h.filled d hd
    rw [hnone] at hfilled
    cases hfilled
  · intro hother
    rw [h.others slot, hstart]
    intro hmem
    obtain ⟨d, hd, hslot⟩ := List.mem_map.mp hmem
    exact hother d hd hslot

/-- A slot that is filled holds what a component of this slot has matched. -/
theorem Fills.exists_of_get? (h : Fills call ds start f) {slot : String}
    (hstart : start.get? slot = none) {x : Slot V} (hx : f.get? slot = some x) :
    ∃ d ∈ ds, d.slot = slot ∧ x.type = d.policy.slotType := by
  by_contra hnone
  have hother : ∀ d ∈ ds, d.slot ≠ slot := by
    rintro d hd rfl
    obtain ⟨_, _, _, found, -, hfilled⟩ := h.filled d hd
    rw [hfilled] at hx
    cases hx
    exact hnone ⟨d, hd, rfl, rfl⟩
  rw [(h.get?_eq_none_iff hstart).mpr hother] at hx
  cases hx

end Components

variable [DecidableEq S]

/-- If all components of a valid sequence match, its assembler is handed one value for each slot,
found by the component of the slot and of the type that its policy fixes. Of the takes that it
makes then, whatever comes of the others, one succeeds just if it names a declared slot for the
first time and asks for its type; otherwise it meets with an unfilled slot if the slot is not
declared or was named before, and else with a wrong type. So an assembler that takes declared slots
only, each once at most and as what it holds, makes no errors but its own. -/
theorem sequence_fills {s : S} {seq : Sequence V (V s)} (hshape : g.shape s = .sequence seq)
    (hvalid : g.isValid s = true) {call : Caller g} {c : Cursor} {w w' : Work g}
    {m : Match (Fields V)}
    (hall : components call s (Component.byPriority seq.components) c (g.noFields s)
      (w.noting (.sequence s c)) = .ok (some m) w') :
    (∃ shape, g.checked s = .ok shape ∧
      evaluate call s c shape w = assemble s seq.assemble m w') ∧
    m.value.names.Perm (seq.components.map Component.slot) ∧
    (∀ d ∈ seq.components,
      ∃ (at_ : Cursor) (u u' : Work g) (found : Match (d.policy.slotType.Value V)),
        component call at_ d.policy u = .ok (some found) u' ∧
          m.value.get? d.slot = some ⟨d.policy.slotType, found.value⟩) ∧
    (∀ (takes : List (String × SlotType S)) (i : Nat) (slot : String) (type : SlotType S),
      takes[i]? = some (slot, type) →
      let result := (m.value.takeEach takes)[i]?
      let named := slot ∈ (takes.take i).map Prod.fst
      ((∃ x, result = some (.ok x)) ↔
        ∃ d ∈ seq.components, d.slot = slot ∧ d.policy.slotType = type ∧ ¬ named) ∧
      (∀ x, result = some (.ok x) → x.type = type ∧ m.value.get? slot = some x) ∧
      (result = some (.error (.declaration (g.name s) (.unfilledSlot slot))) ↔
        (∀ d ∈ seq.components, d.slot ≠ slot) ∨ named) ∧
      (result = some (.error (.declaration (g.name s)
          (.wrongType slot (Name.unqualified (type.name g.typeName))))) ↔
        ∃ d ∈ seq.components, d.slot = slot ∧ d.policy.slotType ≠ type ∧ ¬ named)) ∧
    ∀ own, Careful seq.components own [] seq.assemble →
      ∀ error left, seq.assemble m.value = .error error left → own error := by
  have hperm := Component.byPriority_perm seq.components
  have hflaw : Component.flaw? seq.components = none := by
    simpa [Grammar.isValid, hshape, Shape.flaw?] using hvalid
  obtain ⟨-, -, hnodup⟩ := Component.flaw?_eq_none_iff.mp hflaw
  have hfills := components_fill hall ((hperm.map Component.slot).nodup_iff.mpr hnodup)
    fun _ _ => List.not_mem_nil
  have hempty : ∀ slot, (g.noFields s).get? slot = none := fun _ => rfl
  have hfilled : ∀ d ∈ seq.components,
      ∃ (at_ : Cursor) (u u' : Work g) (found : Match (d.policy.slotType.Value V)),
        component call at_ d.policy u = .ok (some found) u' ∧
          m.value.get? d.slot = some ⟨d.policy.slotType, found.value⟩ :=
    fun d hd => hfills.filled d (hperm.mem_iff.mpr hd)
  refine ⟨⟨_, Grammar.checked_eq_ok_iff.mpr ⟨hvalid, rfl⟩, ?_⟩, ?_, hfilled, ?_, ?_⟩
  · have hnote : (note (.sequence s c) : Parser g Unit) w = .ok () (w.noting (.sequence s c)) := rfl
    change components call s (Component.byPriority seq.components) c
      ⟨g.name s, g.typeName, []⟩ (w.noting (.sequence s c)) = _ at hall
    rw [hshape, Shape.inOrder, evaluate]
    simp only [bind, EStateM.bind, hnote, hall]
  · have hnames := hfills.names_perm
    rw [show (g.noFields s).names = [] from rfl, List.append_nil] at hnames
    exact hnames.trans (hperm.map Component.slot)
  · intro takes i slot type htake result named
    obtain ⟨hok, hunfilled, hwrong⟩ := m.value.takeEach_iff htake
    rw [hfills.owner_eq] at hunfilled
    rw [hfills.owner_eq, hfills.typeName_eq] at hwrong
    refine ⟨⟨?_, ?_⟩, fun x hx => ((hok x).mp hx).2, ?_, hwrong.trans ⟨?_, ?_⟩⟩
    · rintro ⟨x, hx⟩
      obtain ⟨hnew, htype, hget⟩ := (hok x).mp hx
      obtain ⟨d, hd, hslot, hheld⟩ := hfills.exists_of_get? (hempty slot) hget
      exact ⟨d, hperm.mem_iff.mp hd, hslot, hheld.symm.trans htype, hnew⟩
    · rintro ⟨d, hd, rfl, rfl, hnew⟩
      obtain ⟨_, _, _, found, -, hget⟩ := hfilled d hd
      exact ⟨_, (hok _).mpr ⟨hnew, rfl, hget⟩⟩
    · refine hunfilled.trans (or_comm.trans (or_congr_left ?_))
      rw [hfills.get?_eq_none_iff (hempty slot)]
      exact forall_congr' fun d => imp_congr hperm.mem_iff Iff.rfl
    · rintro ⟨hnew, x, hget, htype⟩
      obtain ⟨d, hd, hslot, hheld⟩ := hfills.exists_of_get? (hempty slot) hget
      exact ⟨d, hperm.mem_iff.mp hd, hslot, hheld ▸ htype, hnew⟩
    · rintro ⟨d, hd, rfl, htype, hnew⟩
      obtain ⟨_, _, _, found, -, hget⟩ := hfilled d hd
      exact ⟨hnew, _, hget, htype⟩
  · intro own hcareful error left herror
    refine hcareful.own_of_error (fun d hd _ => ?_) herror
    obtain ⟨_, _, _, found, -, hget⟩ := hfilled d hd
    exact ⟨found.value, hget⟩

end Parser

namespace Sample

/-- A number and an identifier. -/
def couple : Input := .ofTexts ["1", ",", "a"]

/-- The sequence that a pair of the two is declared as. -/
def coupleSequence : Sequence Value (Number × Identifier) where
  components := [.required "a" 0 .num, .keyword "comma" 1 ",",
    (Component.required "b" 2 .ident).labeled "expected second"]
  assemble := do
    let x ← take "a" (.one .num)
    let y ← take "b" (.one .ident)
    pure (x, y)

theorem coupleSequence_careful :
    Careful coupleSequence.components (fun _ => False) [] coupleSequence.assemble := by
  refine .take (d := .required "a" 0 Symbol.num) (by decide) (by decide) fun x => ?_
  refine .take (d := (Component.required "b" 2 Symbol.ident).labeled "expected second") (by decide)
    (by decide) fun y => ?_
  exact .build _ (x, y)

/-- The pair is read into three slots. Of four takes the second names a slot for the second time and
the third asks a keyword for a list, and the first and the last succeed all the same. The assembler
of the pair, which asks for both of its parts and not for the comma, makes no error. -/
theorem couple_fills :
    let w : Work grammar := { engine := Engine.fresh grammar true }
    let takes : List (String × SlotType Symbol) :=
      [("b", .one .ident), ("b", .one .ident), ("comma", .many .num), ("a", .one .num)]
    let fails (flaw : Flaw) : Option (Except Error (Slot Value)) :=
      some (.error (.declaration "Pair<Num, Ident>" flaw))
    ∃ m w',
      Parser.components (Parser.call 10) .pairNumIdent
        (Component.byPriority coupleSequence.components) couple.start
        (grammar.noFields .pairNumIdent) (w.noting (.sequence .pairNumIdent couple.start)) =
          .ok (some m) w' ∧
      m.value.names.Perm ["a", "comma", "b"] ∧
      (∃ x, (m.value.takeEach takes)[0]? = some (.ok x)) ∧
      (m.value.takeEach takes)[1]? = fails (.unfilledSlot "b") ∧
      (m.value.takeEach takes)[2]? = fails (.wrongType "comma" "Vec<Num>") ∧
      (∃ x, (m.value.takeEach takes)[3]? = some (.ok x)) ∧
      ∀ error left, coupleSequence.assemble m.value ≠ .error error left := by
  intro w takes fails
  have hall : ∃ m w', Parser.components (Parser.call 10) Symbol.pairNumIdent
      (Component.byPriority coupleSequence.components) couple.start
      (grammar.noFields .pairNumIdent) (w.noting (.sequence .pairNumIdent couple.start)) =
        .ok (some m) w' := ⟨_, _, rfl⟩
  obtain ⟨m, w', hall⟩ := hall
  have hshape : grammar.shape .pairNumIdent = .sequence coupleSequence := rfl
  obtain ⟨-, hnames, -, htakes, howns⟩ := Parser.sequence_fills hshape rfl hall
  refine ⟨m, w', hall, hnames, (htakes takes 0 _ _ rfl).1.mpr ?_,
    (htakes takes 1 _ _ rfl).2.2.1.mpr (Or.inr (by decide)),
    (htakes takes 2 _ _ rfl).2.2.2.mpr ?_, (htakes takes 3 _ _ rfl).1.mpr ?_,
    fun error left herror => howns _ coupleSequence_careful error left herror⟩
  · exact ⟨(Component.required "b" 2 .ident).labeled "expected second", by decide, rfl, rfl,
      by decide⟩
  · exact ⟨.keyword "comma" 1 ",", by decide, rfl, by decide, by decide⟩
  · exact ⟨.required "a" 0 .num, by decide, rfl, rfl, by decide⟩

end Sample

end Packrat
