import Packrat.Parser.Matching

/-!
Components whose elements are not typed. An engine that does not know the types of the values it
is handed keeps each of them in a box with its type, and opens the boxes of a row again to put
their values together. It finds what it would find with the types known: the boxes of an element
all come from one symbol, so none is ever opened as something else.
-/
namespace Packrat

variable {S : Type} {V W : S → Type} {g : Grammar S V} {α β : Type} {s : S}

/-- All that is known of the symbol that a component takes: a way to match it, and ways to put what
is matched together for a slot. -/
structure Element (g : Grammar S V) where
  symbol : S
  parse : Cursor → Parser g (Outcome (Slot V))
  collect : List (Slot V) → Except Error (Slot V)
  wrap : Option (Slot V) → Except Error (Slot V)

namespace Element

def box (value : V s) : Slot V := ⟨.one s, value⟩

/-- Opens a box that should hold a value of `s`. -/
def unbox [DecidableEq S] (g : Grammar S V) (s : S) (x : Slot V) : Except Error (V s) :=
  match x.as? (.one s) with
  | some value => .ok value
  | none => .error (.declaration (g.name s) .wrongElement)

def of [DecidableEq S] (call : Caller g) (s : S) : Element g where
  symbol := s
  parse c := Option.map (Match.map box) <$> call s c
  collect xs := do
    let values ← xs.mapM (unbox g s)
    pure ⟨.many s, values⟩
  wrap x := do
    let value ← x.mapM (unbox g s)
    pure ⟨.maybe s, value⟩

/-- Puts together what was matched. -/
def finish (assemble : α → Except Error (Slot V)) : Outcome α → Parser g (Outcome (Slot V))
  | none => pure none
  | some m =>
    match assemble m.value with
    | .ok x => pure (some ⟨m.rest, x⟩)
    | .error error => Parser.fail error

/-- Matches so many elements. -/
def take (e : Element g) (c : Cursor) : Quantity → Parser g (Outcome (Slot V))
  | .required => e.parse c
  | .optional => Parser.optional (fun _ => e.parse) e.symbol c >>= finish e.wrap
  | .oneOrMore => Parser.repetition (fun _ => e.parse) e.symbol 1 c >>= finish e.collect
  | .zeroOrMore => Parser.repetition (fun _ => e.parse) e.symbol 0 c >>= finish e.collect
  | .delimited delimiter trailing empty =>
    Parser.delimited (fun _ => e.parse) e.symbol delimiter trailing empty c >>= finish e.collect

/-- Matches what the policy of the component of `slot` asks for, with the element to take if the
component has one. -/
def component (slot : String) (element : Option (Element g)) (c : Cursor) :
    Policy Unit → Parser g (Outcome (Slot V))
  | .keyword literal => pure ((Parser.keyword literal c).map (Match.map (Slot.mk .word)))
  | .element _ quantity =>
    match element with
    | some e => e.take c quantity
    | none => Parser.fail (.declaration slot .noElement)

section Boxes

variable [DecidableEq S]

theorem unbox_box (g : Grammar S V) (value : V s) : unbox g s (box value) = .ok value := by
  have hopen : (box value).as? (.one s) = some value := Slot.as?_mk (.one s) value
  rw [unbox, hopen]

/-- Boxes of values of a symbol can all be opened as such. -/
theorem mapM_unbox (g : Grammar S V) (values : List (V s)) :
    (values.map box).mapM (unbox g s) = .ok values := by
  induction values with
  | nil => rfl
  | cons value rest ih =>
    rw [List.map_cons, List.mapM_cons, unbox_box, ih]
    rfl

theorem collect_of (call : Caller g) (values : List (V s)) :
    (of call s).collect (values.map box) = .ok ⟨.many s, values⟩ := by
  simp only [of, mapM_unbox]
  rfl

theorem wrap_of (call : Caller g) (value : Option (V s)) :
    (of call s).wrap (value.map box) = .ok ⟨.maybe s, value⟩ := by
  cases value with
  | none => rfl
  | some value =>
    simp only [of, Option.map_some, Option.mapM_some, unbox_box]
    rfl

end Boxes

end Element

namespace Parser

section Values

variable {call : CallerOf g V} {call' : CallerOf g W} {f : V s → W s}
  (h : ∀ c, call' s c = Option.map (Match.map f) <$> call s c)
include h

theorem optional_map (c : Cursor) :
    optional call' s c = Option.map (Match.map (Option.map f)) <$> optional call s c := by
  simp only [optional, h, bind_map_left, map_bind]
  refine bind_congr fun o => ?_
  cases o with
  | none => rfl
  | some m => rfl

/-- What the values are does not matter to where a row ends. -/
theorem items_map (budget : Nat) (c : Cursor) :
    items call' s budget c = Match.map (List.map f) <$> items call s budget c := by
  induction budget generalizing c with
  | zero => rfl
  | succ budget ih =>
    simp only [items, h, bind_map_left, map_bind]
    refine bind_congr fun o => ?_
    cases o with
    | none => rfl
    | some m =>
      by_cases hstall : m.rest.size = c.size
      · simp only [Option.map_some, Match.rest_map, hstall, if_true]
        rfl
      · simp only [Option.map_some, Match.rest_map, hstall, if_false, ih, bind_map_left, map_bind]
        rfl

theorem repetition_map (least : Nat) (c : Cursor) :
    repetition call' s least c =
      Option.map (Match.map (List.map f)) <$> repetition call s least c := by
  simp only [repetition, items_map h, bind_map_left, map_bind]
  refine bind_congr fun m => ?_
  simp only [Match.value_map, List.length_map]
  refine bind_congr fun _ => ?_
  by_cases hfew : m.value.length < least
  · simp only [hfew, if_true]
    rfl
  · simp only [hfew, if_false]
    rfl

theorem listing_map (delimiter : Literal) (budget : Nat) (c : Cursor) :
    listing call' s delimiter budget c =
      Match.map (Listing.map f) <$> listing call s delimiter budget c := by
  induction budget generalizing c with
  | zero => rfl
  | succ budget ih =>
    simp only [listing, h, bind_map_left, map_bind]
    refine bind_congr fun o => ?_
    cases o with
    | none => rfl
    | some m =>
      by_cases hbegins : m.rest.begins delimiter.text = true
      · simp only [Option.map_some, Match.rest_map, hbegins, if_true, ih, bind_map_left, map_bind]
        rfl
      · simp only [Option.map_some, Match.rest_map, hbegins]
        rfl

theorem delimited_map (delimiter : Literal) (trailing empty : Bool) (c : Cursor) :
    delimited call' s delimiter trailing empty c =
      Option.map (Match.map (List.map f)) <$> delimited call s delimiter trailing empty c := by
  simp only [delimited, listing_map h, bind_map_left, map_bind]
  refine bind_congr fun m => ?_
  have haccepted : (m.value.map f).accepted trailing empty = m.value.accepted trailing empty := by
    simp only [Listing.accepted, Listing.map, List.isEmpty_map]
  simp only [Match.value_map, haccepted]
  by_cases hm : m.value.accepted trailing empty = true
  · simp only [hm, if_true, Listing.map, List.length_map, map_bind]
    rfl
  · simp only [hm]
    rfl

end Values

/-- What is put together without fail may be put together after the match. -/
theorem finish_map {p : Parser g (Outcome α)} {p' : Parser g (Outcome β)} {f : α → β}
    {assemble : β → Except Error (Slot V)} {box : α → Slot V}
    (hp : p' = Option.map (Match.map f) <$> p) (h : ∀ a, assemble (f a) = .ok (box a)) :
    p' >>= Element.finish assemble = Option.map (Match.map box) <$> p := by
  rw [hp, bind_map_left, map_eq_pure_bind]
  refine bind_congr fun o => ?_
  cases o with
  | none => rfl
  | some m =>
    simp only [Option.map_some, Element.finish, Match.value_map, h]
    rfl

variable [DecidableEq S]

/-- Through boxes a component finds what it finds with the types known, in a box of the type that
its policy fixes. So no box is opened as what it does not hold, and no element is missing. -/
theorem component_of (call : Caller g) (slot : String) (c : Cursor) (p : Policy S) :
    Element.component slot (p.symbol?.map (Element.of call)) c (p.map fun _ => ()) =
      Option.map (Match.map (Slot.mk p.slotType)) <$> component call c p := by
  cases p with
  | keyword literal => rfl
  | element s quantity =>
    have hparse : ∀ c, (fun _ => (Element.of call s).parse : CallerOf g fun _ => Slot V) s c =
        Option.map (Match.map Element.box) <$> call s c := fun _ => rfl
    cases quantity with
    | required => rfl
    | optional => exact finish_map (optional_map hparse c) (Element.wrap_of call)
    | oneOrMore => exact finish_map (repetition_map hparse 1 c) (Element.collect_of call)
    | zeroOrMore => exact finish_map (repetition_map hparse 0 c) (Element.collect_of call)
    | delimited delimiter trailing empty =>
      exact finish_map (delimited_map hparse delimiter trailing empty c) (Element.collect_of call)

/-- So the components of a sequence may as well be matched through boxes, and the boxes be put into
their slots as they are. -/
theorem components_cons (call : Caller g) (s : S) (d : Component S) (rest : List (Component S))
    (c : Cursor) (fields : Fields V) :
    components call s (d :: rest) c fields = (do
      match ← Element.component d.slot (d.policy.symbol?.map (Element.of call)) c
          (d.policy.map fun _ => ()) with
      | some m => components call s rest m.rest (fields.insert d.slot m.value)
      | none =>
        match d.label with
        | some label => fail (.parse label c.first)
        | none => do
          note (.missed s d.slot)
          pure none) := by
  rw [component_of, components, bind_map_left]
  refine bind_congr fun o => ?_
  cases o with
  | none => rfl
  | some m => rfl

end Parser

end Packrat
