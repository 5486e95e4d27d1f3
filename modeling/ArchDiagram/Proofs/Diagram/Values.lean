import ArchDiagram.Proofs.Diagram.Draft
import ArchDiagram.Proofs.Statement.Grammar

/-! What a list of properties or attributes amounts to. Each of them is set in turn, and so the last
one with a name decides, whether its value is well formed or not. -/
namespace ArchDiagram

/-- The value of the last property with one of these fields. -/
def lastProperty? (fields : List Field) (ps : List Property) : Option String :=
  (ps.reverse.find? fun p => p.field.value ∈ fields).map fun p => p.value.value

/-- The value of the last attribute with this name. -/
def lastAttribute? (name : String) (as : List Attribute) : Option String :=
  (as.reverse.find? fun a => a.name.value = name).map fun a => a.value.value

/-- The positive number that a property with this field gives. -/
def Property.dimension? (field : Field) (p : Property) : Option Binary64 :=
  if p.field.value = field then (Binary64.read? p.value.value).filter Binary64.isPositive else none

/-- The last positive number that a property with this field gives. -/
def lastDimension? (field : Field) (ps : List Property) : Option Binary64 :=
  (ps.filterMap (Property.dimension? field)).getLast?

lemma Logged.value_foldlM {σ α : Type} (f : σ → α → Logged σ) (s : σ) (as : List α) :
    (as.foldlM f s).value = as.foldl (fun s a => (f s a).value) s := by
  induction as generalizing s with
  | nil => rfl
  | cons a as ih => rw [List.foldlM_cons, Logged.value_bind, ih, List.foldl_cons]

/-- A part of a state that only some steps set has the value of the last of these. -/
lemma get_foldl {σ α β : Type} {f : σ → α → σ} {get : σ → β} {sets : α → Bool} {value : α → β}
    (h : ∀ s a, get (f s a) = if sets a then value a else get s) (s : σ) (as : List α) :
    get (as.foldl f s) = ((as.reverse.find? sets).map value).getD (get s) := by
  induction as using List.reverseRecOn with
  | nil => rfl
  | append_singleton as a ih =>
    rw [List.foldl_append, List.foldl_cons, List.foldl_nil, h, ih, List.reverse_append,
      List.reverse_singleton, List.singleton_append, List.find?_cons]
    cases sets a <;> simp

/-- The same for a part that is absent at first. -/
lemma get?_foldl {σ α β : Type} {f : σ → α → σ} {get : σ → Option β} {sets : α → Bool}
    {value : α → β} (h : ∀ s a, get (f s a) = if sets a then some (value a) else get s) {s : σ}
    (hs : get s = none) (as : List α) : get (as.foldl f s) = (as.reverse.find? sets).map value := by
  rw [get_foldl h s as, hs]
  cases as.reverse.find? sets <;> rfl

/-- The same for a part that some values leave as it is. -/
lemma getLast?_foldl {σ α β : Type} {f : σ → α → σ} {get : σ → β} {value? : α → Option β}
    (h : ∀ s a, get (f s a) = (value? a).getD (get s)) (s : σ) (as : List α) :
    get (as.foldl f s) = ((as.filterMap value?).getLast?).getD (get s) := by
  induction as using List.reverseRecOn with
  | nil => rfl
  | append_singleton as a ih =>
    rw [List.foldl_append, List.foldl_cons, List.foldl_nil, h, ih, List.filterMap_append]
    cases ha : value? a <;> simp [ha]

/-- A value that may be malformed falls back, and does not leave an earlier one. -/
lemma getD_bind_lastAttribute? {β : Type} (read? : String → Option β) (fallback : β) (name : String)
    (as : List Attribute) : ((lastAttribute? name as).bind read?).getD fallback =
      ((as.reverse.find? fun a => a.name.value = name).map fun a =>
        (read? a.value.value).getD fallback).getD fallback := by
  rw [lastAttribute?]
  cases as.reverse.find? fun a => a.name.value = name <;> rfl

lemma value_readNumber (name text : String) (fallback : Binary64) :
    (readNumber name text fallback).value = (Binary64.read? text).getD fallback := by
  rw [readNumber]
  cases Binary64.read? text <;> rfl

/-- A number that is not positive counts as malformed, and so does no number. -/
lemma value_readDimension (name text : String) (fallback : Binary64) :
    (readDimension name text fallback).value =
      ((Binary64.read? text).filter Binary64.isPositive).getD fallback := by
  rw [readDimension, Logged.value_bind, value_readNumber]
  cases hx : Binary64.read? text with
  | none => cases hf : fallback.isPositive <;> simp [hf, -bind_pure_comp]
  | some x => cases hp : x.isPositive <;> simp [hp, Option.filter, -bind_pure_comp]

namespace Traits

lemma label_read (t : Traits) (p : Property) : (t.read p).value.label =
    if p.field.value ∈ [Field.label] then some p.value.value else t.label := by
  simp only [read]
  cases p.field.value <;> rfl

lemma style_read (t : Traits) (p : Property) : (t.read p).value.style =
    if p.field.value ∈ [Field.type, .style] then some p.value.value else t.style := by
  simp only [read]
  cases p.field.value <;> rfl

lemma width_read (t : Traits) (p : Property) :
    (t.read p).value.size.width = (p.dimension? .width).getD t.size.width := by
  simp only [read, Property.dimension?]
  cases p.field.value with
  | width => exact value_readDimension "width" _ _
  | _ => rfl

lemma height_read (t : Traits) (p : Property) :
    (t.read p).value.size.height = (p.dimension? .height).getD t.size.height := by
  simp only [read, Property.dimension?]
  cases p.field.value with
  | height => exact value_readDimension "height" _ _
  | _ => rfl

theorem label_ofProperties (size : Size) (ps : List Property) :
    (ofProperties size ps).value.label = lastProperty? [.label] ps := by
  rw [ofProperties, Logged.value_foldlM]
  exact get?_foldl (fun t p => by simpa using label_read t p) rfl ps

theorem style_ofProperties (size : Size) (ps : List Property) :
    (ofProperties size ps).value.style = lastProperty? [.type, .style] ps := by
  rw [ofProperties, Logged.value_foldlM]
  exact get?_foldl (fun t p => by simpa using style_read t p) rfl ps

theorem width_ofProperties (size : Size) (ps : List Property) :
    (ofProperties size ps).value.size.width = (lastDimension? .width ps).getD size.width := by
  rw [ofProperties, Logged.value_foldlM]
  exact @getLast?_foldl _ _ _ _ (fun t : Traits => t.size.width) _ width_read _ ps

theorem height_ofProperties (size : Size) (ps : List Property) :
    (ofProperties size ps).value.size.height = (lastDimension? .height ps).getD size.height := by
  rw [ofProperties, Logged.value_foldlM]
  exact @getLast?_foldl _ _ _ _ (fun t : Traits => t.size.height) _ height_read _ ps

end Traits

/-- What an annotation of `target` with the properties `ps` says. -/
structure Note.SetBy (n : Note) (target : Id) (ps : List Property) (span : Span) : Prop where
  target : n.target = target
  tooltip : n.tooltip = lastProperty? [.tooltip] ps
  link : n.link = lastProperty? [.link] ps
  span : n.span = span

lemma Note.span_foldl_set (n : Note) (ps : List Property) : (ps.foldl Note.set n).span = n.span := by
  induction ps generalizing n with
  | nil => rfl
  | cons p ps ih =>
    rw [List.foldl_cons, ih, Note.set]
    cases p.field.value <;> rfl

theorem Note.setBy_foldl (target : Id) (ps : List Property) (span : Span) :
    (ps.foldl Note.set (.new target span)).SetBy target ps span where
  target := target_foldl_set _ ps
  tooltip := by
    refine get?_foldl ?_ rfl ps
    intro n p
    rw [Note.set]
    cases p.field.value <;> rfl
  link := by
    refine get?_foldl ?_ rfl ps
    intro n p
    rw [Note.set]
    cases p.field.value <;> rfl
  span := span_foldl_set _ ps

/-- The attributes of a style that have a field of their own. -/
def Style.reserved : List String :=
  ["icon", "color", "image", "shape"]

/-- What a style statement with the attributes `as` says. -/
structure Style.SetBy (s : Style) (name : Id) (as : List Attribute) : Prop where
  name : s.name = name
  icon : s.icon = lastAttribute? "icon" as
  color : s.color = (lastAttribute? "color" as).getD defaultColor
  image : s.image = lastAttribute? "image" as
  shape : s.shape = ((lastAttribute? "shape" as).bind Shape.ofName?).getD .rectangle
  property_keys : s.properties.keys =
    ((as.map fun a => a.name.value).filter fun x => x ∉ reserved).eraseDups
  property : ∀ x ∉ reserved, s.properties.get? x = lastAttribute? x as

namespace Style

/-- One more attribute, without what is reported. -/
lemma value_set (s : Style) (a : Attribute) : (s.set a).value =
    if a.name.value = "icon" then { s with icon := some a.value.value }
    else if a.name.value = "color" then { s with color := a.value.value }
    else if a.name.value = "image" then { s with image := some a.value.value }
    else if a.name.value = "shape" then
      { s with shape := (Shape.ofName? a.value.value).getD .rectangle }
    else { s with properties := s.properties.insert a.name.value a.value.value } := by
  simp only [Style.set]
  split_ifs
  · rfl
  · rfl
  · rfl
  · cases Shape.ofName? a.value.value <;> rfl
  · rfl

lemma properties_set (s : Style) (a : Attribute) : (s.set a).value.properties =
    if a.name.value ∈ reserved then s.properties
    else s.properties.insert a.name.value a.value.value := by
  rw [value_set]
  split_ifs <;> simp_all [reserved]

/-- The attributes without a field of their own are kept as they are written. -/
lemma properties_foldlM (name : Id) (as : List Attribute) :
    (as.foldlM Style.set (.new name)).value.properties =
      .ofPairs ((as.filter fun a => a.name.value ∉ reserved).map Attribute.pair) := by
  rw [Logged.value_foldlM]
  induction as using List.reverseRecOn with
  | nil => rfl
  | append_singleton as a ih =>
    rw [List.foldl_append, List.foldl_cons, List.foldl_nil, properties_set, ih, List.filter_append,
      List.map_append]
    by_cases ha : a.name.value ∈ reserved
    · simp [ha]
    · simp [ha, OrderedMap.ofPairs_append_singleton, Attribute.pair]

theorem setBy_foldlM (name : Id) (as : List Attribute) :
    (as.foldlM Style.set (.new name)).value.SetBy name as where
  name := name_foldlM_set _ as
  icon := by
    rw [Logged.value_foldlM]
    refine get?_foldl ?_ rfl as
    intro s a
    rw [value_set]
    split_ifs <;> simp_all
  color := by
    rw [Logged.value_foldlM]
    refine get_foldl ?_ (Style.new name) as
    intro s a
    rw [value_set]
    split_ifs <;> simp_all
  image := by
    rw [Logged.value_foldlM]
    refine get?_foldl ?_ rfl as
    intro s a
    rw [value_set]
    split_ifs <;> simp_all
  shape := by
    rw [Logged.value_foldlM, getD_bind_lastAttribute?]
    refine get_foldl ?_ (Style.new name) as
    intro s a
    rw [value_set]
    split_ifs <;> simp_all
  property_keys := by
    rw [properties_foldlM, OrderedMap.keys_ofPairs, List.map_map, List.filter_map]
    rfl
  property := by
    intro x hx
    rw [properties_foldlM, OrderedMap.get?_ofPairs, lastAttribute?, ← List.map_reverse,
      ← List.filter_reverse, List.find?_map, List.find?_filter, Option.map_map]
    have hsame : ∀ a : Attribute,
        (decide (a.name.value ∉ reserved) = true ∧ decide (a.pair.1 = x) = true) ↔
          a.name.value = x := by
      intro a
      by_cases ha : a.name.value = x
      · simp [Attribute.pair, ha, hx]
      · simp [Attribute.pair, ha]
    simp only [Function.comp_def, hsame]
    rfl

end Style

/-- What a layout statement with the attributes `as` says. -/
structure Layout.SetBy (l : Layout) (as : List Attribute) : Prop where
  direction : l.direction =
    ((lastAttribute? "direction" as).bind Direction.ofName?).getD .topToBottom
  ranksep : l.ranksep = ((lastAttribute? "ranksep" as).bind Binary64.read?).getD defaultRanksep
  nodesep : l.nodesep = ((lastAttribute? "nodesep" as).bind Binary64.read?).getD defaultNodesep

namespace Layout

lemma value_set (l : Layout) (a : Attribute) : (l.set a).value =
    if a.name.value = "direction" then
      { l with direction := (Direction.ofName? a.value.value).getD .topToBottom }
    else if a.name.value = "ranksep" then
      { l with ranksep := (Binary64.read? a.value.value).getD defaultRanksep }
    else if a.name.value = "nodesep" then
      { l with nodesep := (Binary64.read? a.value.value).getD defaultNodesep }
    else l := by
  simp only [Layout.set]
  split_ifs
  · cases Direction.ofName? a.value.value <;> rfl
  · rw [Logged.value_bind, value_readNumber]
    rfl
  · rw [Logged.value_bind, value_readNumber]
    rfl
  · rfl

theorem setBy_foldlM (as : List Attribute) :
    (as.foldlM Layout.set .default).value.SetBy as where
  direction := by
    rw [Logged.value_foldlM, getD_bind_lastAttribute?]
    refine get_foldl ?_ Layout.default as
    intro l a
    rw [value_set]
    split_ifs <;> simp_all
  ranksep := by
    rw [Logged.value_foldlM, getD_bind_lastAttribute?]
    refine get_foldl ?_ Layout.default as
    intro l a
    rw [value_set]
    split_ifs <;> simp_all
  nodesep := by
    rw [Logged.value_foldlM, getD_bind_lastAttribute?]
    refine get_foldl ?_ Layout.default as
    intro l a
    rw [value_set]
    split_ifs <;> simp_all

end Layout

end ArchDiagram
