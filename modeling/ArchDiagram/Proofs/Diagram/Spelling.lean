import ArchDiagram.Proofs.Diagram.Dimensions
import ArchDiagram.Proofs.Nesting.Forest
import ArchDiagram.Proofs.Statement.Spelling

/-! How diagrams are spelled. What a diagram refers to is a name in one of the statements, also
where the maps and the lists of children repeat it; and what it shows is a value that fits between
quotes. Only the further properties of a style can hold a value that does not. -/
namespace ArchDiagram
open Text

/-- The texts of a part of a diagram: names, what is shown, and what is kept as it is written. -/
structure Wording where
  ids : List Id
  captions : List String
  values : List String

/-- Names are proper, every text keeps to one line, and what is shown fits between quotes. -/
structure Wording.Spelled (w : Wording) : Prop where
  names : ∀ x ∈ w.ids, ProperName x
  one_line : ∀ s ∈ w.ids ++ w.captions ++ w.values, '\n' ∉ s.toList
  unquoted : ∀ s ∈ w.captions, '"' ∉ s.toList

lemma Wording.spelled_of {w : Wording} (hids : ∀ x ∈ w.ids, ProperName x)
    (hcaptions : ∀ s ∈ w.captions, Caption s) (hvalues : ∀ s ∈ w.values, OneLine s) :
    w.Spelled where
  names := hids
  one_line := by
    simp only [List.forall_mem_append]
    exact ⟨⟨fun x hx => (hids x hx).caption.one_line, fun s hs => (hcaptions s hs).one_line⟩,
      hvalues⟩
  unquoted s hs := (hcaptions s hs).unquoted

def Entity.wording (e : Entity) : Wording :=
  ⟨e.id :: (e.parent.toList ++ e.style.toList), [e.label], []⟩

def Style.wording (s : Style) : Wording :=
  ⟨s.name :: s.properties.keys, s.color :: (s.icon.toList ++ s.image.toList), s.properties.values⟩

def Relation.wording (r : Relation) : Wording :=
  ⟨[r.source, r.target], r.label.toList, []⟩

def Note.wording (n : Note) : Wording :=
  ⟨[n.target], n.tooltip.toList ++ n.link.toList, []⟩

namespace Diagram

/-- The names that the maps and the containers list. -/
def listed (d : Diagram) : Wording :=
  ⟨d.components.keys ++ d.containers.keys ++ d.styles.keys ++ d.notes.keys ++
    d.containers.values.flatMap Container.children, [], []⟩

/-- All texts of a diagram, part by part. -/
def wording (d : Diagram) : List Wording :=
  d.listed :: (((d.entities .component).values ++ (d.entities .container).values).map
    Entity.wording ++ d.styles.values.map Style.wording ++ d.relations.map Relation.wording ++
    d.notes.values.map Note.wording)

end Diagram

lemma FieldSpelled.properName {f : Field} {text : String} (h : FieldSpelled f text)
    (hf : f = .type ∨ f = .style) : ProperName text := by
  rwa [FieldSpelled, if_pos hf] at h

lemma FieldSpelled.caption {f : Field} {text : String} (h : FieldSpelled f text)
    (hf : f ∈ [.label, .tooltip, .link]) : Caption text := by
  simp only [List.mem_cons, List.not_mem_nil, or_false] at hf
  obtain rfl | rfl | rfl := hf
  all_goals exact ValueSpelled.caption h (by decide)

lemma spelled_of_lastProperty? {fields : List Field} {ps : List Property} {text : String}
    (h : lastProperty? fields ps = some text) (hps : PropertiesSpelled (ps.map Property.pair)) :
    ∃ f ∈ fields, FieldSpelled f text := by
  obtain ⟨p, hp, rfl⟩ := Option.map_eq_some_iff.mp h
  have hmem : p ∈ ps := List.mem_reverse.mp (List.mem_of_find?_eq_some hp)
  refine ⟨p.field.value, by simpa using List.find?_some hp, ?_⟩
  exact hps p.pair (List.mem_map_of_mem hmem)

lemma spelled_of_lastAttribute? {name text : String} {as : List Attribute}
    (h : lastAttribute? name as = some text) (has : AttributesSpelled (as.map Attribute.pair)) :
    ValueSpelled name text := by
  obtain ⟨a, ha, rfl⟩ := Option.map_eq_some_iff.mp h
  have hmem : a ∈ as := List.mem_reverse.mp (List.mem_of_find?_eq_some ha)
  obtain rfl : a.name.value = name := by simpa using List.find?_some ha
  exact (has a.pair (List.mem_map_of_mem hmem)).2

lemma caption_of_lastProperty? {f : Field} {ps : List Property} {text : String}
    (h : lastProperty? [f] ps = some text) (hps : PropertiesSpelled (ps.map Property.pair))
    (hf : f ∈ [.label, .tooltip, .link]) : Caption text := by
  obtain ⟨g, hg, hspelled⟩ := spelled_of_lastProperty? h hps
  obtain rfl := List.mem_singleton.mp hg
  exact hspelled.caption hf

lemma Entity.DeclaredBy.spelled {kind : EntityKind} {x : Id} {o : Occurrence} {e : Entity}
    (h : e.DeclaredBy kind x o) (hx : ProperName x)
    (hps : PropertiesSpelled (o.statement.properties.map Property.pair))
    (hparent : ∀ p ∈ e.parent, ProperName p) : e.wording.Spelled := by
  refine Wording.spelled_of ?_ ?_ (List.forall_mem_nil _)
  · simp only [wording, List.forall_mem_cons, List.forall_mem_append, Option.mem_toList]
    refine ⟨h.id ▸ hx, hparent, ?_⟩
    intro n hn
    rw [h.style] at hn
    obtain ⟨f, hf, hspelled⟩ := spelled_of_lastProperty? hn hps
    exact hspelled.properName (by simpa using hf)
  · rw [wording, List.forall_mem_singleton, h.label]
    cases hlabel : lastProperty? [.label] o.statement.properties with
    | none => exact hx.caption -- an entity without a label shows its id
    | some text => exact caption_of_lastProperty? hlabel hps (by simp)

lemma Style.SetBy.spelled {name : Id} {as : List Attribute} {s : Style} (h : s.SetBy name as)
    (hname : ProperName name) (has : AttributesSpelled (as.map Attribute.pair)) :
    s.wording.Spelled := by
  refine Wording.spelled_of ?_ ?_ ?_
  · rw [wording, List.forall_mem_cons]
    refine ⟨h.name ▸ hname, ?_⟩
    intro x hx
    rw [h.property_keys, List.mem_eraseDups, List.mem_filter] at hx
    obtain ⟨a, ha, rfl⟩ := List.mem_map.mp hx.1
    exact (has a.pair (List.mem_map_of_mem ha)).1
  · simp only [wording, List.forall_mem_cons, List.forall_mem_append, Option.mem_toList]
    refine ⟨?_, ?_, ?_⟩
    · rw [h.color]
      cases hcolor : lastAttribute? "color" as with
      | none => exact ⟨by decide, by decide⟩
      | some text => exact (spelled_of_lastAttribute? hcolor has).caption (by decide)
    · intro text htext
      rw [h.icon] at htext
      exact (spelled_of_lastAttribute? htext has).caption (by decide)
    · intro text htext
      rw [h.image] at htext
      exact (spelled_of_lastAttribute? htext has).caption (by decide)
  · -- A further property may be called like a number, so its value is only known to be one line.
    intro text htext
    obtain ⟨x, hx⟩ := OrderedMap.mem_values_iff.mp htext
    have hkey := OrderedMap.mem_keys_iff.mpr ⟨text, hx⟩
    rw [h.property_keys, List.mem_eraseDups, List.mem_filter] at hkey
    rw [h.property x (of_decide_eq_true hkey.2)] at hx
    exact (spelled_of_lastAttribute? hx has).one_line

lemma Note.SetBy.spelled {target : Id} {ps : List Property} {span : Span} {n : Note}
    (h : n.SetBy target ps span) (htarget : ProperName target)
    (hps : PropertiesSpelled (ps.map Property.pair)) : n.wording.Spelled := by
  refine Wording.spelled_of ?_ ?_ (List.forall_mem_nil _)
  · rw [wording, List.forall_mem_singleton, h.target]
    exact htarget
  · simp only [wording, List.forall_mem_append, Option.mem_toList]
    refine ⟨?_, ?_⟩
    · intro text htext
      rw [h.tooltip] at htext
      exact caption_of_lastProperty? htext hps (by simp)
    · intro text htext
      rw [h.link] at htext
      exact caption_of_lastProperty? htext hps (by simp)

namespace Occurrence

variable {o : Occurrence} (h : o.statement.phrase.Spelled) {x : Id}

include h

lemma spelled_of_entityId? {kind : EntityKind} (hx : o.entityId? kind = some x) :
    ProperName x ∧ PropertiesSpelled (o.statement.properties.map Property.pair) := by
  obtain ⟨opened, s⟩ := o
  cases kind <;> cases s <;> cases hx
  all_goals exact h

lemma spelled_of_styleName? (hx : o.styleName? = some x) :
    ProperName x ∧ AttributesSpelled (o.statement.attributes.map Attribute.pair) := by
  obtain ⟨opened, s⟩ := o
  cases opened <;> cases s <;> cases hx
  exact h

lemma spelled_of_noteTarget? (hx : o.noteTarget? = some x) :
    ProperName x ∧ PropertiesSpelled (o.statement.properties.map Property.pair) := by
  obtain ⟨opened, s⟩ := o
  cases opened <;> cases s <;> cases hx
  exact h

lemma spelled_of_relation? {r : Relation} (hr : o.relation? = some r) : r.wording.Spelled := by
  obtain ⟨opened, s⟩ := o
  cases opened <;> cases s <;> cases hr
  obtain ⟨hsource, htarget, hlabel⟩ := h
  refine Wording.spelled_of ?_ ?_ (List.forall_mem_nil _)
  · simpa [Relation.wording] using ⟨hsource, htarget⟩
  · simpa [Relation.wording] using hlabel

end Occurrence

namespace Diagram

namespace Reflects

variable {d : Diagram} {es : List Declaration} (h : d.Reflects es)

include h

lemma last?_entity {kind : EntityKind} {x : Id} {e : Entity}
    (he : (d.entities kind).get? x = some e) :
    Declaration.last? kind x es = some (e.declaration kind) := by
  cases kind with
  | component =>
    rw [entities, OrderedMap.get?_map] at he
    obtain ⟨c, hc, rfl⟩ := Option.map_eq_some_iff.mp he
    exact h.last?_component hc
  | container =>
    rw [entities, OrderedMap.get?_map] at he
    obtain ⟨c, hc, rfl⟩ := Option.map_eq_some_iff.mp he
    exact h.last?_container hc

lemma parent_mem (hw : Declaration.WellNested [] es) {kind : EntityKind} {x p : Id} {e : Entity}
    (he : (d.entities kind).get? x = some e) (hp : e.parent = some p) : p ∈ d.containers.keys := by
  have hlast := h.last?_entity he
  exact h.mem_containers_iff.mpr (hw.parent_declared _ (Declaration.last?_eq_some hlast).1 p hp)

/-- A listed child is an entity. -/
lemma child_mem {c : Id} {k : Container} (hk : d.containers.get? c = some k) {x : Id}
    (hx : x ∈ k.children) : ∃ kind, x ∈ (d.entities kind).keys := by
  obtain ⟨e, he, -⟩ := h.exists_child hk hx
  simp only [entitiesNamed, List.mem_append, Option.mem_toList, ← OrderedMap.get?_map] at he
  obtain he | he := he
  · exact ⟨.component, OrderedMap.mem_keys_iff.mpr ⟨e, he⟩⟩
  · exact ⟨.container, OrderedMap.mem_keys_iff.mpr ⟨e, he⟩⟩

end Reflects

section

variable {d : Diagram} {os : List Occurrence} (h : d.DeclaredBy os)
  (hos : ∀ o ∈ os, o.statement.phrase.Spelled)

include h hos

lemma properName_of_mem_entities {kind : EntityKind} {x : Id} (hx : x ∈ (d.entities kind).keys) :
    ProperName x := by
  obtain ⟨o, ho, hkey⟩ := (h.entities kind).of_mem_keys hx
  exact (Occurrence.spelled_of_entityId? (hos o ho) hkey).1

lemma spelled_listed {es : List Declaration} (hr : d.Reflects es) : d.listed.Spelled := by
  have hentities (kind : EntityKind) : ∀ x ∈ (d.entities kind).keys, ProperName x :=
    fun x => properName_of_mem_entities h hos
  refine Wording.spelled_of ?_ (List.forall_mem_nil _) (List.forall_mem_nil _)
  simp only [listed, List.forall_mem_append]
  refine ⟨⟨⟨⟨?_, ?_⟩, ?_⟩, ?_⟩, ?_⟩
  · simpa [entities] using hentities .component
  · simpa [entities] using hentities .container
  · intro x hx
    obtain ⟨o, ho, hkey⟩ := h.styles.of_mem_keys hx
    exact (Occurrence.spelled_of_styleName? (hos o ho) hkey).1
  · intro x hx
    obtain ⟨o, ho, hkey⟩ := h.notes.of_mem_keys hx
    exact (Occurrence.spelled_of_noteTarget? (hos o ho) hkey).1
  · intro x hx
    obtain ⟨k, hk, hx⟩ := List.mem_flatMap.mp hx
    obtain ⟨c, hc⟩ := OrderedMap.mem_values_iff.mp hk
    obtain ⟨kind, hmem⟩ := hr.child_mem hc hx
    exact hentities kind x hmem

lemma spelled_entity {es : List Declaration} (hr : d.Reflects es)
    (hw : Declaration.WellNested [] es) {kind : EntityKind} {x : Id} {e : Entity}
    (he : (d.entities kind).get? x = some e) : e.wording.Spelled := by
  obtain ⟨o, ho, hkey, hmade⟩ := (h.entities kind).of_get? he
  obtain ⟨hx, hps⟩ := Occurrence.spelled_of_entityId? (hos o ho) hkey
  refine hmade.spelled hx hps ?_
  intro p hp
  have hmem : p ∈ (d.entities .container).keys := by
    simpa [entities] using hr.parent_mem hw he hp
  exact properName_of_mem_entities h hos hmem

end

/-- In the diagram of a source every name is a proper one, no text goes on over the end of a line,
and nothing that is shown has a quote in it. -/
theorem parse_spelled {source : String} {d : Diagram} (h : (parse source).outcome = .ok d) :
    ∀ w ∈ d.wording, w.Spelled := by
  obtain ⟨hreflects, hnested⟩ := parse_reflects h
  obtain ⟨ss, hss, built, hbuilt, rfl⟩ := parse_eq_ok_iff.mp h
  have hos := parseStatements_spelled hss
  have hdeclared := Draft.declaredBy_placeAll hbuilt
  have hentities (kind : EntityKind) : ∀ e ∈ (built.toDiagram.entities kind).values,
      e.wording.Spelled := by
    intro e he
    obtain ⟨x, hx⟩ := OrderedMap.mem_values_iff.mp he
    exact spelled_entity hdeclared hos hreflects hnested hx
  simp only [wording, List.forall_mem_cons, List.forall_mem_append, List.forall_mem_map]
  refine ⟨spelled_listed hdeclared hos hreflects,
    ⟨⟨⟨hentities .component, hentities .container⟩, ?_⟩, ?_⟩, ?_⟩
  · intro s hs
    obtain ⟨x, hx⟩ := OrderedMap.mem_values_iff.mp hs
    obtain ⟨o, ho, hkey, hset⟩ := hdeclared.styles.of_get? hx
    obtain ⟨hname, has⟩ := Occurrence.spelled_of_styleName? (hos o ho) hkey
    exact hset.spelled hname has
  · intro r hr
    rw [hdeclared.relations] at hr
    obtain ⟨o, ho, hrelation⟩ := List.mem_filterMap.mp hr
    exact Occurrence.spelled_of_relation? (hos o ho) hrelation
  · intro n hn
    obtain ⟨x, hx⟩ := OrderedMap.mem_values_iff.mp hn
    obtain ⟨o, ho, hkey, hset⟩ := hdeclared.notes.of_get? hx
    obtain ⟨htarget, hps⟩ := Occurrence.spelled_of_noteTarget? (hos o ho) hkey
    exact hset.spelled htarget hps

/-- The width of the style is a quote that is left open. -/
def quotingSource : String :=
  "style s icon = \"a b\" width = \"
component x.1 \x7b label \"two words\" type s \x7d
container _k \x7b component x.1 \x7b label color \x7d \x7d
annotation x.1 \x7b tooltip #A0b1C2 link \"//\" \x7d
relation x.1 -> _k : \"\""

theorem spelled_of_quoting : ∃ d, (parse quotingSource).outcome = .ok d ∧
    d.components.keys = ["x.1"] ∧ (d.components.values.map fun c => c.label) = ["color"] ∧
    (d.styles.values.map fun s => (s.icon, s.properties.entries)) =
      [(some "a b", [("width", "\"")])] ∧ ∀ w ∈ d.wording, w.Spelled := by
  have hrun : (parse quotingSource).outcome.toOption.any (fun d =>
      d.components.keys = ["x.1"] ∧ (d.components.values.map fun c => c.label) = ["color"] ∧
      (d.styles.values.map fun s => (s.icon, s.properties.entries)) =
        [(some "a b", [("width", "\"")])]) = true := by
    decide +kernel
  obtain ⟨d, hd, hvalues⟩ := Attempt.exists_eq_ok hrun
  obtain ⟨hkeys, hlabels, hstyles⟩ := of_decide_eq_true hvalues
  exact ⟨d, hd, hkeys, hlabels, hstyles, parse_spelled hd⟩

end Diagram

end ArchDiagram
