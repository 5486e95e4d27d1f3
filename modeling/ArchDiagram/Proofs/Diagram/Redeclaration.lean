import ArchDiagram.Proofs.Diagram.Values
import ArchDiagram.Proofs.Nesting.Reflection
import ArchDiagram.Proofs.Statement.Order

/-! Repeated declarations. Entities, styles, annotations and the layout are what their last
statements say, and of the earlier ones only the order of the names is left; relations are
repeated as often as they are written. Only entities count inside containers. -/
namespace ArchDiagram

namespace Statement

def properties : Statement → List Property
  | .component _ _ ps | .container _ _ ps _ | .note _ _ ps => ps
  | _ => []

def attributes : Statement → List Attribute
  | .layout _ as | .style _ _ as => as
  | _ => []

end Statement

namespace Occurrence

/-- The id of the entity of this kind that the statement declares. -/
def entityId? (kind : EntityKind) (o : Occurrence) : Option Id :=
  match kind, o.statement with
  | .component, .component _ id _ => some id.value
  | .container, .container _ id _ _ => some id.value
  | _, _ => none

/-- The name of the style that the statement declares at top level. -/
def styleName? : Occurrence → Option Id
  | ⟨[], .style _ name _⟩ => some name.value
  | _ => none

/-- The entity that the statement annotates at top level. -/
def noteTarget? : Occurrence → Option Id
  | ⟨[], .note _ target _⟩ => some target.value
  | _ => none

/-- The attributes of a layout at top level. -/
def layout? : Occurrence → Option (List Attribute)
  | ⟨[], .layout _ as⟩ => some as
  | _ => none

/-- The relation that the statement declares at top level. -/
def relation? : Occurrence → Option Relation
  | ⟨[], .relation span source target label⟩ =>
    some ⟨source.value, target.value, label.map Located.value, span⟩
  | _ => none

/-- The statement declares none of what counts only at top level. -/
structure OffTop (o : Occurrence) : Prop where
  style : o.styleName? = none
  note : o.noteTarget? = none
  layout : o.layout? = none
  relation : o.relation? = none

lemma offTop_of_entityId? {kind : EntityKind} {o : Occurrence} {x : Id}
    (h : o.entityId? kind = some x) : o.OffTop := by
  obtain ⟨opened, s⟩ := o
  cases kind <;> cases s <;> simp only [entityId?, reduceCtorEq] at h <;> cases opened <;>
    exact ⟨rfl, rfl, rfl, rfl⟩

lemma offTop_nested (p : Id) (opened : List Id) (s : Statement) : OffTop ⟨p :: opened, s⟩ :=
  ⟨rfl, rfl, rfl, rfl⟩

lemma offTop_of_mem_body {p : Id} {opened : List Id} {body : List Statement} {o : Occurrence}
    (ho : o ∈ Statement.occurrencesAll (p :: opened) body) : o.OffTop := by
  have hsuffix := Statement.suffix_of_mem_occurrencesAll (p :: opened) body o ho
  obtain ⟨inner, s⟩ := o
  cases inner with
  | nil => exact absurd (List.suffix_nil.mp hsuffix) (List.cons_ne_nil _ _)
  | cons q inner => exact offTop_nested q inner s

/-- The last statement with this key. -/
def last? (key : Occurrence → Option Id) (x : Id) (os : List Occurrence) : Option Occurrence :=
  os.reverse.find? fun o => key o = some x

lemma last?_append_singleton (key : Occurrence → Option Id) (x : Id) (os : List Occurrence)
    (o : Occurrence) :
    last? key x (os ++ [o]) = if key o = some x then some o else last? key x os := by
  rw [last?, List.reverse_append, List.reverse_singleton, List.singleton_append, List.find?_cons]
  by_cases ho : key o = some x
  · simp [ho]
  · simp [ho, last?]

lemma mem_of_last? {key : Occurrence → Option Id} {x : Id} {os : List Occurrence} {o : Occurrence}
    (h : last? key x os = some o) : o ∈ os :=
  List.mem_reverse.mp (List.mem_of_find?_eq_some h)

lemma key_of_last? {key : Occurrence → Option Id} {x : Id} {os : List Occurrence} {o : Occurrence}
    (h : last? key x os = some o) : key o = some x := by
  simpa using List.find?_some h

lemma filterMap_append_of_none {β : Type} {f : Occurrence → Option β} {o : Occurrence}
    (ho : f o = none) (os : List Occurrence) : (os ++ [o]).filterMap f = os.filterMap f := by
  simp [ho]

end Occurrence

/-- The keys are those of the statements, in the order of their first ones, and every value is `Made`
by the last statement with its key. -/
structure OrderedMap.LastWins {β : Type} (m : OrderedMap Id β) (key : Occurrence → Option Id)
    (os : List Occurrence) (Made : Id → Occurrence → β → Prop) : Prop where
  keys : m.keys = (os.filterMap key).eraseDups
  value : ∀ x v, m.get? x = some v → ∃ o, Occurrence.last? key x os = some o ∧ Made x o v

namespace OrderedMap.LastWins

variable {β : Type} {m : OrderedMap Id β} {key : Occurrence → Option Id} {os : List Occurrence}
  {Made : Id → Occurrence → β → Prop} {o : Occurrence}

lemma empty : (∅ : OrderedMap Id β).LastWins key [] Made where
  keys := rfl
  value _ _ h := by simp at h

/-- A statement without a key changes nothing. -/
lemma skip (h : m.LastWins key os Made) (ho : key o = none) : m.LastWins key (os ++ [o]) Made where
  keys := by rw [h.keys, Occurrence.filterMap_append_of_none ho]
  value x v hv := by
    rw [Occurrence.last?_append_singleton, ho, if_neg (by simp)]
    exact h.value x v hv

/-- A statement with a key gives that key its value. -/
lemma insert (h : m.LastWins key os Made) {x : Id} {v : β} (ho : key o = some x)
    (hv : Made x o v) : (m.insert x v).LastWins key (os ++ [o]) Made where
  keys := by
    have hkeys := OrderedMap.keys_insert_of_eq_eraseDups h.keys (k := x) v
    rw [hkeys, List.filterMap_append, List.filterMap_cons_some ho, List.filterMap_nil]
  value y w hw := by
    rw [get?_insert] at hw
    rw [Occurrence.last?_append_singleton, ho]
    by_cases hy : y = x
    · subst hy
      obtain rfl := Option.some.inj (by simpa using hw)
      exact ⟨o, by simp, hv⟩
    · rw [if_neg hy] at hw
      rw [if_neg (by simpa using Ne.symm hy)]
      exact h.value y w hw

lemma of_get? (h : m.LastWins key os Made) {x : Id} {v : β} (hv : m.get? x = some v) :
    ∃ o ∈ os, key o = some x ∧ Made x o v := by
  obtain ⟨o, ho, hmade⟩ := h.value x v hv
  exact ⟨o, Occurrence.mem_of_last? ho, Occurrence.key_of_last? ho, hmade⟩

lemma of_mem_keys (h : m.LastWins key os Made) {x : Id} (hx : x ∈ m.keys) :
    ∃ o ∈ os, key o = some x := by
  obtain ⟨v, hv⟩ := OrderedMap.mem_keys_iff.mp hx
  obtain ⟨o, ho, hkey, -⟩ := h.of_get? hv
  exact ⟨o, ho, hkey⟩

end OrderedMap.LastWins

/-- The layout is made of the last layout statement, if there is one. -/
structure Layout.LastWins (l : Layout) (os : List Occurrence) : Prop where
  last : ∀ as, (os.filterMap Occurrence.layout?).getLast? = some as → l.SetBy as
  default : os.filterMap Occurrence.layout? = [] → l = .default

namespace Layout.LastWins

variable {l : Layout} {os : List Occurrence} {o : Occurrence}

lemma skip (h : l.LastWins os) (ho : o.layout? = none) : l.LastWins (os ++ [o]) where
  last := by
    rw [Occurrence.filterMap_append_of_none ho]
    exact h.last
  default := by
    rw [Occurrence.filterMap_append_of_none ho]
    exact h.default

lemma set {as : List Attribute} (ho : o.layout? = some as) (hl : l.SetBy as) :
    l.LastWins (os ++ [o]) where
  last bs hbs := by
    obtain rfl : as = bs := by simpa [List.filterMap_append, ho] using hbs
    exact hl
  default hnil := by simp [ho] at hnil

end Layout.LastWins

lemma relations_skip {rs : List Relation} {os : List Occurrence} {o : Occurrence}
    (h : rs = os.filterMap Occurrence.relation?) (ho : o.relation? = none) :
    rs = (os ++ [o]).filterMap Occurrence.relation? := by
  rw [Occurrence.filterMap_append_of_none ho, h]

/-- The size of an entity that gives none. -/
def EntityKind.size : EntityKind → Size
  | component => .component
  | container => .container

/-- What the declaration `o` of the entity `x` says of it. -/
structure Entity.DeclaredBy (kind : EntityKind) (x : Id) (o : Occurrence) (e : Entity) : Prop where
  id : e.id = x
  label : e.label = (lastProperty? [.label] o.statement.properties).getD x
  style : e.style = lastProperty? [.type, .style] o.statement.properties
  width : e.size.width = (lastDimension? .width o.statement.properties).getD kind.size.width
  height : e.size.height = (lastDimension? .height o.statement.properties).getD kind.size.height
  parent : e.parent = o.opened.head?
  span : e.span = o.statement.span

lemma Traits.declaredBy_toEntity (kind : EntityKind) (x : Id) (o : Occurrence) :
    ((Traits.ofProperties kind.size o.statement.properties).value.toEntity x o.opened.head?
      o.statement.span).DeclaredBy kind x o where
  id := rfl
  label := by rw [Traits.toEntity, label_ofProperties]
  style := by rw [Traits.toEntity, style_ofProperties]
  width := by rw [Traits.toEntity, width_ofProperties]
  height := by rw [Traits.toEntity, height_ofProperties]
  parent := rfl
  span := rfl

/-- A diagram is made of the last statements. -/
structure Diagram.DeclaredBy (d : Diagram) (os : List Occurrence) : Prop where
  components : (d.components.map Component.toEntity).LastWins
    (Occurrence.entityId? .component) os (Entity.DeclaredBy .component)
  containers : (d.containers.map Container.toEntity).LastWins
    (Occurrence.entityId? .container) os (Entity.DeclaredBy .container)
  styles : d.styles.LastWins Occurrence.styleName? os fun x o s =>
    s.SetBy x o.statement.attributes
  notes : d.notes.LastWins Occurrence.noteTarget? os fun x o n =>
    n.SetBy x o.statement.properties o.statement.span
  layout : d.layout.LastWins os
  relations : d.relations = os.filterMap Occurrence.relation?

namespace Draft

lemma map_toEntity_elim_modify (m : OrderedMap Id Container) (k : Option Id)
    {f : Container → Container} (hf : ∀ c, (f c).toEntity = c.toEntity) :
    (k.elim m fun p => m.modify p f).map Container.toEntity = m.map Container.toEntity := by
  cases k with
  | none => rfl
  | some p => rw [Option.elim_some, OrderedMap.map_modify (h := fun e => e) hf, OrderedMap.modify_id]

/-- Only lists of children change when entities move. -/
lemma map_toEntity_regroup (d : Draft) (id : Id) (old new : Option Id) :
    (d.regroup id old new).map Container.toEntity = d.containers.map Container.toEntity := by
  rw [regroup, map_toEntity_elim_modify _ _ (fun c => c.toEntity_push id),
    map_toEntity_elim_modify _ _ (fun c => c.toEntity_remove id)]

lemma declaredBy_empty : Draft.empty.toDiagram.DeclaredBy [] where
  components := .empty
  containers := .empty
  styles := .empty
  notes := .empty
  layout := ⟨fun as h => by simp at h, fun _ => rfl⟩
  relations := rfl

variable {d e : Draft} {opened : List Id} {os : List Occurrence} {span : Span}

lemma declaredBy_addComponent (h : d.toDiagram.DeclaredBy os) (ho : d.Registers opened)
    {id : Located Id} {ps : List Property}
    (he : (d.addComponent opened id.value ps span).outcome = .ok e) :
    e.toDiagram.DeclaredBy (os ++ [⟨opened, .component span id ps⟩]) := by
  rw [outcome_addComponent ho] at he
  obtain rfl := Except.ok.inj he
  have hoff : Occurrence.OffTop ⟨opened, .component span id ps⟩ :=
    @Occurrence.offTop_of_entityId? .component _ _ rfl
  exact {
    components := by
      rw [components_toDiagram, OrderedMap.map_insert]
      exact h.components.insert rfl (Traits.declaredBy_toEntity .component _ _)
    containers := by
      rw [containers_toDiagram, map_toEntity_regroup]
      exact h.containers.skip rfl
    styles := h.styles.skip hoff.style
    notes := h.notes.skip hoff.note
    layout := h.layout.skip hoff.layout
    relations := relations_skip h.relations hoff.relation }

lemma declaredBy_addContainer (h : d.toDiagram.DeclaredBy os) (ho : d.Registers opened)
    {id : Located Id} {ps : List Property} {body : List Statement}
    (he : (d.addContainer opened id ps span).outcome = .ok e) :
    e.toDiagram.DeclaredBy (os ++ [⟨opened, .container span id ps body⟩]) := by
  rw [outcome_addContainer ho] at he
  cases henc : d.enclosing? opened id.value with
  | some outer => simp [henc] at he
  | none =>
    rw [henc] at he
    obtain rfl := Except.ok.inj he
    have hoff : Occurrence.OffTop ⟨opened, .container span id ps body⟩ :=
      @Occurrence.offTop_of_entityId? .container _ _ rfl
    exact {
      components := h.components.skip rfl
      containers := by
        rw [containers_toDiagram, OrderedMap.map_insert, map_toEntity_regroup]
        exact h.containers.insert rfl
          (Traits.declaredBy_toEntity .container id.value ⟨opened, .container span id ps body⟩)
      styles := h.styles.skip hoff.style
      notes := h.notes.skip hoff.note
      layout := h.layout.skip hoff.layout
      relations := relations_skip h.relations hoff.relation }

/-- A statement that is no entity counts at top level, and inside a container it is left out. -/
lemma declaredBy_atTop (h : d.toDiagram.DeclaredBy os) {s : Statement} {keyword : Keyword}
    {added : Logged Draft} (hs : ∀ kind, Occurrence.entityId? kind ⟨opened, s⟩ = none)
    (hadded : added.value.toDiagram.DeclaredBy (os ++ [⟨[], s⟩]))
    (he : (d.atTop opened keyword span added).outcome = .ok e) :
    e.toDiagram.DeclaredBy (os ++ [⟨opened, s⟩]) := by
  rw [outcome_atTop] at he
  obtain rfl := Except.ok.inj he
  cases opened with
  | nil => exact hadded
  | cons p opened =>
    have hoff := Occurrence.offTop_nested p opened s
    exact {
      components := h.components.skip (hs _)
      containers := h.containers.skip (hs _)
      styles := h.styles.skip hoff.style
      notes := h.notes.skip hoff.note
      layout := h.layout.skip hoff.layout
      relations := relations_skip h.relations hoff.relation }

lemma declaredBy_addLayout (h : d.toDiagram.DeclaredBy os) (as : List Attribute) :
    (d.addLayout as).value.toDiagram.DeclaredBy (os ++ [⟨[], .layout span as⟩]) where
  components := h.components.skip rfl
  containers := h.containers.skip rfl
  styles := h.styles.skip rfl
  notes := h.notes.skip rfl
  layout := .set rfl (Layout.setBy_foldlM as)
  relations := relations_skip h.relations rfl

lemma declaredBy_addStyle (h : d.toDiagram.DeclaredBy os) (name : Located Id)
    (as : List Attribute) :
    (d.addStyle name.value as).value.toDiagram.DeclaredBy (os ++ [⟨[], .style span name as⟩]) where
  components := h.components.skip rfl
  containers := h.containers.skip rfl
  styles := h.styles.insert rfl (Style.setBy_foldlM name.value as)
  notes := h.notes.skip rfl
  layout := h.layout.skip rfl
  relations := relations_skip h.relations rfl

lemma declaredBy_addNote (h : d.toDiagram.DeclaredBy os) (target : Located Id)
    (ps : List Property) : (d.addNote target.value ps span).value.toDiagram.DeclaredBy
      (os ++ [⟨[], .note span target ps⟩]) where
  components := h.components.skip rfl
  containers := h.containers.skip rfl
  styles := h.styles.skip rfl
  notes := h.notes.insert rfl (Note.setBy_foldl target.value ps span)
  layout := h.layout.skip rfl
  relations := relations_skip h.relations rfl

lemma declaredBy_addRelation (h : d.toDiagram.DeclaredBy os) (source target : Located Id)
    (label : Option (Located String)) :
    (d.addRelation ⟨source.value, target.value, label.map Located.value, span⟩).toDiagram.DeclaredBy
      (os ++ [⟨[], .relation span source target label⟩]) where
  components := h.components.skip rfl
  containers := h.containers.skip rfl
  styles := h.styles.skip rfl
  notes := h.notes.skip rfl
  layout := h.layout.skip rfl
  relations := by
    rw [List.filterMap_append, ← h.relations]
    rfl

/-- One case for each kind of statement, each of which changes one part of the diagram. -/
theorem declaredBy_place {o : Occurrence} (hd : Follows o.opened os d)
    (h : d.toDiagram.DeclaredBy os) (he : (o.place d).outcome = .ok e) :
    e.toDiagram.DeclaredBy (os ++ [o]) := by
  obtain ⟨hr, hw⟩ := hd
  have hopened := registers hr hw
  obtain ⟨opened, statement⟩ := o
  cases statement with
  | component span id ps =>
    simp only [Occurrence.place, place] at he
    exact declaredBy_addComponent h hopened he
  | container span id ps body => exact declaredBy_addContainer h hopened he
  | layout span as =>
    simp only [Occurrence.place, place] at he
    exact declaredBy_atTop h (fun kind => by cases kind <;> rfl) (declaredBy_addLayout h as) he
  | style span name as =>
    simp only [Occurrence.place, place] at he
    exact declaredBy_atTop h (fun kind => by cases kind <;> rfl) (declaredBy_addStyle h name as) he
  | relation span source target label =>
    simp only [Occurrence.place, place] at he
    exact declaredBy_atTop h (fun kind => by cases kind <;> rfl)
      (declaredBy_addRelation h source target label) he
  | note span target ps =>
    simp only [Occurrence.place, place] at he
    exact declaredBy_atTop h (fun kind => by cases kind <;> rfl) (declaredBy_addNote h target ps) he

/-- What is declared by the first statements of a document, or by all of them. -/
theorem declaredBy_foldlM (hn : Occurrence.Nested [] os)
    (h : (os.foldlM Occurrence.place .empty).outcome = .ok d) : d.toDiagram.DeclaredBy os := by
  -- Where statements are placed, the containers around them are registered.
  let Inv (opened : List Id) (os : List Occurrence) (d : Draft) : Prop :=
    Follows opened os d ∧ d.toDiagram.DeclaredBy os
  have hinv : Inv [] ([] ++ os) d := by
    refine foldlM_place_invariant Inv ?_ ?_ hn ⟨⟨reflects_empty, .nil⟩, declaredBy_empty⟩ h
    · rintro opened outer os d ⟨⟨hr, hw⟩, hd⟩ hs
      exact ⟨⟨hr, hw.suffix hs⟩, hd⟩
    · rintro o os d e ⟨hf, hd⟩ he
      exact ⟨follows_place hf he, declaredBy_place hf hd he⟩
  exact hinv.2

theorem declaredBy_placeAll {ss : List Statement}
    (h : (placeAll [] .empty ss).outcome = .ok d) :
    d.toDiagram.DeclaredBy (Statement.occurrencesAll [] ss) := by
  rw [placeAll_eq_foldlM] at h
  exact declaredBy_foldlM (Statement.nested_document ss) h

end Draft

namespace Diagram

/-- The statements of a source in the order of the text decide: of those that declare the same, the
last one does, and the first one gives the place. -/
theorem parse_last_declaration_wins {source : String} {d : Diagram}
    (h : (parse source).outcome = .ok d) :
    ∃ ss, (parseStatements (tokenize source)).outcome = .ok ss ∧
      (statementStarts (Statement.occurrencesAll [] ss)).Pairwise (· < ·) ∧
      d.DeclaredBy (Statement.occurrencesAll [] ss) := by
  obtain ⟨ss, hss, e, he, rfl⟩ := parse_eq_ok_iff.mp h
  exact ⟨ss, hss, parseStatements_starts hss, Draft.declaredBy_placeAll he⟩

/-- A component leaves its container, a style and the layout are declared twice, and what the
container says about styles is left out. -/
def repeatedSource : String :=
  "layout direction = LR ranksep = 5
style t color = red
container a { label A component x { label X type t } style t icon = i }
component y { }
component x { type u }
style t image = m
layout nodesep = 7
relation x -> y
relation x -> y"

/-- Nothing is left of the first declarations but the order of the keys. -/
theorem last_declaration_wins_of_repeated : ∃ d, (parse repeatedSource).outcome = .ok d ∧
    (d.components.values.map fun c => (c.id, c.label, c.style, c.parent)) =
      [("x", "x", some "u", none), ("y", "y", none, none)] ∧
    (d.styles.values.map fun s => (s.name, s.icon, s.color, s.image)) =
      [("t", none, Style.defaultColor, some "m")] ∧
    d.layout.direction = .topToBottom ∧ d.relations.length = 2 ∧
    ∃ ss, (parseStatements (tokenize repeatedSource)).outcome = .ok ss ∧
      d.DeclaredBy (Statement.occurrencesAll [] ss) := by
  have hrun : (parse repeatedSource).outcome.toOption.any (fun d =>
      (d.components.values.map fun c => (c.id, c.label, c.style, c.parent)) =
        [("x", "x", some "u", none), ("y", "y", none, none)] ∧
      (d.styles.values.map fun s => (s.name, s.icon, s.color, s.image)) =
        [("t", none, Style.defaultColor, some "m")] ∧
      d.layout.direction = .topToBottom ∧ d.relations.length = 2) = true := by
    decide +kernel
  obtain ⟨d, hd, hvalues⟩ := Attempt.exists_eq_ok hrun
  obtain ⟨hcomponents, hstyles, hdirection, hrelations⟩ := of_decide_eq_true hvalues
  obtain ⟨ss, hss, -, hdeclared⟩ := parse_last_declaration_wins hd
  exact ⟨d, hd, hcomponents, hstyles, hdirection, hrelations, ss, hss, hdeclared⟩

end Diagram

end ArchDiagram
