import ArchDiagram.Proofs.Diagram.Draft
import ArchDiagram.Proofs.Nesting.Ancestry
import ArchDiagram.Proofs.Nesting.Listing

/-! Drafts against the declarations that led to them: the maps of a draft hold the last
declarations, and its containers list what `listing` says. -/
namespace ArchDiagram
open Declaration

/-- The declaration that an entity remembers. -/
def Entity.declaration (kind : EntityKind) (e : Entity) : Declaration :=
  ⟨kind, e.id, e.parent, e.span⟩

/-- A diagram says of every entity what the declarations say. -/
structure Diagram.Reflects (d : Diagram) (es : List Declaration) : Prop where
  components : ∀ x, (d.components.get? x).map (fun c => c.toEntity.declaration .component) =
    last? .component x es
  containers : ∀ x, (d.containers.get? x).map (fun c => c.toEntity.declaration .container) =
    last? .container x es
  children : ∀ c, d.childrenOf c = listing es c
  styles : ∀ x s, d.styles.get? x = some s → s.name = x
  notes : ∀ x n, d.notes.get? x = some n → n.target = x

namespace Diagram.Reflects

variable {d : Diagram} {es : List Declaration} (h : d.Reflects es)

include h

lemma last?_component {x : Id} {c : Component} (hc : d.components.get? x = some c) :
    last? .component x es = some (c.toEntity.declaration .component) := by
  rw [← h.components, hc]
  rfl

lemma last?_container {x : Id} {c : Container} (hc : d.containers.get? x = some c) :
    last? .container x es = some (c.toEntity.declaration .container) := by
  rw [← h.containers, hc]
  rfl

lemma id_component {x : Id} {c : Component} (hc : d.components.get? x = some c) : c.id = x :=
  (last?_eq_some (h.last?_component hc)).2.2

lemma id_container {x : Id} {c : Container} (hc : d.containers.get? x = some c) : c.id = x :=
  (last?_eq_some (h.last?_container hc)).2.2

lemma mem_containers_iff {x : Id} :
    x ∈ d.containers.keys ↔ (last? .container x es).isSome = true := by
  rw [OrderedMap.mem_keys_iff, ← h.containers, Option.isSome_map, Option.isSome_iff_exists]

lemma component_parent (x : Id) : ((d.components.get? x).bind fun c => c.parent) =
    (last? .component x es).bind Declaration.parent := by
  rw [← h.components]
  cases d.components.get? x <;> rfl

lemma container_parent (x : Id) : ((d.containers.get? x).bind fun c => c.parent) =
    (last? .container x es).bind Declaration.parent := by
  rw [← h.containers]
  cases d.containers.get? x <;> rfl

end Diagram.Reflects

namespace Draft

@[simp] theorem components_toDiagram (d : Draft) : d.toDiagram.components = d.components := rfl

@[simp] theorem containers_toDiagram (d : Draft) : d.toDiagram.containers = d.containers := rfl

@[simp] theorem styles_toDiagram (d : Draft) : d.toDiagram.styles = d.styles := rfl

@[simp] theorem notes_toDiagram (d : Draft) : d.toDiagram.notes = d.notes := rfl

lemma reflects_empty : (Draft.empty.toDiagram).Reflects [] where
  components _ := rfl
  containers _ := rfl
  children _ := rfl
  styles _ _ h := by simp [Draft.empty] at h
  notes _ _ h := by simp [Draft.empty] at h

variable {d d' : Draft} {opened : List Id} {es : List Declaration}

lemma registers (hr : d.toDiagram.Reflects es) (hw : WellNested opened es) :
    d.Registers opened := by
  intro p hp
  have hk := hr.mem_containers_iff.mpr (hw.opened_declared p hp)
  obtain ⟨c, hc⟩ := OrderedMap.mem_keys_iff.mp hk
  exact ⟨c, hc, hr.id_container hc⟩

/-- The lists of children move as the declarations say, where the new parent is a container. -/
lemma children_regroup (hr : d.toDiagram.Reflects es) (f : Declaration)
    (hp : ∀ p, f.parent = some p → p ∈ d.containers.keys) (c : Id) :
    ((d.regroup f.id ((last? f.kind f.id es).bind Declaration.parent) f.parent).get? c).elim []
      Container.children = listing (es ++ [f]) c := by
  have hc : d.toDiagram.childrenOf c = listing es c := hr.children c
  rw [get?_regroup, listing_append_singleton, ← hc, Diagram.childrenOf, containers_toDiagram]
  cases hk : d.containers.get? c with
  | none =>
    have hf : f.parent ≠ some c := fun h => OrderedMap.get?_eq_none_iff.mp hk (hp c h)
    simp [hf]
  | some k => simp [relist]

lemma last?_append_other {kind : EntityKind} {f : Declaration} (hk : f.kind ≠ kind) (x : Id) :
    last? kind x (es ++ [f]) = last? kind x es := by
  simp [last?_append_singleton, declares, hk]

lemma last?_append_same (f : Declaration) (x : Id) :
    last? f.kind x (es ++ [f]) = if x = f.id then some f else last? f.kind x es := by
  simp [last?_append_singleton, declares, eq_comm]

/-- What `regroup` leaves alone: all but the lists of children. -/
lemma entity_regroup (hr : d.toDiagram.Reflects es) (id : Id) (old new : Option Id) (x : Id) :
    ((d.regroup id old new).get? x).map (fun c => c.toEntity.declaration .container) =
      last? .container x es := by
  have hx : (d.containers.get? x).map (fun c => c.toEntity.declaration .container) =
      last? .container x es := hr.containers x
  rw [get?_regroup, Option.map_map, ← hx]
  rfl

lemma head?_registered (hr : d.toDiagram.Reflects es) (hw : WellNested opened es) {p : Id}
    (hp : opened.head? = some p) : p ∈ d.containers.keys :=
  hr.mem_containers_iff.mpr (hw.opened_declared p (List.mem_of_mem_head? hp))

lemma reflects_addComponent (hr : d.toDiagram.Reflects es) (hw : WellNested opened es) {id : Id}
    {ps : List Property} {span : Span} (h : (d.addComponent opened id ps span).outcome = .ok d') :
    d'.toDiagram.Reflects (es ++ [⟨.component, id, opened.head?, span⟩]) := by
  have hold := hr.component_parent id
  rw [outcome_addComponent (registers hr hw)] at h
  obtain rfl := Except.ok.inj h
  refine ⟨?_, ?_, ?_, hr.styles, hr.notes⟩
  · intro x
    have hx := hr.components x
    rw [last?_append_same ⟨.component, id, opened.head?, span⟩ x, ← hx, components_toDiagram,
      OrderedMap.get?_insert]
    split_ifs <;> rfl
  · intro x
    rw [last?_append_other (by simp)]
    exact entity_regroup hr _ _ _ x
  · intro c
    have hc := children_regroup hr ⟨.component, id, opened.head?, span⟩
      (fun p hp => head?_registered hr hw hp) c
    rw [← hold] at hc
    exact hc

lemma reflects_addContainer (hr : d.toDiagram.Reflects es) (hw : WellNested opened es)
    {id : Located Id} {ps : List Property} {span : Span}
    (h : (d.addContainer opened id ps span).outcome = .ok d') :
    id.value ∉ opened ∧
      d'.toDiagram.Reflects (es ++ [⟨.container, id.value, opened.head?, span⟩]) := by
  have hreg := registers hr hw
  have hold : ((d.containers.get? id.value).bind fun c => c.parent) =
      (last? .container id.value es).bind Declaration.parent := hr.container_parent id.value
  rw [outcome_addContainer hreg] at h
  cases he : d.enclosing? opened id.value with
  | some outer => simp [he] at h
  | none =>
    have hid := (enclosing?_eq_none_iff hreg).mp he
    refine ⟨hid, ?_⟩
    rw [he] at h
    obtain rfl := Except.ok.inj h
    refine ⟨?_, ?_, ?_, hr.styles, hr.notes⟩
    · intro x
      rw [last?_append_other (by simp)]
      exact hr.components x
    · intro x
      rw [last?_append_same ⟨.container, id.value, opened.head?, span⟩ x, containers_toDiagram,
        OrderedMap.get?_insert]
      split_ifs with hx
      · rfl
      · exact entity_regroup hr _ _ _ x
    · intro c
      have hc := children_regroup hr ⟨.container, id.value, opened.head?, span⟩
        (fun p hp => head?_registered hr hw hp) c
      rw [← hold] at hc
      rw [Diagram.childrenOf, containers_toDiagram, OrderedMap.get?_insert, ← hc]
      split_ifs with hx
      · -- its own list neither loses nor gains the container
        subst hx
        have hnew : opened.head? ≠ some id.value := fun hp => hid (List.mem_of_mem_head? hp)
        have hleft : ((d.containers.get? id.value).bind fun c => c.parent) ≠ some id.value := by
          rw [hold]
          intro hp
          obtain ⟨e, he, hp⟩ := Option.bind_eq_some_iff.mp hp
          exact hw.parent_ne_self he hp
        rw [get?_regroup_of_ne hleft hnew]
        rfl
      · rfl

/-- Statements that are no entities leave components and containers alone. -/
lemma reflects_of_eq (hr : d.toDiagram.Reflects es) (hcomp : d'.components = d.components)
    (hcont : d'.containers = d.containers)
    (hs : ∀ x s, d'.styles.get? x = some s → s.name = x)
    (hn : ∀ x n, d'.notes.get? x = some n → n.target = x) : d'.toDiagram.Reflects es where
  components x := by
    rw [components_toDiagram, hcomp]
    exact hr.components x
  containers x := by
    rw [containers_toDiagram, hcont]
    exact hr.containers x
  children c := by
    rw [Diagram.childrenOf, containers_toDiagram, hcont]
    exact hr.children c
  styles := hs
  notes := hn

lemma reflects_atTop (hr : d.toDiagram.Reflects es) {keyword : Keyword} {span : Span}
    {added : Logged Draft} (ha : added.value.toDiagram.Reflects es)
    (h : (d.atTop opened keyword span added).outcome = .ok d') : d'.toDiagram.Reflects es := by
  rw [outcome_atTop] at h
  obtain rfl := Except.ok.inj h
  split_ifs
  · exact ha
  · exact hr

lemma reflects_addStyle (hr : d.toDiagram.Reflects es) (name : Id) (as : List Attribute) :
    (d.addStyle name as).value.toDiagram.Reflects es := by
  refine reflects_of_eq hr rfl rfl (OrderedMap.forall_insert hr.styles ?_) hr.notes
  exact Style.name_foldlM_set (.new name) as

lemma reflects_addNote (hr : d.toDiagram.Reflects es) (target : Id) (ps : List Property)
    (span : Span) : (d.addNote target ps span).value.toDiagram.Reflects es := by
  refine reflects_of_eq hr rfl rfl hr.styles (OrderedMap.forall_insert hr.notes ?_)
  exact Note.target_foldl_set (.new target span) ps

/-- What holds of a draft inside the containers `opened`, after the statements `os`. -/
def Follows (opened : List Id) (os : List Occurrence) (d : Draft) : Prop :=
  d.toDiagram.Reflects (declarations os) ∧ WellNested opened (declarations os)

/-- One case for each kind of statement; only entities add a declaration. -/
theorem follows_place {o : Occurrence} {os : List Occurrence} (hd : Follows o.opened os d)
    (h : (o.place d).outcome = .ok d') : Follows o.within (os ++ [o]) d' := by
  obtain ⟨hr, hw⟩ := hd
  obtain ⟨opened, statement⟩ := o
  rw [Follows, declarations_append_singleton]
  cases statement with
  | component span id ps =>
    simp only [Occurrence.place, place] at h
    exact ⟨reflects_addComponent hr hw h, hw.append rfl (by simp)⟩
  | container span id ps body =>
    obtain ⟨hid, hr⟩ := reflects_addContainer hr hw h
    exact ⟨hr, hw.append_container (f := ⟨.container, id.value, opened.head?, span⟩) rfl rfl hid⟩
  | layout span as =>
    simp only [Occurrence.place, place] at h
    have ha : (d.addLayout as).value.toDiagram.Reflects (declarations os) :=
      reflects_of_eq hr rfl rfl hr.styles hr.notes
    simpa [Occurrence.declaration?] using ⟨reflects_atTop hr ha h, hw⟩
  | style span name as =>
    simp only [Occurrence.place, place] at h
    have ha := reflects_addStyle hr name.value as
    simpa [Occurrence.declaration?] using ⟨reflects_atTop hr ha h, hw⟩
  | relation span source target label =>
    simp only [Occurrence.place, place] at h
    have ha : (d.addRelation ⟨source.value, target.value, label.map Located.value,
        span⟩).toDiagram.Reflects (declarations os) :=
      reflects_of_eq hr rfl rfl hr.styles hr.notes
    simpa [Occurrence.declaration?] using ⟨reflects_atTop hr ha h, hw⟩
  | note span target ps =>
    simp only [Occurrence.place, place] at h
    have ha := reflects_addNote hr target.value ps span
    simpa [Occurrence.declaration?] using ⟨reflects_atTop hr ha h, hw⟩

theorem follows_placeAll {ss : List Statement} (h : (placeAll [] .empty ss).outcome = .ok d) :
    Follows [] (Statement.occurrencesAll [] ss) d := by
  refine placeAll_invariant Follows ?_ follows_place ⟨reflects_empty, .nil⟩ h
  rintro opened outer os d ⟨hr, hw⟩ hs
  exact ⟨hr, hw.suffix hs⟩

end Draft

namespace Diagram

/-- Every diagram that is read off a source reflects the declarations of the source. -/
theorem parse_reflects {source : String} {d : Diagram} (h : (parse source).outcome = .ok d) :
    d.Reflects (sourceDeclarations source) ∧ WellNested [] (sourceDeclarations source) := by
  obtain ⟨ss, hss, e, he, rfl⟩ := parse_eq_ok_iff.mp h
  rw [sourceDeclarations, hss]
  exact Draft.follows_placeAll he

end Diagram

end ArchDiagram
