import ArchDiagram.Proofs.Diagram.Handles
import ArchDiagram.Proofs.Diagram.Violations

/-! Statements that do not depend on each other. A diagram is determined by the last statements and by
the order in which entities come to stand in their containers. Two statements next to each other that
declare different things contribute to neither of these in common, so their order does not matter, no
matter from where they move entities. -/
namespace ArchDiagram

namespace Draft

/-- Moves of two entities commute unless both come to stand at the end of one list. -/
lemma relist_comm {a b : Id} (hab : a ≠ b) (la lb : Bool) {ja jb : Bool}
    (hj : ja = true → jb = false) (children : List Id) :
    relist b lb jb (relist a la ja children) = relist a la ja (relist b lb jb children) := by
  have hfilter : (children.filter (· != a)).filter (· != b) =
      (children.filter (· != b)).filter (· != a) := List.filter_comm _ _ _
  have hba : b ≠ a := hab.symm
  cases la <;> cases lb <;> cases ja <;> cases jb <;> simp_all [relist, List.filter_append]

end Draft

namespace Declaration

/-- Declarations that lead to the same entities with the same lists of children. -/
structure Alike (es fs : List Declaration) : Prop where
  last : ∀ kind id, last? kind id es = last? kind id fs
  listing : ∀ c, listing es c = listing fs c

/-- Declarations of different entities, not in one container. -/
structure Apart (f g : Declaration) : Prop where
  id : f.id ≠ g.id
  parent : ∀ c, f.parent = some c → g.parent ≠ some c

variable {es fs gs : List Declaration} {f g : Declaration}

lemma Alike.refl (es : List Declaration) : Alike es es :=
  ⟨fun _ _ => rfl, fun _ => rfl⟩

lemma Alike.trans (h : Alike es fs) (h' : Alike fs gs) : Alike es gs where
  last kind id := (h.last kind id).trans (h'.last kind id)
  listing c := (h.listing c).trans (h'.listing c)

lemma Alike.append_singleton (h : Alike es fs) (f : Declaration) : Alike (es ++ [f]) (fs ++ [f]) where
  last kind id := by rw [last?_append_singleton, last?_append_singleton, h.last]
  listing c := by rw [listing_append_singleton, listing_append_singleton, h.last, h.listing]

lemma Alike.append (h : Alike es fs) (gs : List Declaration) : Alike (es ++ gs) (fs ++ gs) := by
  induction gs generalizing es fs with
  | nil => simpa using h
  | cons g gs ih => simpa using ih (h.append_singleton g)

lemma listing_eq_relist (es : List Declaration) (f : Declaration) (c : Id) :
    listing (es ++ [f]) c = Draft.relist f.id
      ((last? f.kind f.id es).bind Declaration.parent = some c) (f.parent = some c)
      (listing es c) := by
  simp [listing_append_singleton, Draft.relist]

lemma last?_append_of_apart (h : f.id ≠ g.id) (es : List Declaration) :
    last? g.kind g.id (es ++ [f]) = last? g.kind g.id es := by
  simp [last?_append_singleton, declares, h]

/-- Two declarations that are apart can come in either order. -/
lemma Apart.alike (h : f.Apart g) (es : List Declaration) :
    Alike (es ++ [f] ++ [g]) (es ++ [g] ++ [f]) where
  last kind id := by
    simp only [last?_append_singleton]
    by_cases hf : f.declares kind id = true
    · have hg : ¬ g.declares kind id = true := by
        intro hg
        exact h.id ((declares_iff.mp hf).2.trans (declares_iff.mp hg).2.symm)
      simp [hf, hg]
    · simp [hf]
  listing c := by
    have hj : decide (f.parent = some c) = true → decide (g.parent = some c) = false := by
      simpa using h.parent c
    rw [listing_eq_relist, listing_eq_relist, listing_eq_relist, listing_eq_relist,
      last?_append_of_apart h.id, last?_append_of_apart h.id.symm]
    exact Draft.relist_comm h.id _ _ hj _

lemma alike_move (h : ∀ g ∈ gs, f.Apart g) (es : List Declaration) :
    Alike (es ++ [f] ++ gs) (es ++ gs ++ [f]) := by
  induction gs generalizing es with
  | nil => simpa using Alike.refl (es ++ [f])
  | cons g gs ih =>
    have hfirst : Alike (es ++ [f] ++ [g] ++ gs) (es ++ [g] ++ [f] ++ gs) :=
      ((h g List.mem_cons_self).alike es).append gs
    have hrest := ih (fun g' hg' => h g' (List.mem_cons_of_mem g hg')) (es ++ [g])
    simpa using hfirst.trans hrest

/-- Declarations that are all apart can come before or after each other. -/
theorem alike_exchange (h : ∀ f ∈ fs, ∀ g ∈ gs, f.Apart g) (es : List Declaration) :
    Alike (es ++ fs ++ gs) (es ++ gs ++ fs) := by
  induction fs generalizing es with
  | nil => simpa using Alike.refl (es ++ gs)
  | cons f fs ih =>
    have hrest := ih (fun f' hf' => h f' (List.mem_cons_of_mem f hf')) (es ++ [f])
    have hfirst : Alike (es ++ [f] ++ gs ++ fs) (es ++ gs ++ [f] ++ fs) :=
      (alike_move (h f List.mem_cons_self) es).append fs
    simpa using hrest.trans hfirst

end Declaration

namespace Occurrence

/-- The ids of the components and containers that some statements declare. -/
def declaredIds (os : List Occurrence) : List Id :=
  (declarations os).map Declaration.id

lemma declaredIds_append (os os' : List Occurrence) :
    declaredIds (os ++ os') = declaredIds os ++ declaredIds os' := by
  rw [declaredIds, declarations, List.filterMap_append, List.map_append]
  rfl

lemma mem_declaredIds_of_entityId? {kind : EntityKind} {x : Id} {os : List Occurrence}
    (h : x ∈ os.filterMap (entityId? kind)) : x ∈ declaredIds os := by
  obtain ⟨o, ho, hx⟩ := List.mem_filterMap.mp h
  have hdeclaration : ∃ f, o.declaration? = some f ∧ f.id = x := by
    obtain ⟨opened, s⟩ := o
    cases kind <;> cases s <;> simp only [entityId?, reduceCtorEq] at hx <;>
      exact ⟨_, rfl, Option.some.inj hx⟩
  obtain ⟨f, hf, rfl⟩ := hdeclaration
  exact List.mem_map_of_mem (List.mem_filterMap.mpr ⟨o, ho, hf⟩)

lemma parent_of_declaration? {o : Occurrence} {f : Declaration} (h : o.declaration? = some f) :
    f.parent = o.opened.head? := by
  obtain ⟨opened, s⟩ := o
  cases s <;> simp only [declaration?, reduceCtorEq] at h <;> obtain rfl := Option.some.inj h <;> rfl

end Occurrence

namespace Statement
open Occurrence

mutual

lemma opened_declared (opened : List Id) :
    ∀ s : Statement, ∀ o ∈ s.occurrences opened, ∀ p ∈ o.opened,
      p ∈ opened ∨ p ∈ declaredIds (s.occurrences opened)
  | .container span id ps body => by
    intro o ho p hp
    rw [occurrences] at ho ⊢
    obtain rfl | ho := List.mem_cons.mp ho
    · exact .inl hp
    · have hids : declaredIds (⟨opened, .container span id ps body⟩ ::
          occurrencesAll (id.value :: opened) body) =
            id.value :: declaredIds (occurrencesAll (id.value :: opened) body) := rfl
      rw [hids]
      obtain hp | hp := opened_declaredAll (id.value :: opened) body o ho p hp
      · obtain rfl | hp := List.mem_cons.mp hp
        · exact .inr List.mem_cons_self
        · exact .inl hp
      · exact .inr (List.mem_cons_of_mem _ hp)
  | .layout .. | .style .. | .component .. | .relation .. | .note .. => by
    simp only [occurrences, List.mem_singleton, forall_eq]
    intro p hp
    exact .inl hp

/-- The containers around a nested statement are declared as well. -/
lemma opened_declaredAll (opened : List Id) :
    ∀ ss : List Statement, ∀ o ∈ occurrencesAll opened ss, ∀ p ∈ o.opened,
      p ∈ opened ∨ p ∈ declaredIds (occurrencesAll opened ss)
  | [] => by
    intro o ho
    cases ho
  | s :: ss => by
    intro o ho p hp
    rw [occurrencesAll] at ho ⊢
    rw [declaredIds_append, List.mem_append]
    obtain ho | ho := List.mem_append.mp ho
    · obtain hp | hp := opened_declared opened s o ho p hp
      · exact .inl hp
      · exact .inr (.inl hp)
    · obtain hp | hp := opened_declaredAll opened ss o ho p hp
      · exact .inl hp
      · exact .inr (.inr hp)

end

/-- The ids of the components and containers that a statement declares, at any depth. -/
def entityIds (s : Statement) : List Id :=
  declaredIds (s.occurrences [])

/-- A statement declares the containers around what is nested in it. -/
lemma mem_entityIds_of_declaration {s : Statement} {f : Declaration}
    (hf : f ∈ declarations (s.occurrences [])) :
    f.id ∈ s.entityIds ∧ ∀ c, f.parent = some c → c ∈ s.entityIds := by
  refine ⟨List.mem_map_of_mem hf, ?_⟩
  intro c hc
  obtain ⟨o, ho, hof⟩ := List.mem_filterMap.mp hf
  rw [parent_of_declaration? hof] at hc
  obtain h | h := opened_declared [] s o ho c (List.mem_of_mem_head? hc)
  · cases h
  · exact h

/-- Only the statement itself stands at top level. -/
lemma filterMap_occurrences {β : Type} {key : Occurrence → Option β}
    (hkey : ∀ o : Occurrence, o.OffTop → key o = none) (s : Statement) :
    (s.occurrences []).filterMap key = (key ⟨[], s⟩).toList := by
  have hone (o : Occurrence) : [o].filterMap key = (key o).toList := by
    cases ho : key o <;> simp [ho]
  cases s with
  | container span id ps body =>
    have hself : Occurrence.OffTop ⟨[], .container span id ps body⟩ :=
      @offTop_of_entityId? .container _ _ rfl
    have hbody : (occurrencesAll [id.value] body).filterMap key = [] := by
      rw [List.filterMap_eq_nil_iff]
      intro o ho
      exact hkey o (offTop_of_mem_body ho)
    rw [occurrences, List.filterMap_cons_none (hkey _ hself), hbody, hkey _ hself]
    rfl
  | _ => exact hone _

/-- Statements that declare different things. -/
structure Independent (s t : Statement) : Prop where
  entities : ∀ x ∈ s.entityIds, x ∉ t.entityIds
  layouts : ¬ (s.keyword = .layout ∧ t.keyword = .layout)
  relations : ¬ (s.keyword = .relation ∧ t.keyword = .relation)
  styles : ∀ x, styleName? ⟨[], s⟩ = some x → styleName? ⟨[], t⟩ ≠ some x
  notes : ∀ x, noteTarget? ⟨[], s⟩ = some x → noteTarget? ⟨[], t⟩ ≠ some x

lemma Independent.apart {s t : Statement} (h : s.Independent t) :
    ∀ f ∈ declarations (s.occurrences []), ∀ g ∈ declarations (t.occurrences []), f.Apart g := by
  intro f hf g hg
  have hs := mem_entityIds_of_declaration hf
  have ht := mem_entityIds_of_declaration hg
  constructor
  · intro hid
    exact h.entities f.id hs.1 (hid ▸ ht.1)
  · intro c hc hc'
    exact h.entities c (hs.2 c hc) (ht.2 c hc')

end Statement

namespace Occurrence

/-- Statements with the same effect: what is declared last is the same, and so are the relations and
the lists of children. -/
structure Agree (os os' : List Occurrence) : Prop where
  entity : ∀ kind x, last? (entityId? kind) x os = last? (entityId? kind) x os'
  style : ∀ x, last? styleName? x os = last? styleName? x os'
  note : ∀ x, last? noteTarget? x os = last? noteTarget? x os'
  layout : os.filterMap layout? = os'.filterMap layout?
  relation : os.filterMap relation? = os'.filterMap relation?
  listing : ∀ c, Declaration.listing (declarations os) c = Declaration.listing (declarations os') c

lemma last?_append (key : Occurrence → Option Id) (x : Id) (os os' : List Occurrence) :
    last? key x (os ++ os') = (last? key x os').or (last? key x os) := by
  rw [last?, List.reverse_append, List.find?_append]
  rfl

lemma last?_eq_none_iff {key : Occurrence → Option Id} {x : Id} {os : List Occurrence} :
    last? key x os = none ↔ x ∉ os.filterMap key := by
  rw [mem_filterMap_iff, Option.eq_none_iff_forall_ne_some, not_exists]

lemma last?_exchange {key : Occurrence → Option Id} {x : Id} {bs cs : List Occurrence}
    (h : x ∈ bs.filterMap key → x ∉ cs.filterMap key) (as ds : List Occurrence) :
    last? key x (as ++ (bs ++ cs) ++ ds) = last? key x (as ++ (cs ++ bs) ++ ds) := by
  simp only [last?_append]
  by_cases hb : x ∈ bs.filterMap key
  · rw [last?_eq_none_iff.mpr (h hb), Option.none_or, Option.or_none]
  · rw [last?_eq_none_iff.mpr hb, Option.none_or, Option.or_none]

lemma filterMap_exchange {β : Type} {key : Occurrence → Option β} {bs cs : List Occurrence}
    (h : bs.filterMap key = [] ∨ cs.filterMap key = []) (as ds : List Occurrence) :
    (as ++ (bs ++ cs) ++ ds).filterMap key = (as ++ (cs ++ bs) ++ ds).filterMap key := by
  obtain h | h := h
  · simp [h]
  · simp [h]

lemma layout?_eq_none {s : Statement} (h : s.keyword ≠ .layout) : layout? ⟨[], s⟩ = none := by
  cases s with
  | layout => contradiction
  | _ => rfl

lemma relation?_eq_none {s : Statement} (h : s.keyword ≠ .relation) : relation? ⟨[], s⟩ = none := by
  cases s with
  | relation => contradiction
  | _ => rfl

section Top

variable {s t : Statement} (as ds : List Occurrence)

lemma last?_exchange_top {key : Occurrence → Option Id} (hkey : ∀ o, OffTop o → key o = none)
    {x : Id} (h : key ⟨[], s⟩ = some x → key ⟨[], t⟩ ≠ some x) :
    last? key x (as ++ (s.occurrences [] ++ t.occurrences []) ++ ds) =
      last? key x (as ++ (t.occurrences [] ++ s.occurrences []) ++ ds) := by
  apply last?_exchange
  rw [Statement.filterMap_occurrences hkey, Statement.filterMap_occurrences hkey,
    Option.mem_toList, Option.mem_toList]
  exact h

lemma filterMap_exchange_top {β : Type} {key : Occurrence → Option β}
    (hkey : ∀ o, OffTop o → key o = none) (h : key ⟨[], s⟩ = none ∨ key ⟨[], t⟩ = none) :
    (as ++ (s.occurrences [] ++ t.occurrences []) ++ ds).filterMap key =
      (as ++ (t.occurrences [] ++ s.occurrences []) ++ ds).filterMap key := by
  apply filterMap_exchange
  rw [Statement.filterMap_occurrences hkey, Statement.filterMap_occurrences hkey,
    Option.toList_eq_nil_iff, Option.toList_eq_nil_iff]
  exact h

end Top

/-- Independent statements can come in either order. -/
theorem agree_exchange {s t : Statement} (h : s.Independent t) (as ds : List Occurrence) :
    Agree (as ++ (s.occurrences [] ++ t.occurrences []) ++ ds)
      (as ++ (t.occurrences [] ++ s.occurrences []) ++ ds) where
  entity kind x := by
    apply last?_exchange
    intro hs ht
    exact h.entities x (mem_declaredIds_of_entityId? hs) (mem_declaredIds_of_entityId? ht)
  style x := last?_exchange_top as ds (fun _ ho => ho.style) (h.styles x)
  note x := last?_exchange_top as ds (fun _ ho => ho.note) (h.notes x)
  layout := by
    apply filterMap_exchange_top as ds fun _ ho => ho.layout
    exact (not_and_or.mp h.layouts).imp layout?_eq_none layout?_eq_none
  relation := by
    apply filterMap_exchange_top as ds fun _ ho => ho.relation
    exact (not_and_or.mp h.relations).imp relation?_eq_none relation?_eq_none
  listing c := by
    have halike := (Declaration.alike_exchange h.apart (declarations as)).append (declarations ds)
    simpa [declarations] using halike.listing c

end Occurrence

attribute [ext] Layout Style Note Size Entity

/-- A statement leaves nothing open about what it declares. -/
lemma Layout.SetBy.unique {l l' : Layout} {as : List Attribute} (h : l.SetBy as)
    (h' : l'.SetBy as) : l = l' :=
  Layout.ext (h.direction.trans h'.direction.symm) (h.ranksep.trans h'.ranksep.symm)
    (h.nodesep.trans h'.nodesep.symm)

lemma Note.SetBy.unique {n n' : Note} {target : Id} {ps : List Property} {span : Span}
    (h : n.SetBy target ps span) (h' : n'.SetBy target ps span) : n = n' :=
  Note.ext (h.target.trans h'.target.symm) (h.tooltip.trans h'.tooltip.symm)
    (h.link.trans h'.link.symm) (h.span.trans h'.span.symm)

lemma Style.SetBy.get?_reserved {s : Style} {name : Id} {as : List Attribute} (h : s.SetBy name as)
    {x : String} (hx : x ∈ reserved) : s.properties.get? x = none := by
  rw [OrderedMap.get?_eq_none_iff, h.property_keys, List.mem_eraseDups, List.mem_filter]
  simp [hx]

lemma Style.SetBy.unique {s s' : Style} {name : Id} {as : List Attribute} (h : s.SetBy name as)
    (h' : s'.SetBy name as) : s = s' := by
  have hproperties : s.properties = s'.properties := by
    refine OrderedMap.ext_get? (h.property_keys.trans h'.property_keys.symm) ?_
    intro x
    by_cases hx : x ∈ reserved
    · rw [h.get?_reserved hx, h'.get?_reserved hx]
    · rw [h.property x hx, h'.property x hx]
  exact Style.ext (h.name.trans h'.name.symm) (h.icon.trans h'.icon.symm)
    (h.color.trans h'.color.symm) (h.image.trans h'.image.symm) (h.shape.trans h'.shape.symm)
    hproperties

lemma Entity.DeclaredBy.unique {kind : EntityKind} {x : Id} {o : Occurrence} {e e' : Entity}
    (h : e.DeclaredBy kind x o) (h' : e'.DeclaredBy kind x o) : e = e' := by
  have hsize : e.size = e'.size :=
    Size.ext (h.width.trans h'.width.symm) (h.height.trans h'.height.symm)
  exact Entity.ext (h.id.trans h'.id.symm) (h.label.trans h'.label.symm)
    (h.style.trans h'.style.symm) hsize (h.parent.trans h'.parent.symm) (h.span.trans h'.span.symm)

namespace OrderedMap.LastWins

variable {β : Type} {m n : OrderedMap Id β} {key : Occurrence → Option Id}
  {os os' : List Occurrence} {Made : Id → Occurrence → β → Prop}

lemma get?_eq_none_iff (h : m.LastWins key os Made) {x : Id} :
    m.get? x = none ↔ Occurrence.last? key x os = none := by
  rw [OrderedMap.get?_eq_none_iff, h.keys, List.mem_eraseDups, Occurrence.last?_eq_none_iff]

/-- Maps that are made by the same last statements have the same lookups. -/
lemma get?_eq (hm : m.LastWins key os Made) (hn : n.LastWins key os' Made)
    (unique : ∀ {x o v w}, Made x o v → Made x o w → v = w)
    (hlast : ∀ x, Occurrence.last? key x os = Occurrence.last? key x os') (x : Id) :
    m.get? x = n.get? x := by
  cases hv : m.get? x with
  | none =>
    have hnone := hm.get?_eq_none_iff.mp hv
    rw [hlast] at hnone
    exact (hn.get?_eq_none_iff.mpr hnone).symm
  | some v =>
    obtain ⟨o, ho, hmade⟩ := hm.value x v hv
    cases hw : n.get? x with
    | none =>
      rw [hlast, hn.get?_eq_none_iff.mp hw] at ho
      cases ho
    | some w =>
      obtain ⟨o', ho', hmade'⟩ := hn.value x w hw
      rw [hlast, ho'] at ho
      obtain rfl := Option.some.inj ho
      rw [unique hmade hmade']

end OrderedMap.LastWins

lemma Layout.LastWins.unique {l l' : Layout} {os os' : List Occurrence} (h : l.LastWins os)
    (h' : l'.LastWins os') (hos : os.filterMap Occurrence.layout? = os'.filterMap Occurrence.layout?) :
    l = l' := by
  cases hlast : (os.filterMap Occurrence.layout?).getLast? with
  | none =>
    have hnil := List.getLast?_eq_none_iff.mp hlast
    rw [h.default hnil, h'.default (hos ▸ hnil)]
  | some as => exact (h.last as hlast).unique (h'.last as (hos ▸ hlast))

/-- Diagrams that differ in the order of their maps at most. -/
structure Diagram.Rearranges (d e : Diagram) : Prop where
  layout : d.layout = e.layout
  styles : d.styles.entries.Perm e.styles.entries
  components : d.components.entries.Perm e.components.entries
  containers : d.containers.entries.Perm e.containers.entries
  relations : d.relations = e.relations
  notes : d.notes.entries.Perm e.notes.entries

namespace Diagram

variable {d e : Diagram} {os os' : List Occurrence}

/-- A component is an entity. -/
lemma get?_components_eq {x : Id} (h : (d.components.map Component.toEntity).get? x =
    (e.components.map Component.toEntity).get? x) : d.components.get? x = e.components.get? x := by
  have hinj : Function.Injective Component.toEntity := by
    rintro ⟨a⟩ ⟨b⟩ hab
    exact congrArg Component.mk hab
  rw [OrderedMap.get?_map, OrderedMap.get?_map] at h
  exact Option.map_injective hinj h

/-- A container is an entity with a list of children. -/
lemma get?_containers_eq {x : Id} (hentity : (d.containers.map Container.toEntity).get? x =
    (e.containers.map Container.toEntity).get? x) (hchildren : d.childrenOf x = e.childrenOf x) :
    d.containers.get? x = e.containers.get? x := by
  rw [OrderedMap.get?_map, OrderedMap.get?_map] at hentity
  rw [childrenOf, childrenOf] at hchildren
  cases hc : d.containers.get? x with
  | none =>
    rw [hc, Option.map_none, eq_comm, Option.map_eq_none_iff] at hentity
    exact hentity.symm
  | some c =>
    cases hk : e.containers.get? x with
    | none => simp [hc, hk] at hentity
    | some k =>
      rw [hc, hk] at hentity hchildren
      obtain ⟨entity, children⟩ := c
      obtain ⟨entity', children'⟩ := k
      obtain rfl : entity = entity' := Option.some.inj hentity
      obtain rfl : children = children' := hchildren
      rfl

/-- Statements with the same effect lead to the same diagram, up to the order of its maps. -/
theorem rearranges_of_agree (hd : d.DeclaredBy os) (hr : d.Reflects (declarations os))
    (he : e.DeclaredBy os') (hr' : e.Reflects (declarations os')) (h : Occurrence.Agree os os') :
    d.Rearranges e where
  layout := hd.layout.unique he.layout h.layout
  styles := OrderedMap.entries_perm (hd.styles.get?_eq he.styles Style.SetBy.unique h.style)
  components := by
    refine OrderedMap.entries_perm fun x => get?_components_eq ?_
    exact hd.components.get?_eq he.components Entity.DeclaredBy.unique (h.entity .component) x
  containers := by
    refine OrderedMap.entries_perm fun x => get?_containers_eq ?_ ?_
    · exact hd.containers.get?_eq he.containers Entity.DeclaredBy.unique (h.entity .container) x
    · rw [hr.children, hr'.children, h.listing]
  relations := by rw [hd.relations, he.relations, h.relation]
  notes := OrderedMap.entries_perm (hd.notes.get?_eq he.notes Note.SetBy.unique h.note)

end Diagram

/-- The statement is a container inside another one with the same id. -/
def Occurrence.SelfNested (o : Occurrence) : Prop :=
  ∃ x, o.entityId? .container = some x ∧ x ∈ o.opened

namespace Draft

variable {d e : Draft} {o : Occurrence}

lemma exists_ok_place (hr : d.Registers o.opened) :
    (∃ e, (o.place d).outcome = .ok e) ↔ ¬ o.SelfNested := by
  obtain ⟨opened, statement⟩ := o
  have hnone {s : Statement} (hs : Occurrence.entityId? .container ⟨opened, s⟩ = none) :
      ¬ Occurrence.SelfNested ⟨opened, s⟩ := by
    rintro ⟨x, hx, -⟩
    rw [hs] at hx
    cases hx
  cases statement with
  | component span id ps =>
    simp only [Occurrence.place, place]
    exact iff_of_true ⟨_, outcome_addComponent hr id.value ps span⟩ (hnone rfl)
  | container span id ps body =>
    have hself : Occurrence.SelfNested ⟨opened, .container span id ps body⟩ ↔ id.value ∈ opened := by
      simp [Occurrence.SelfNested, Occurrence.entityId?]
    rw [hself, ← enclosing?_eq_none_iff hr]
    simp only [Occurrence.place, outcome_addContainer hr]
    cases d.enclosing? opened id.value with
    | none => simp
    | some outer => simp
  | layout | style | relation | note =>
    simp only [Occurrence.place, place]
    exact iff_of_true ⟨_, outcome_atTop _ _ _ _ _⟩ (hnone rfl)

lemma registers_place (hd : d.Keyed) (hr : d.Registers o.opened)
    (h : (o.place d).outcome = .ok e) : e.Keyed ∧ e.Registers o.within := by
  obtain ⟨opened, statement⟩ := o
  have hother {s : Statement} (hs : (d.place opened s).outcome = .ok e) :
      e.Keyed ∧ e.Registers opened := by
    have hkeeps := keeps_place hd hr s
    rw [hs] at hkeeps
    exact ⟨hkeeps.2, hr.mono hkeeps.1 hkeeps.2⟩
  cases statement with
  | container span id ps body =>
    have hadd : (d.addContainer opened id ps span).outcome = .ok e := h
    have hkeeps := keeps_addContainer hd hr id ps span
    rw [hadd] at hkeeps
    exact ⟨hkeeps.2, registers_addContainer hd hr hadd⟩
  | _ => exact hother h

/-- Placing fails only at containers inside themselves. -/
theorem exists_ok_foldlM_place {outer : List Id} {os : List Occurrence}
    (hn : Occurrence.Nested outer os) (hd : d.Keyed) (hr : d.Registers outer) :
    (∃ e, (os.foldlM Occurrence.place d).outcome = .ok e) ↔ ∀ o ∈ os, ¬ o.SelfNested := by
  induction hn generalizing d with
  | nil => simp
  | @cons outer o os ho _ ih =>
    have hro : d.Registers o.opened := fun p hp => hr p (ho.subset hp)
    rw [List.forall_mem_cons, ← exists_ok_place hro, List.foldlM_cons]
    constructor
    · rintro ⟨e, he⟩
      obtain ⟨d', hd', he⟩ := Attempt.outcome_bind_eq_ok.mp he
      obtain ⟨hkeyed, hwithin⟩ := registers_place hd hro hd'
      exact ⟨⟨d', hd'⟩, (ih hkeyed hwithin).mp ⟨e, he⟩⟩
    · rintro ⟨⟨d', hd'⟩, hos⟩
      obtain ⟨hkeyed, hwithin⟩ := registers_place hd hro hd'
      obtain ⟨e, he⟩ := (ih hkeyed hwithin).mpr hos
      exact ⟨e, Attempt.outcome_bind_eq_ok.mpr ⟨d', hd', he⟩⟩

end Draft

theorem exists_buildDiagram_iff {ss : List Statement} :
    (∃ d, (buildDiagram ss).outcome = .ok d) ↔
      ∀ o ∈ Statement.occurrencesAll [] ss, ¬ o.SelfNested := by
  have hkeyed : Draft.empty.Keyed := by
    intro x c hc
    simp [Draft.empty] at hc
  have hregisters : Draft.empty.Registers [] := by simp [Draft.Registers]
  rw [← Draft.exists_ok_foldlM_place (Statement.nested_document ss) hkeyed hregisters,
    ← Draft.placeAll_eq_foldlM]
  simp only [buildDiagram_eq_ok_iff]
  constructor
  · rintro ⟨d, e, he, -⟩
    exact ⟨e, he⟩
  · rintro ⟨e, he⟩
    exact ⟨e.toDiagram, e, he, rfl⟩

lemma Statement.occurrencesAll_pair (p q : List Statement) (s t : Statement) :
    occurrencesAll [] (p ++ [s, t] ++ q) =
      occurrencesAll [] p ++ (s.occurrences [] ++ t.occurrences []) ++ occurrencesAll [] q := by
  simp [occurrencesAll_append, occurrencesAll]

/-- Two independent statements next to each other can change places: a diagram can be built before if
and only if it can be after, and it is the same up to the order of its maps. -/
theorem buildDiagram_exchange {s t : Statement} (h : s.Independent t) (p q : List Statement) :
    ((∃ d, (buildDiagram (p ++ [s, t] ++ q)).outcome = .ok d) ↔
      ∃ e, (buildDiagram (p ++ [t, s] ++ q)).outcome = .ok e) ∧
    ∀ d e, (buildDiagram (p ++ [s, t] ++ q)).outcome = .ok d →
      (buildDiagram (p ++ [t, s] ++ q)).outcome = .ok e → d.Rearranges e := by
  constructor
  · rw [exists_buildDiagram_iff, exists_buildDiagram_iff, Statement.occurrencesAll_pair,
      Statement.occurrencesAll_pair]
    simp only [List.mem_append, or_comm]
  · intro d e hd he
    obtain ⟨d', hd', rfl⟩ := buildDiagram_eq_ok_iff.mp hd
    obtain ⟨e', he', rfl⟩ := buildDiagram_eq_ok_iff.mp he
    have hagree := Occurrence.agree_exchange h (Statement.occurrencesAll [] p)
      (Statement.occurrencesAll [] q)
    rw [← Statement.occurrencesAll_pair, ← Statement.occurrencesAll_pair] at hagree
    exact Diagram.rearranges_of_agree (Draft.declaredBy_placeAll hd') (Draft.follows_placeAll hd').1
      (Draft.declaredBy_placeAll he') (Draft.follows_placeAll he').1 hagree

/-- A container with these components in it. -/
def grouping (start : ℕ) (outer : Id) (inner : List Id) : Statement :=
  let id (x : Id) : Located Id := ⟨x, ⟨start, start + x.length⟩⟩
  .container ⟨start, start + 40⟩ (id outer) []
    (inner.map fun x => .component ⟨start, start + 20⟩ (id x) [])

def firstGroups : List Statement :=
  [grouping 0 "a" ["y"], grouping 50 "b" ["x"]]

def groupA : Statement :=
  grouping 100 "a" ["x", "u"]

def groupB : Statement :=
  grouping 150 "b" ["y", "v"]

/-- `x` and `y` change containers, each into the one that the other leaves; only the order of the new
components tells which came first. -/
theorem exchange_of_crossing : groupA.Independent groupB ∧
    ∃ d e, (buildDiagram (firstGroups ++ [groupA, groupB] ++ [])).outcome = .ok d ∧
      (buildDiagram (firstGroups ++ [groupB, groupA] ++ [])).outcome = .ok e ∧
      d.childrenOf "a" = ["x", "u"] ∧ d.childrenOf "b" = ["y", "v"] ∧
      d.components.keys = ["y", "x", "u", "v"] ∧ e.components.keys = ["y", "x", "v", "u"] ∧
      d.Rearranges e := by
  have hindependent : groupA.Independent groupB := ⟨by decide, by decide, by decide, nofun, nofun⟩
  have hd : (buildDiagram (firstGroups ++ [groupA, groupB] ++ [])).outcome.toOption.any (fun d =>
      d.childrenOf "a" = ["x", "u"] ∧ d.childrenOf "b" = ["y", "v"] ∧
        d.components.keys = ["y", "x", "u", "v"]) = true := by
    decide +kernel
  have he : (buildDiagram (firstGroups ++ [groupB, groupA] ++ [])).outcome.toOption.any (fun e =>
      e.components.keys = ["y", "x", "v", "u"]) = true := by
    decide +kernel
  obtain ⟨d, hd, hvalues⟩ := Attempt.exists_eq_ok hd
  obtain ⟨e, he, hkeys⟩ := Attempt.exists_eq_ok he
  obtain ⟨ha, hb, hcomponents⟩ := of_decide_eq_true hvalues
  exact ⟨hindependent, d, e, hd, he, ha, hb, hcomponents, of_decide_eq_true hkeys,
    (buildDiagram_exchange hindependent firstGroups []).2 d e hd he⟩

end ArchDiagram
