import ArchDiagram.Proofs.Diagram.Draft
import ArchDiagram.Proofs.Nesting.Roots
import ArchDiagram.Proofs.Statement.Unplaced

/-! Diagrams without the places of their declarations. Building commutes with taking the places away,
and so does the search for dangling references; the order of the top level is that of the
declarations, however far apart they stand. What a source means does therefore not depend on how its
tokens are laid out. -/
namespace ArchDiagram

def Entity.unplaced (e : Entity) : Entity :=
  { e with span := {} }

def Component.unplaced (c : Component) : Component :=
  ⟨c.toEntity.unplaced⟩

def Container.unplaced (c : Container) : Container :=
  ⟨c.toEntity.unplaced, c.children⟩

def Relation.unplaced (r : Relation) : Relation :=
  { r with span := {} }

def Note.unplaced (n : Note) : Note :=
  { n with span := {} }

/-- The diagram without the places of its declarations. -/
def Diagram.unplaced (d : Diagram) : Diagram where
  layout := d.layout
  styles := d.styles
  components := d.components.map Component.unplaced
  containers := d.containers.map Container.unplaced
  relations := d.relations.map Relation.unplaced
  notes := d.notes.map Note.unplaced

def Draft.unplaced (d : Draft) : Draft where
  layout := d.layout
  styles := d.styles
  components := d.components.map Component.unplaced
  containers := d.containers.map Container.unplaced
  relations := d.relations.map Relation.unplaced
  notes := d.notes.map Note.unplaced

def NestingFault.unplaced : NestingFault → NestingFault
  | .selfNested id _ => .selfNested id.unplaced {}
  | .unregistered handle _ => .unregistered handle {}

lemma NestingFault.code_unplaced (fault : NestingFault) :
    fault.unplaced.diagnostic.code = fault.diagnostic.code := by
  cases fault <;> rfl

namespace Attempt

variable {α β : Type}

/-- `y` ends as `x` does; `f` takes the places of values away. -/
def Unplaces (f : α → α) (x y : Attempt NestingFault α) : Prop :=
  y.outcome = (x.outcome.map f).mapError NestingFault.unplaced

lemma unplaces_pure {f : α → α} {a b : α} (h : b = f a) :
    Unplaces f (pure a : Attempt NestingFault α) (pure b) := by
  rw [h]
  rfl

lemma unplaces_throw {f : α → α} (fault : NestingFault) :
    Unplaces f (throw fault : Attempt NestingFault α) (throw fault.unplaced) := rfl

lemma unplaces_lift {f : α → α} {x y : Logged α} (h : y.value = f x.value) :
    Unplaces f (liftM x : Attempt NestingFault α) (liftM y) := by
  rw [Unplaces, outcome_lift, outcome_lift, h]
  rfl

lemma unplaces_bind {f : α → α} {g : β → β} {x y : Attempt NestingFault α}
    {k l : α → Attempt NestingFault β} (hx : Unplaces f x y)
    (hk : ∀ a, Unplaces g (k a) (l (f a))) : Unplaces g (x >>= k) (y >>= l) := by
  rw [Unplaces, outcome_bind, outcome_bind, hx]
  cases x.outcome with
  | error fault => rfl
  | ok a => exact hk a

end Attempt

/-- Values are read off texts, which are left as they are. -/
lemma Traits.ofProperties_unplaced (size : Size) (ps : List Property) :
    Traits.ofProperties size (ps.map Property.unplaced) = Traits.ofProperties size ps := by
  rw [Traits.ofProperties, List.foldlM_map]
  rfl

namespace Draft

open Attempt

variable (d : Draft) (opened : List Id)

lemma value_addLayout_unplaced (as : List Attribute) :
    (d.unplaced.addLayout (as.map Attribute.unplaced)).value = (d.addLayout as).value.unplaced := by
  simp only [addLayout, Logged.value_bind, Logged.value_pure, List.foldlM_map]
  rfl

lemma value_addStyle_unplaced (name : Id) (as : List Attribute) :
    (d.unplaced.addStyle name (as.map Attribute.unplaced)).value =
      (d.addStyle name as).value.unplaced := by
  simp only [addStyle, Logged.value_bind, Logged.value_pure, List.foldlM_map]
  rfl

lemma foldl_set_unplaced (n : Note) (ps : List Property) :
    (ps.map Property.unplaced).foldl Note.set n.unplaced = (ps.foldl Note.set n).unplaced := by
  induction ps generalizing n with
  | nil => rfl
  | cons p ps ih =>
    have hset : n.unplaced.set p.unplaced = (n.set p).unplaced := by
      simp only [Note.set, Property.unplaced, Located.value_unplaced]
      cases p.field.value <;> rfl
    rw [List.map_cons, List.foldl_cons, List.foldl_cons, hset, ih]

lemma value_addNote_unplaced (target : Id) (ps : List Property) (span : Span) :
    (d.unplaced.addNote target (ps.map Property.unplaced) {}).value =
      (d.addNote target ps span).value.unplaced := by
  simp only [addNote, Logged.value_bind, Logged.value_pure]
  rw [show Note.new target {} = (Note.new target span).unplaced from rfl, foldl_set_unplaced]
  simp only [unplaced, OrderedMap.map_insert]

lemma addRelation_unplaced (r : Relation) :
    d.unplaced.addRelation r.unplaced = (d.addRelation r).unplaced := by
  simp [addRelation, unplaced]

lemma unplaces_atTop {keyword : Keyword} {span : Span} {added added' : Logged Draft}
    (h : added'.value = added.value.unplaced) :
    Unplaces unplaced (d.atTop opened keyword span added)
      (d.unplaced.atTop opened keyword {} added') := by
  rw [Unplaces, outcome_atTop, outcome_atTop, h]
  cases opened <;> rfl

lemma value_detach_unplaced (id : Id) (parent : Option Id) :
    (d.unplaced.detach id parent).value = (d.detach id parent).value.unplaced := by
  cases parent with
  | none => rfl
  | some p =>
    have hremove := OrderedMap.map_modify (f := Container.unplaced) (g := (·.remove id))
      (h := (·.remove id)) (fun _ => rfl) d.containers p
    simp only [detach, Logged.value_bind, Logged.value_pure, unplaced, hremove]

lemma unplaces_attach (id : Id) (span : Span) :
    Unplaces (Prod.map unplaced fun parent => parent) (liftExcept (d.attach opened id span))
      (liftExcept (d.unplaced.attach opened id {})) := by
  rw [Unplaces, outcome_liftExcept, outcome_liftExcept]
  cases opened with
  | nil => rfl
  | cons p opened =>
    have hpush := OrderedMap.map_modify (f := Container.unplaced) (g := (·.push id))
      (h := (·.push id)) (fun _ => rfl) d.containers p
    simp only [attach, unplaced, OrderedMap.get?_map, OrderedMap.position_map]
    cases d.containers.get? p with
    | none => rfl
    | some c =>
      simp only [Option.map_some, ← hpush]
      rfl

lemma unplaces_addComponent (id : Id) (ps : List Property) (span : Span) :
    Unplaces unplaced (d.addComponent opened id ps span)
      (d.unplaced.addComponent opened id (ps.map Property.unplaced) {}) := by
  have hparent : ((d.unplaced.components.get? id).bind fun c => c.parent) =
      (d.components.get? id).bind fun c => c.parent := by
    simp only [unplaced, OrderedMap.get?_map]
    cases d.components.get? id <;> rfl
  rw [addComponent, addComponent, Traits.ofProperties_unplaced, hparent]
  refine unplaces_bind (f := fun traits => traits) (unplaces_lift rfl) ?_
  intro traits
  refine unplaces_bind (unplaces_lift (value_detach_unplaced d id _)) ?_
  intro d
  refine unplaces_bind (unplaces_attach d opened id span) ?_
  rintro ⟨d, parent⟩
  refine unplaces_bind (f := fun u => u) (unplaces_lift rfl) ?_
  intro _
  refine unplaces_bind (f := fun u => u) (unplaces_lift rfl) ?_
  intro _
  apply unplaces_pure
  simp only [unplaced, OrderedMap.map_insert]
  rfl

lemma enclosing?_unplaced (id : Id) :
    d.unplaced.enclosing? opened id = (d.enclosing? opened id).map Container.unplaced := by
  simp only [enclosing?, unplaced, OrderedMap.get?_map]
  split_ifs <;> rfl

lemma unplaces_addContainer (id : Located Id) (ps : List Property) (span : Span) :
    Unplaces unplaced (d.addContainer opened id ps span)
      (d.unplaced.addContainer opened id.unplaced (ps.map Property.unplaced) {}) := by
  have hprevious : d.unplaced.containers.get? id.value =
      (d.containers.get? id.value).map Container.unplaced := OrderedMap.get?_map _ _ _
  have hparent : ((d.unplaced.containers.get? id.value).bind fun c => c.parent) =
      (d.containers.get? id.value).bind fun c => c.parent := by
    rw [hprevious]
    cases d.containers.get? id.value <;> rfl
  have hchildren : (d.unplaced.containers.get? id.value).elim [] Container.children =
      (d.containers.get? id.value).elim [] Container.children := by
    rw [hprevious]
    cases d.containers.get? id.value <;> rfl
  rw [addContainer, addContainer, enclosing?_unplaced, Located.value_unplaced]
  cases d.enclosing? opened id.value with
  | some outer => exact unplaces_throw _
  | none =>
    simp only [Option.map_none, Traits.ofProperties_unplaced, hparent, hchildren]
    refine unplaces_bind (f := fun traits => traits) (unplaces_lift rfl) ?_
    intro traits
    refine unplaces_bind (unplaces_lift (value_detach_unplaced d id.value _)) ?_
    intro d
    refine unplaces_bind (unplaces_attach d opened id.value span) ?_
    rintro ⟨d, parent⟩
    refine unplaces_bind (f := fun u => u) (unplaces_lift rfl) ?_
    intro _
    refine unplaces_bind (f := fun u => u) (unplaces_lift rfl) ?_
    intro _
    apply unplaces_pure
    simp only [unplaced, OrderedMap.map_insert]
    rfl

open Statement

mutual

theorem unplaces_place (opened : List Id) (d : Draft) :
    ∀ s : Statement, Unplaces unplaced (d.place opened s) (d.unplaced.place opened s.unplaced)
  | .component span id ps => unplaces_addComponent d opened id.value ps span
  | .container span id ps body => by
    rw [Statement.unplaced, place, place]
    refine unplaces_bind (unplaces_addContainer d opened id ps span) ?_
    intro d
    exact unplaces_placeAll (id.value :: opened) d body
  | .layout span as => unplaces_atTop d opened (value_addLayout_unplaced d as)
  | .style span name as => unplaces_atTop d opened (value_addStyle_unplaced d name.value as)
  | .relation span source target label => by
    refine unplaces_atTop d opened ?_
    rw [Logged.value_pure, Logged.value_pure, ← addRelation_unplaced, Option.map_map]
    rfl
  | .note span target ps => unplaces_atTop d opened (value_addNote_unplaced d target.value ps span)

theorem unplaces_placeAll (opened : List Id) (d : Draft) :
    ∀ ss : List Statement,
      Unplaces unplaced (placeAll opened d ss) (placeAll opened d.unplaced (unplacedAll ss))
  | [] => by
    rw [unplacedAll, placeAll, placeAll]
    exact unplaces_pure rfl
  | s :: ss => by
    rw [unplacedAll, placeAll, placeAll]
    refine unplaces_bind (unplaces_place opened d s) ?_
    intro d
    exact unplaces_placeAll opened d ss

end

section TwoDocuments

variable {ss ss' : List Statement} (h : unplacedAll ss = unplacedAll ss')

include h

lemma placeAll_unplaced_eq :
    ((placeAll [] .empty ss).outcome.map unplaced).mapError NestingFault.unplaced =
      ((placeAll [] .empty ss').outcome.map unplaced).mapError NestingFault.unplaced := by
  have hss := unplaces_placeAll [] .empty ss
  have hss' := unplaces_placeAll [] .empty ss'
  rw [Unplaces] at hss hss'
  rw [← hss, ← hss', h]

theorem placeAll_ok_of_unplaced_eq {d : Draft} (hd : (placeAll [] .empty ss).outcome = .ok d) :
    ∃ d', (placeAll [] .empty ss').outcome = .ok d' ∧ d.unplaced = d'.unplaced := by
  have hplaced := placeAll_unplaced_eq h
  rw [hd] at hplaced
  cases hd' : (placeAll [] .empty ss').outcome with
  | error fault' =>
    rw [hd'] at hplaced
    cases hplaced
  | ok d' =>
    rw [hd'] at hplaced
    exact ⟨d', rfl, Except.ok.inj hplaced⟩

theorem placeAll_error_of_unplaced_eq {fault : NestingFault}
    (hd : (placeAll [] .empty ss).outcome = .error fault) :
    ∃ fault', (placeAll [] .empty ss').outcome = .error fault' ∧
      fault.unplaced = fault'.unplaced := by
  have hplaced := placeAll_unplaced_eq h
  rw [hd] at hplaced
  cases hd' : (placeAll [] .empty ss').outcome with
  | error fault' =>
    rw [hd'] at hplaced
    exact ⟨fault', rfl, Except.error.inj hplaced⟩
  | ok d' =>
    rw [hd'] at hplaced
    cases hplaced

end TwoDocuments

end Draft

def Declaration.unplaced (e : Declaration) : Declaration :=
  { e with span := {} }

def Occurrence.unplaced (o : Occurrence) : Occurrence :=
  ⟨o.opened, o.statement.unplaced⟩

namespace Statement

mutual

lemma occurrences_unplaced (opened : List Id) :
    ∀ s : Statement, s.unplaced.occurrences opened = (s.occurrences opened).map Occurrence.unplaced
  | .container span id ps body => by
    rw [unplaced, occurrences, occurrences, List.map_cons, occurrencesAll_unplaced _ body]
    rfl
  | .layout .. | .style .. | .component .. | .relation .. | .note .. => by
    simp [unplaced, occurrences, Occurrence.unplaced]

lemma occurrencesAll_unplaced (opened : List Id) :
    ∀ ss : List Statement,
      occurrencesAll opened (unplacedAll ss) = (occurrencesAll opened ss).map Occurrence.unplaced
  | [] => rfl
  | s :: ss => by
    rw [unplacedAll, occurrencesAll, occurrencesAll, List.map_append, occurrences_unplaced opened s,
      occurrencesAll_unplaced opened ss]

end

end Statement

lemma declarations_unplaced (os : List Occurrence) :
    declarations (os.map Occurrence.unplaced) = (declarations os).map Declaration.unplaced := by
  have hone : ∀ o : Occurrence, o.unplaced.declaration? = o.declaration?.map Declaration.unplaced := by
    rintro ⟨opened, s⟩
    cases s <;> rfl
  rw [declarations, declarations, List.filterMap_map, List.map_filterMap]
  congr 1
  funext o
  exact hone o

namespace Declaration

lemma latest_unplaced (es : List Declaration) :
    latest (es.map unplaced) = (latest es).map unplaced := by
  induction es with
  | nil => rfl
  | cons e es ih =>
    have hany : (es.map unplaced).any (·.declares e.unplaced.kind e.unplaced.id) =
        es.any (·.declares e.kind e.id) := by
      rw [List.any_map]
      rfl
    rw [List.map_cons, latest, latest, hany, ih]
    split_ifs
    · rfl
    · rfl

lemma map_id_latestIn_unplaced (es : List Declaration) (parent : Option Id) :
    (latestIn (es.map unplaced) parent).map Declaration.id =
      (latestIn es parent).map Declaration.id := by
  rw [latestIn, latest_unplaced, List.filter_map, List.map_map]
  rfl

end Declaration

def Dangling.unplaced : Dangling → Dangling
  | .source r => .source r.unplaced
  | .target r => .target r.unplaced
  | .annotated n => .annotated n.unplaced
  | .style name c => .style name c.unplaced

/-- The diagnostic without the places that its labels point at. -/
def Diagnostic.unplaced (d : Diagnostic) : Diagnostic :=
  { d with labels := d.labels.map fun l => { l with span := {} } }

def Failure.unplaced (f : Failure) : Failure :=
  ⟨f.diagnostics.map Diagnostic.unplaced⟩

lemma Dangling.diagnostic_unplaced (g : Dangling) :
    g.unplaced.diagnostic = g.diagnostic.unplaced := by
  cases g <;> rfl

namespace Diagram

lemma hasEntity_unplaced (d : Diagram) (id : Id) : d.unplaced.hasEntity id = d.hasEntity id := by
  simp [hasEntity, unplaced, OrderedMap.contains]

lemma danglingEnds_unplaced (d : Diagram) (r : Relation) :
    d.unplaced.danglingEnds r.unplaced = (d.danglingEnds r).map Dangling.unplaced := by
  simp only [danglingEnds, hasEntity_unplaced, List.map_append]
  congr 1
  · change (if d.hasEntity r.source = true then [] else _) = _
    split_ifs <;> rfl
  · change (if d.hasEntity r.target = true then [] else _) = _
    split_ifs <;> rfl

lemma danglingTarget_unplaced (d : Diagram) (n : Note) :
    d.unplaced.danglingTarget n.unplaced = (d.danglingTarget n).map Dangling.unplaced := by
  simp only [danglingTarget, hasEntity_unplaced]
  change (if d.hasEntity n.target = true then [] else _) = _
  split_ifs <;> rfl

lemma danglingStyle_unplaced (d : Diagram) (c : Component) :
    d.unplaced.danglingStyle c.unplaced = (d.danglingStyle c).map Dangling.unplaced := by
  have hstyle : c.unplaced.style = c.style := rfl
  rw [danglingStyle, danglingStyle, hstyle]
  cases c.style with
  | none => rfl
  | some name =>
    change (if d.styles.contains name = true then [] else _) = _
    split_ifs <;> simp_all [Dangling.unplaced]

theorem dangling_unplaced (d : Diagram) :
    d.unplaced.dangling = d.dangling.map Dangling.unplaced := by
  have hrelations : d.unplaced.relations = d.relations.map Relation.unplaced := rfl
  have hnotes : d.unplaced.notes.values = d.notes.values.map Note.unplaced :=
    OrderedMap.values_map _ _
  have hcomponents : d.unplaced.components.values = d.components.values.map Component.unplaced :=
    OrderedMap.values_map _ _
  rw [dangling, dangling, hrelations, hnotes, hcomponents]
  simp only [List.flatMap_map, danglingEnds_unplaced, danglingTarget_unplaced,
    danglingStyle_unplaced, List.map_append, List.map_flatMap]

theorem outcome_validate_unplaced (d : Diagram) :
    d.unplaced.validate.outcome = d.validate.outcome.mapError Failure.unplaced := by
  rw [validate, validate, dangling_unplaced, List.isEmpty_map]
  split_ifs
  · rfl
  · simp only [Attempt.outcome_throw, Except.mapError, Failure.unplaced, List.map_map]
    congr 3
    funext g
    exact g.diagnostic_unplaced

/-- The order of the top level is read off the declarations without their places. -/
theorem roots_eq_unplaced {source : String} {d : Diagram} {ss : List Statement}
    (h : (parse source).outcome = .ok d)
    (hss : (parseStatements (tokenize source)).outcome = .ok ss) :
    d.roots = (Declaration.latestIn (declarations (Statement.occurrencesAll []
      (Statement.unplacedAll ss))) none).map Declaration.id := by
  obtain ⟨hr, -⟩ := parse_reflects h
  rw [hr.roots_eq (sourceDeclarations_ascending source), Statement.occurrencesAll_unplaced,
    declarations_unplaced, Declaration.map_id_latestIn_unplaced, sourceDeclarations, hss]

/-- Sources with the same kinds and values of tokens mean the same, however these are laid out: they
declare one diagram but for places, or are refused for one reason, and at the same token if their
statements cannot be read. -/
theorem parse_ignores_places {source source' : String}
    (h : ((tokenize source).map fun t => (t.kind, t.value)) =
      (tokenize source').map fun t => (t.kind, t.value)) :
    (∃ d d', (parse source).outcome = .ok d ∧ (parse source').outcome = .ok d' ∧
      d.unplaced = d'.unplaced ∧ d.roots = d'.roots ∧
      d.validate.outcome.mapError Failure.unplaced = d'.validate.outcome.mapError Failure.unplaced) ∨
    ∃ f f', (parse source).outcome = .error f ∧ (parse source').outcome = .error f' ∧
      f.diagnostics.map Diagnostic.code = f'.diagnostics.map Diagnostic.code ∧
      ∀ fault, (parseStatements (tokenize source)).outcome = .error fault →
        ∃ fault', (parseStatements (tokenize source')).outcome = .error fault' ∧
          fault.Matches fault' (tokenize source) (tokenize source') := by
  have htokens := Token.map_unplaced_eq_iff.mpr h
  have hrun := outcome_parse source
  have hrun' := outcome_parse source'
  cases hss : (parseStatements (tokenize source)).outcome with
  | error fault =>
    obtain ⟨fault', hfault', hmatches⟩ := parseStatements_error_of_unplaced_eq htokens hss
    rw [hss] at hrun
    rw [hfault'] at hrun'
    refine .inr ⟨_, _, hrun, hrun', by simp [hmatches.code], ?_⟩
    intro other hother
    obtain rfl := Except.error.inj hother
    exact ⟨fault', hfault', hmatches⟩
  | ok ss =>
    obtain ⟨ss', hss', hsame⟩ := parseStatements_ok_of_unplaced_eq htokens hss
    simp only [hss] at hrun
    simp only [hss'] at hrun'
    cases hd : (Draft.placeAll [] .empty ss).outcome with
    | error fault =>
      obtain ⟨fault', hd', hfault⟩ := Draft.placeAll_error_of_unplaced_eq hsame hd
      have hcode : fault.diagnostic.code = fault'.diagnostic.code := by
        rw [← fault.code_unplaced, hfault, fault'.code_unplaced]
      simp only [hd] at hrun
      simp only [hd'] at hrun'
      exact .inr ⟨_, _, hrun, hrun', by simp [hcode], nofun⟩
    | ok d =>
      obtain ⟨d', hd', hdraft⟩ := Draft.placeAll_ok_of_unplaced_eq hsame hd
      have hdiagram : d.toDiagram.unplaced = d'.toDiagram.unplaced :=
        congrArg Draft.toDiagram hdraft
      simp only [hd] at hrun
      simp only [hd'] at hrun'
      refine .inl ⟨_, _, hrun, hrun', hdiagram, ?_, ?_⟩
      · rw [roots_eq_unplaced hrun hss, roots_eq_unplaced hrun' hss', hsame]
      · rw [← outcome_validate_unplaced, hdiagram, outcome_validate_unplaced]

/-- A document on one line. -/
def denseSource : String :=
  "container a { component x { label X } } component y { } relation x -> z"

/-- The same tokens, with a comment and line breaks between them. -/
def looseSource : String :=
  "// parts
container   a {
  component x {
    // a property
    label X
  }
}

component y { }
relation x
  -> z"

/-- The components stand elsewhere, and all else is the same. -/
theorem ignores_places_of_loose :
    ((tokenize denseSource).map fun t => (t.kind, t.value)) =
      ((tokenize looseSource).map fun t => (t.kind, t.value)) ∧
    ∃ d d', (parse denseSource).outcome = .ok d ∧ (parse looseSource).outcome = .ok d' ∧
      (d.components.values.map fun c => c.span.start) = [14, 40] ∧
      (d'.components.values.map fun c => c.span.start) = [27, 78] ∧
      d.unplaced = d'.unplaced ∧ d.roots = d'.roots ∧
      d.validate.outcome.mapError Failure.unplaced = d'.validate.outcome.mapError Failure.unplaced := by
  have htokens : ((tokenize denseSource).map fun t => (t.kind, t.value)) =
      (tokenize looseSource).map fun t => (t.kind, t.value) := by
    decide +kernel
  have hdense : (parse denseSource).outcome.toOption.any (fun d =>
      (d.components.values.map fun c => c.span.start) = [14, 40]) = true := by
    decide +kernel
  have hloose : (parse looseSource).outcome.toOption.any (fun d =>
      (d.components.values.map fun c => c.span.start) = [27, 78]) = true := by
    decide +kernel
  obtain ⟨d, hd, hstarts⟩ := Attempt.exists_eq_ok hdense
  obtain ⟨d', hd', hstarts'⟩ := Attempt.exists_eq_ok hloose
  obtain ⟨e, e', he, he', hsame⟩ | ⟨f, -, hf, -⟩ := parse_ignores_places htokens
  · obtain rfl : d = e := Except.ok.inj (hd.symm.trans he)
    obtain rfl : d' = e' := Except.ok.inj (hd'.symm.trans he')
    exact ⟨htokens, d, d', hd, hd', of_decide_eq_true hstarts, of_decide_eq_true hstarts', hsame⟩
  · rw [hd] at hf
    cases hf

end Diagram

end ArchDiagram
