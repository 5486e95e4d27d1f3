import ArchDiagram.Proofs.Diagram.Redeclaration

/-! Widths and heights. Of the properties in a block that set one side, the last one with a positive
number decides. A bad one behind it is passed over, and does not bring the default back; it does so
only where nothing good stands in front of it. -/
namespace ArchDiagram

/-- The two sides of a size, which are set in the same way. -/
inductive Side where
  | width
  | height
deriving DecidableEq, Repr

def Side.field : Side → Field
  | width => .width
  | height => .height

def Size.along (s : Size) : Side → Binary64
  | .width => s.width
  | .height => s.height

/-- The positive number that the last property with this field gives: it gives none where the text
is malformed, or its number is not finite or not positive. -/
def finalDimension? (field : Field) (ps : List Property) : Option Binary64 :=
  (lastProperty? [field] ps).bind fun text => (Binary64.read? text).filter Binary64.isPositive

lemma finalDimension?_append_singleton (field : Field) (ps : List Property) (p : Property) :
    finalDimension? field (ps ++ [p]) =
      if p.field.value = field then p.dimension? field else finalDimension? field ps := by
  rw [finalDimension?, lastProperty?, List.reverse_append, List.reverse_singleton,
    List.singleton_append, List.find?_cons]
  by_cases hp : p.field.value = field
  · simp [hp, Property.dimension?]
  · simp [hp, finalDimension?, lastProperty?]

lemma lastDimension?_append_singleton (field : Field) (ps : List Property) (p : Property) :
    lastDimension? field (ps ++ [p]) = (p.dimension? field).or (lastDimension? field ps) := by
  rw [lastDimension?, List.filterMap_append]
  cases hp : p.dimension? field with
  | none => simp [hp, lastDimension?]
  | some v => simp [hp]

/-- A good last property is the last good one. -/
theorem lastDimension?_of_finalDimension? {field : Field} {ps : List Property} {v : Binary64}
    (h : finalDimension? field ps = some v) : lastDimension? field ps = some v := by
  induction ps using List.reverseRecOn with
  | nil => cases h
  | append_singleton ps p ih =>
    rw [finalDimension?_append_singleton] at h
    rw [lastDimension?_append_singleton]
    split_ifs at h with hp
    · rw [h, Option.some_or]
    · have hnone : p.dimension? field = none := if_neg hp
      rw [hnone, Option.none_or, ih h]

/-- The last property of the side is bad, and in front of it stands a good one that is not the
default. -/
def EntityKind.Overlooks (kind : EntityKind) (side : Side) (ps : List Property) : Prop :=
  finalDimension? side.field ps = none ∧
    ∃ x, lastDimension? side.field ps = some x ∧ x ≠ kind.size.along side

/-- The size of an entity that is declared with the properties `ps`. -/
structure Entity.SizedBy (kind : EntityKind) (ps : List Property) (e : Entity) : Prop where
  last_good : ∀ side, e.size.along side =
    (lastDimension? side.field ps).getD (kind.size.along side)
  /-- Where the last property decides, or else the default. -/
  eq_final_iff : ∀ side, e.size.along side =
    (finalDimension? side.field ps).getD (kind.size.along side) ↔ ¬ kind.Overlooks side ps

lemma Entity.DeclaredBy.sizedBy {kind : EntityKind} {x : Id} {o : Occurrence} {e : Entity}
    (h : e.DeclaredBy kind x o) : e.SizedBy kind o.statement.properties := by
  have hgood : ∀ side, e.size.along side =
      (lastDimension? side.field o.statement.properties).getD (kind.size.along side) := by
    intro side
    cases side with
    | width => exact h.width
    | height => exact h.height
  refine ⟨hgood, ?_⟩
  intro side
  rw [hgood, EntityKind.Overlooks]
  cases hfinal : finalDimension? side.field o.statement.properties with
  | some v => simp [lastDimension?_of_finalDimension? hfinal]
  | none =>
    cases lastDimension? side.field o.statement.properties with
    | none => simp
    | some x => simp

lemma OrderedMap.LastWins.exists_get? {β : Type} {m : OrderedMap Id β}
    {key : Occurrence → Option Id} {os : List Occurrence} {o : Occurrence}
    {Made : Id → Occurrence → β → Prop} (h : m.LastWins key (os ++ [o]) Made) {x : Id} (ho : key o = some x) :
    ∃ v, m.get? x = some v ∧ Made x o v := by
  have hx : x ∈ m.keys := by
    rw [h.keys, List.mem_eraseDups, List.filterMap_append]
    simp [ho]
  obtain ⟨v, hv⟩ := OrderedMap.mem_keys_iff.mp hx
  obtain ⟨o', ho', hmade⟩ := h.value x v hv
  rw [Occurrence.last?_append_singleton, if_pos ho] at ho'
  obtain rfl := Option.some.inj ho'
  exact ⟨v, hv, hmade⟩

namespace Diagram

/-- The entities of one kind. -/
def entities (d : Diagram) : EntityKind → OrderedMap Id Entity
  | .component => d.components.map Component.toEntity
  | .container => d.containers.map Container.toEntity

lemma DeclaredBy.entities {d : Diagram} {os : List Occurrence} (h : d.DeclaredBy os)
    (kind : EntityKind) :
    (d.entities kind).LastWins (Occurrence.entityId? kind) os (Entity.DeclaredBy kind) := by
  cases kind with
  | component => exact h.components
  | container => exact h.containers

end Diagram

/-- A run goes through every statement of a document. -/
lemma Draft.exists_foldlM_place {d e : Draft} {os more : List Occurrence}
    (h : ((os ++ more).foldlM Occurrence.place d).outcome = .ok e) :
    ∃ mid, (os.foldlM Occurrence.place d).outcome = .ok mid := by
  rw [List.foldlM_append, Attempt.outcome_bind_eq_ok] at h
  obtain ⟨mid, hmid, -⟩ := h
  exact ⟨mid, hmid⟩

namespace Diagram

/-- Every declaration gives its entity the last good width and height of its block. An entity keeps
those of its last declaration. -/
theorem parse_sizes_last_good {source : String} {d : Diagram}
    (h : (parse source).outcome = .ok d) :
    ∃ ss, (parseStatements (tokenize source)).outcome = .ok ss ∧
      (∀ before o after, Statement.occurrencesAll [] ss = before ++ o :: after →
        ∀ kind x, o.entityId? kind = some x →
          ∃ draft e, ((before ++ [o]).foldlM Occurrence.place .empty).outcome = .ok draft ∧
            (draft.toDiagram.entities kind).get? x = some e ∧
            e.SizedBy kind o.statement.properties) ∧
      ∀ kind x e, (d.entities kind).get? x = some e →
        ∃ o, Occurrence.last? (Occurrence.entityId? kind) x (Statement.occurrencesAll [] ss) =
          some o ∧ e.SizedBy kind o.statement.properties := by
  obtain ⟨ss, hss, built, hbuilt, rfl⟩ := parse_eq_ok_iff.mp h
  refine ⟨ss, hss, ?_, ?_⟩
  · intro before o after hsplit kind x hx
    have hnested := Statement.nested_document ss
    rw [Draft.placeAll_eq_foldlM] at hbuilt
    rw [hsplit, ← List.singleton_append, ← List.append_assoc] at hbuilt hnested
    obtain ⟨draft, hdraft⟩ := Draft.exists_foldlM_place hbuilt
    have hdeclared := Draft.declaredBy_foldlM hnested.of_append hdraft
    obtain ⟨e, he, hmade⟩ := (hdeclared.entities kind).exists_get? hx
    exact ⟨draft, e, hdraft, he, hmade.sizedBy⟩
  · intro kind x e he
    have hdeclared := Draft.declaredBy_placeAll hbuilt
    obtain ⟨o, ho, hmade⟩ := (hdeclared.entities kind).value x e he
    exact ⟨o, ho, hmade.sizedBy⟩

/-- The width comes twice, and the second time it is bad. -/
def zeroedSource : String :=
  "component a { width 5 width 0 }"

theorem sizes_last_good_of_zeroed : ∃ d e, ∃ o : Occurrence, (parse zeroedSource).outcome = .ok d ∧
    (d.entities .component).get? "a" = some e ∧ e.size.along .width = .ofNat 5 ∧
    (finalDimension? .width o.statement.properties).getD
      (EntityKind.component.size.along .width) = .ofNat 100 ∧
    e.SizedBy .component o.statement.properties := by
  have hrun : (parse zeroedSource).outcome.toOption.any (fun d =>
      ((d.entities .component).get? "a").any fun e => e.size.along .width = .ofNat 5) = true := by
    decide +kernel
  have hread : (parseStatements (tokenize zeroedSource)).outcome.toOption.any (fun ss =>
      (Statement.occurrencesAll [] ss).all fun o =>
        finalDimension? .width o.statement.properties = none) = true := by
    decide +kernel
  obtain ⟨d, hd, hwidth⟩ := Attempt.exists_eq_ok hrun
  obtain ⟨e, he, hfive⟩ := (Option.any_eq_true _ _).mp hwidth
  obtain ⟨ss, hss, -, hsizes⟩ := parse_sizes_last_good hd
  obtain ⟨o, ho, hsized⟩ := hsizes .component "a" e he
  obtain ⟨ss', hss', hall⟩ := Attempt.exists_eq_ok hread
  obtain rfl : ss = ss' := Except.ok.inj (hss.symm.trans hss')
  have hnone := List.all_eq_true.mp hall o (Occurrence.mem_of_last? ho)
  refine ⟨d, e, o, hd, he, of_decide_eq_true hfive, ?_, hsized⟩
  rw [of_decide_eq_true hnone]
  rfl

end Diagram

end ArchDiagram
