import ArchDiagram.Proofs.Diagram.Dimensions
import ArchDiagram.Proofs.Number.Double

/-! Numbers of a diagram. A declaration reads its numbers as doubles of any kind, one after the
other, and whatever texts it gives for them the last number is finite, and positive in a size. It is
the number that the diagram holds. -/
namespace ArchDiagram

namespace Side

/-- The width or the height after the properties of a block, each of which falls back to the one
before it. -/
def measured (side : Side) (ps : List Property) (start : Double) : Double :=
  ps.foldl (fun x p =>
    if p.field.value = side.field then Double.dimension p.value.value x else x) start

variable (side : Side)

/-- A block leaves a finite positive number, by induction on its properties. -/
lemma isLength_measured {start : Double} (h : start.IsLength) (ps : List Property) :
    (side.measured ps start).IsLength := by
  induction ps generalizing start with
  | nil => exact h
  | cons p ps ih =>
    rw [measured, List.foldl_cons]
    split
    case isTrue => exact ih (Double.isLength_dimension h p.value.value)
    case isFalse => exact ih h

/-- Where the first number is finite the last good one decides. -/
lemma measured_eq (ps : List Property) (start : Binary64) :
    side.measured ps (.finite start) = .finite ((lastDimension? side.field ps).getD start) := by
  have hstep (x : Double) (p : Property) :
      (if p.field.value = side.field then Double.dimension p.value.value x else x) =
        ((p.dimension? side.field).map Double.finite).getD x := by
    rw [Property.dimension?]
    split
    case isTrue => exact Double.dimension_eq p.value.value x
    case isFalse => rfl
  have hlast := @getLast?_foldl _ _ _ _ id _ hstep (.finite start) ps
  rw [measured]
  refine hlast.trans ?_
  rw [lastDimension?, ← List.map_filterMap, List.getLast?_map, id]
  cases (ps.filterMap (Property.dimension? side.field)).getLast? <;> rfl

lemma isLength_default (kind : EntityKind) :
    (Double.finite (kind.size.along side)).IsLength := by
  refine ⟨rfl, ?_⟩
  cases kind <;> cases side <;> decide +kernel

end Side

/-- The separation of this name after the attributes of a layout, each of which falls back to the
default. -/
def Layout.separation (name : String) (default : Double) (as : List Attribute) : Double :=
  as.foldl (fun x a =>
    if a.name.value = name then Double.number a.value.value default else x) default

namespace Layout

/-- Where the default is finite the last attribute decides, and its number is finite. -/
lemma separation_eq (name : String) (default : Binary64) (as : List Attribute) :
    separation name (.finite default) as =
      .finite (((lastAttribute? name as).bind Binary64.read?).getD default) := by
  have hstep (x : Double) (a : Attribute) :
      (if a.name.value = name then Double.number a.value.value (.finite default) else x) =
        if decide (a.name.value = name) = true then
          .finite ((Binary64.read? a.value.value).getD default) else x := by
    rw [Double.number_eq]
    simp only [decide_eq_true_eq]
    cases Binary64.read? a.value.value <;> rfl
  have hlast := @get_foldl _ _ _ _ id _ _ hstep (.finite default) as
  rw [getD_bind_lastAttribute?, separation]
  refine hlast.trans ?_
  cases as.reverse.find? fun a => a.name.value = name <;> rfl

end Layout

/-- The attributes of the last layout at top level; none if there is no layout. -/
def lastLayout (os : List Occurrence) : List Attribute :=
  (os.filterMap Occurrence.layout?).getLast?.getD []

lemma Layout.LastWins.setBy_lastLayout {l : Layout} {os : List Occurrence} (h : l.LastWins os) :
    l.SetBy (lastLayout os) := by
  rw [lastLayout]
  cases hlast : (os.filterMap Occurrence.layout?).getLast? with
  | some as => exact h.last as hlast
  | none =>
    rw [h.default (List.getLast?_eq_none_iff.mp hlast)]
    exact Layout.setBy_foldlM []

namespace Diagram

/-- The doubles that the last of the statements `os` leave, which may be of any kind, are the
numbers of the diagram. -/
structure NumberedBy (d : Diagram) (os : List Occurrence) : Prop where
  size : ∀ kind x e, (d.entities kind).get? x = some e →
    ∃ o, Occurrence.last? (Occurrence.entityId? kind) x os = some o ∧
      ∀ side : Side, side.measured o.statement.properties (.finite (kind.size.along side)) =
        .finite (e.size.along side)
  ranksep : Layout.separation "ranksep" (.finite Layout.defaultRanksep) (lastLayout os) =
    .finite d.layout.ranksep
  nodesep : Layout.separation "nodesep" (.finite Layout.defaultNodesep) (lastLayout os) =
    .finite d.layout.nodesep

lemma DeclaredBy.numberedBy {d : Diagram} {os : List Occurrence} (h : d.DeclaredBy os) :
    d.NumberedBy os where
  size kind x e he := by
    obtain ⟨o, ho, hmade⟩ := (h.entities kind).value x e he
    refine ⟨o, ho, fun side => ?_⟩
    rw [Side.measured_eq]
    cases side with
    | width => exact congrArg Double.finite hmade.width.symm
    | height => exact congrArg Double.finite hmade.height.symm
  ranksep := by rw [Layout.separation_eq, h.layout.setBy_lastLayout.ranksep]
  nodesep := by rw [Layout.separation_eq, h.layout.setBy_lastLayout.nodesep]

lemma NumberedBy.pos {d : Diagram} {os : List Occurrence} (h : d.NumberedBy os)
    {kind : EntityKind} {x : Id} {e : Entity} (he : (d.entities kind).get? x = some e)
    (side : Side) : 0 < (e.size.along side).toRat := by
  obtain ⟨o, -, hside⟩ := h.size kind x e he
  have hlength := side.isLength_measured (side.isLength_default kind) o.statement.properties
  rw [hside side] at hlength
  exact (Binary64.isPositive_iff _).mp hlength.positive

/-- Whatever a source gives for its numbers, those that the diagram holds are finite, and those of
sizes are positive. -/
theorem parse_numbers_finite {source : String} {d : Diagram}
    (h : (parse source).outcome = .ok d) :
    (∃ ss, (parseStatements (tokenize source)).outcome = .ok ss ∧
      d.NumberedBy (Statement.occurrencesAll [] ss)) ∧
    (∀ kind x e, (d.entities kind).get? x = some e → ∀ side,
      0 < (e.size.along side).toRat ∧ (e.size.along side).toRat < 2 ^ (1024 : ℤ)) ∧
    |d.layout.ranksep.toRat| < 2 ^ (1024 : ℤ) ∧ |d.layout.nodesep.toRat| < 2 ^ (1024 : ℤ) := by
  obtain ⟨ss, hss, built, hbuilt, rfl⟩ := parse_eq_ok_iff.mp h
  have hnumbered := (Draft.declaredBy_placeAll hbuilt).numberedBy
  refine ⟨⟨ss, hss, hnumbered⟩, ?_, Binary64.abs_toRat_lt _, Binary64.abs_toRat_lt _⟩
  intro kind x e he side
  exact ⟨hnumbered.pos he side, (le_abs_self _).trans_lt (Binary64.abs_toRat_lt _)⟩

/-- Words, quoted texts, unknown tokens and numerals that are too large, and a component that is
declared twice. -/
def illNumberedSource : String :=
  "layout ranksep = 5 ranksep = infinity nodesep = 1e400 nodesep = \"-0\"
component a \x7b width 3 \x7d
container c \x7b width \"+INF\"
  component a \x7b width 8 width inf width \"nan\" width 1e999 height @ height 0 \x7d
\x7d"

theorem numbers_finite_of_illNumbered : ∃ d e, (parse illNumberedSource).outcome = .ok d ∧
    (d.entities .component).get? "a" = some e ∧ e.size = ⟨.ofNat 8, .ofNat 60⟩ ∧
    d.layout.ranksep = .ofNat 50 ∧ d.layout.nodesep = .zero true ∧
    (∀ side, 0 < (e.size.along side).toRat) ∧
    ∃ ss, (parseStatements (tokenize illNumberedSource)).outcome = .ok ss ∧
      d.NumberedBy (Statement.occurrencesAll [] ss) := by
  have hrun : (parse illNumberedSource).outcome.toOption.any (fun d =>
      (((d.entities .component).get? "a").any fun e => e.size = ⟨.ofNat 8, .ofNat 60⟩) &&
        decide (d.layout.ranksep = .ofNat 50 ∧ d.layout.nodesep = .zero true)) = true := by
    decide +kernel
  obtain ⟨d, hd, hvalues⟩ := Attempt.exists_eq_ok hrun
  obtain ⟨hcomponent, hlayout⟩ := Bool.and_eq_true_iff.mp hvalues
  obtain ⟨e, he, hsize⟩ := (Option.any_eq_true _ _).mp hcomponent
  obtain ⟨hranksep, hnodesep⟩ := of_decide_eq_true hlayout
  obtain ⟨hnumbered, hsizes, -, -⟩ := parse_numbers_finite hd
  exact ⟨d, e, hd, he, of_decide_eq_true hsize, hranksep, hnodesep,
    fun side => (hsizes .component "a" e he side).1, hnumbered⟩

end Diagram

end ArchDiagram
