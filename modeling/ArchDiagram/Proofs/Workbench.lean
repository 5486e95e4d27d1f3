import ArchDiagram.Proofs.Diagram.Handles
import ArchDiagram.Proofs.Diagram.Violations
import ArchDiagram.Proofs.Nesting.SelfNesting
import ArchDiagram.Workbench

/-! Work under settings, against the reading and checking of sources by itself. Both end in the same
way whatever the settings are, and a problem says by its kind which of the two stages found it,
because the codes of the two stages belong to different categories. What the settings say of styles
is left for components without one. -/
namespace ArchDiagram

namespace Failure

/-- There is something to report, and all of it has codes of one category. -/
structure Uniform (f : Failure) (category : Category) : Prop where
  ne_nil : f.diagnostics ≠ []
  code : ∀ d ∈ f.diagnostics, d.code.map Code.category = some category

lemma Uniform.category? {f : Failure} {category : Category} (h : f.Uniform category) :
    f.category? = some category := by
  obtain ⟨diagnostics⟩ := f
  cases diagnostics with
  | nil => exact absurd rfl h.ne_nil
  | cons d ds =>
    have hd := h.code d List.mem_cons_self
    rw [Failure.category?, List.findSome?_cons, hd]

lemma uniform_of_isSyntactic {d : Diagnostic} (h : d.IsSyntactic) :
    Uniform ⟨[d]⟩ .grammar where
  ne_nil := List.cons_ne_nil d []
  code e he := by
    obtain rfl := List.mem_singleton.mp he
    obtain ⟨code, -, hcode, hcategory⟩ := h.code
    rw [hcode, Option.map_some, hcategory]

end Failure

lemma Dangling.category_diagnostic (g : Dangling) :
    g.diagnostic.code.map Code.category = some .reference := by
  cases g <;> rfl

namespace Diagram

/-- Building finds no other fault than a container inside itself. -/
lemma isSyntactic_of_placeAll {ss : List Statement} {fault : NestingFault}
    (h : (Draft.placeAll [] .empty ss).outcome = .error fault) : fault.diagnostic.IsSyntactic := by
  have hsettles := Draft.settles_placeAll Draft.recalls_empty ss
  change Draft.Settles [] _ (Draft.placeAll [] .empty ss).outcome at hsettles
  rw [h] at hsettles
  obtain ⟨-, x, -, -, -, span, id, ps, body, outer, -, -, rfl⟩ := hsettles
  exact NestingFault.isSyntactic_selfNested id outer.span

lemma uniform_of_parse {source : String} {f : Failure} (h : (parse source).outcome = .error f) :
    f.Uniform .grammar := by
  rw [outcome_parse] at h
  cases hss : (parseStatements (tokenize source)).outcome with
  | error fault =>
    rw [hss] at h
    obtain rfl := Except.error.inj h
    exact Failure.uniform_of_isSyntactic fault.isSyntactic
  | ok ss =>
    cases hd : (Draft.placeAll [] .empty ss).outcome with
    | error fault =>
      simp only [hss, hd] at h
      obtain rfl := Except.error.inj h
      exact Failure.uniform_of_isSyntactic (isSyntactic_of_placeAll hd)
    | ok d => simp [hss, hd] at h

lemma uniform_of_validate {d : Diagram} {f : Failure} (h : d.validate.outcome = .error f) :
    f.Uniform .reference := by
  rw [outcome_validate] at h
  split_ifs at h with hd
  obtain rfl := Except.error.inj h
  refine ⟨?_, ?_⟩
  · simpa using hd
  · intro g hg
    obtain ⟨dangling, -, rfl⟩ := List.mem_map.mp hg
    exact dangling.category_diagnostic

/-- A failure comes from one of the two stages. -/
lemma exists_uniform {source : String} {f : Failure} (h : (parseValid source).outcome = .error f) :
    ∃ category, f.Uniform category := by
  rw [outcome_parseValid] at h
  cases hparse : (parse source).outcome with
  | error f' =>
    rw [hparse] at h
    obtain rfl := Except.error.inj h
    exact ⟨_, uniform_of_parse hparse⟩
  | ok d =>
    rw [hparse, Except.bind] at h
    cases hvalid : d.validate.outcome with
    | error f' =>
      rw [hvalid] at h
      obtain rfl := Except.error.inj h
      exact ⟨_, uniform_of_validate hvalid⟩
    | ok u =>
      rw [hvalid] at h
      cases h

/-- What holds of the fault at a token, of the fault of a container and of every dangling reference
holds of all that a failure reports. -/
theorem forall_diagnostics {P : Diagnostic → Prop} {source : String} {f : Failure}
    (h : (parseValid source).outcome = .error f)
    (hstop : ∀ fault, (parseStatements (tokenize source)).outcome = .error fault →
      P fault.diagnostic)
    (hnesting : ∀ ss fault, (parseStatements (tokenize source)).outcome = .ok ss →
      (Draft.placeAll [] .empty ss).outcome = .error fault → P fault.diagnostic)
    (hdangling : ∀ ss (d : Diagram), (parseStatements (tokenize source)).outcome = .ok ss →
      d.DeclaredBy (Statement.occurrencesAll [] ss) → ∀ w ∈ d.dangling, P w.diagnostic) :
    ∀ d ∈ f.diagnostics, P d := by
  cases hparse : (parse source).outcome with
  | ok d =>
    obtain ⟨ss, hss, hdeclared, hvalid⟩ := parseValid_of_parse hparse
    rw [hvalid] at h
    split_ifs at h
    obtain rfl := Except.error.inj h
    exact List.forall_mem_map.mpr (hdangling ss d hss hdeclared)
  | error f' =>
    rw [outcome_parseValid, hparse] at h
    obtain rfl := Except.error.inj h
    rw [outcome_parse] at hparse
    cases hss : (parseStatements (tokenize source)).outcome with
    | error fault =>
      rw [hss] at hparse
      obtain rfl := Except.error.inj hparse
      simpa using hstop fault hss
    | ok ss =>
      cases hd : (Draft.placeAll [] .empty ss).outcome with
      | error fault =>
        simp only [hss, hd] at hparse
        obtain rfl := Except.error.inj hparse
        simpa using hnesting ss fault hss hd
      | ok d => simp [hss, hd] at hparse

end Diagram

namespace Workbench

lemma outcome_parseUnchecked (w : Workbench) (source : String) : (w.parseUnchecked source).outcome =
    (Diagram.parse source).outcome.mapError fun f => .parse f source := by
  simp only [parseUnchecked, Attempt.outcome_bind, Attempt.outcome_lift, Attempt.outcome_mapError,
    Attempt.outcome_pure]
  cases (Diagram.parse source).outcome <;> rfl

lemma outcome_parse (w : Workbench) (source : String) : (w.parse source).outcome =
    ((Diagram.parse source).outcome.mapError fun f => .parse f source).bind fun d =>
      (d.validate.outcome.map fun _ => d).mapError fun f => .validation f source := by
  simp only [parse, Attempt.outcome_bind, outcome_parseUnchecked, Attempt.outcome_lift,
    Attempt.outcome_mapError, Attempt.outcome_pure]
  congr 1
  funext d
  cases d.validate.outcome <;> rfl

lemma parse_eq_ok_iff (w : Workbench) (source : String) (d : Diagram) :
    (w.parse source).outcome = .ok d ↔ (Diagram.parseValid source).outcome = .ok d := by
  rw [outcome_parse, Diagram.outcome_parseValid]
  cases (Diagram.parse source).outcome with
  | error f => simp [Except.bind, Except.mapError]
  | ok e => cases he : e.validate.outcome <;> simp [Except.bind, Except.mapError, Except.map, he]

/-- The stage that fails is told by the category of its codes. -/
lemma parse_eq_error {w : Workbench} {source : String} {p : Problem}
    (h : (w.parse source).outcome = .error p) :
    ∃ f, (Diagram.parseValid source).outcome = .error f ∧
      (p = .parse f source ∧ f.Uniform .grammar ∨
        p = .validation f source ∧ f.Uniform .reference) := by
  rw [outcome_parse] at h
  rw [Diagram.outcome_parseValid]
  cases hparse : (Diagram.parse source).outcome with
  | error f =>
    rw [hparse] at h
    obtain rfl : .parse f source = p := Except.error.inj h
    exact ⟨f, rfl, .inl ⟨rfl, Diagram.uniform_of_parse hparse⟩⟩
  | ok d =>
    cases hvalid : d.validate.outcome with
    | error f =>
      simp only [hparse, Except.mapError, Except.bind, hvalid, Except.map] at h
      obtain rfl : .validation f source = p := Except.error.inj h
      refine ⟨f, ?_, .inr ⟨rfl, Diagram.uniform_of_validate hvalid⟩⟩
      simp only [Except.bind, hvalid, Except.map]
    | ok u => simp [hparse, Except.mapError, Except.bind, hvalid, Except.map] at h

/-- What a source comes to is the same on every workbench and without one. A problem keeps the source
and the diagnostics; it is one of parsing if these are about the syntax, and one of validation
if they are about references, and there is no third case. -/
theorem parse_agrees_parseValid (w : Workbench) (source : String) :
    (∀ d, (w.parse source).outcome = .ok d ↔ (Diagram.parseValid source).outcome = .ok d) ∧
    ∀ p, (w.parse source).outcome = .error p →
      ∃ f, (Diagram.parseValid source).outcome = .error f ∧ p.failure? = some (f, source) ∧
        (p = .parse f source ↔ f.category? = some .grammar) ∧
        (p = .validation f source ↔ f.category? = some .reference) ∧
        (f.category? = some .grammar ∨ f.category? = some .reference) ∧
        ∀ g ∈ f.diagnostics, g.code.map Code.category = f.category? := by
  refine ⟨w.parse_eq_ok_iff source, ?_⟩
  intro p hp
  obtain ⟨f, hf, ⟨rfl, huniform⟩ | ⟨rfl, huniform⟩⟩ := parse_eq_error hp
  · refine ⟨f, hf, rfl, ?_⟩
    rw [huniform.category?]
    exact ⟨by simp, by simp, .inl rfl, huniform.code⟩
  · refine ⟨f, hf, rfl, ?_⟩
    rw [huniform.category?]
    exact ⟨by simp, by simp, .inr rfl, huniform.code⟩

/-- Neither end of the relation is declared. -/
def looseRelation : Relation :=
  ⟨"a", "b", none, ⟨0, 15⟩⟩

theorem agrees_parseValid_of_looseRelation : ∃ p f,
    (parse { settings := { pretty := false } } "relation a -> b").outcome = .error p ∧
    (Diagram.parseValid "relation a -> b").outcome = .error f ∧
    f.diagnostics = [(Dangling.source looseRelation).diagnostic,
      (Dangling.target looseRelation).diagnostic] ∧
    p = .validation f "relation a -> b" ∧ f.category? = some .reference := by
  have hrun : (parse { settings := { pretty := false } } "relation a -> b").outcome =
      .error (.validation ⟨[(Dangling.source looseRelation).diagnostic,
        (Dangling.target looseRelation).diagnostic]⟩ "relation a -> b") :=
    Attempt.outcome_eq_error (by decide +kernel)
  obtain ⟨f, hf, hfailure, -, hkind, -⟩ := (parse_agrees_parseValid _ _).2 _ hrun
  obtain ⟨rfl, -⟩ := Prod.mk.inj (Option.some.inj hfailure)
  exact ⟨_, _, hrun, hf, rfl, rfl, hkind.mp rfl⟩

end Workbench

namespace Diagram

/-- A source that is accepted as valid has a diagram in which nothing dangles. -/
lemma dangling_of_parseValid {source : String} {d : Diagram}
    (h : (parseValid source).outcome = .ok d) : d.dangling = [] := by
  obtain ⟨ss, -, -, hvalid⟩ := parseValid_of_parse (parse_of_parseValid h)
  rw [hvalid] at h
  split_ifs at h with hnone
  exact hnone

lemma exists_style {d : Diagram} (h : d.dangling = []) {c : Component}
    (hc : c ∈ d.components.values) {n : Id} (hn : c.style = some n) :
    ∃ s, d.styles.get? n = some s := by
  rw [dangling, List.append_eq_nil_iff, List.flatMap_eq_nil_iff] at h
  have hnone := h.2 c hc
  simp only [danglingStyle, hn] at hnone
  split_ifs at hnone with hcontains
  exact OrderedMap.mem_keys_iff.mp ((OrderedMap.contains_iff _ _).mp hcontains)

end Diagram

namespace Workbench

lemma resolveStyle_of_get? {d : Diagram} {n : Id} {s : Style} (h : d.styles.get? n = some s)
    (w : Workbench) : w.resolveStyle d (some n) = pure s := by
  rw [resolveStyle, Option.bind_some, h]

/-- In a valid diagram the style of a component is what the last statement with its name declares,
and the settings of no workbench have a part in it. -/
theorem resolveStyle_declared {w : Workbench} {source : String} {d : Diagram}
    (h : (w.parse source).outcome = .ok d) {c : Component} (hc : c ∈ d.components.values) {n : Id}
    (hn : c.style = some n) :
    ∃ s, d.styles.get? n = some s ∧ s.name = n ∧
      (∀ v : Workbench, v.resolveStyle d c.style = pure s) ∧
      ∃ ss o, (parseStatements (tokenize source)).outcome = .ok ss ∧
        Occurrence.last? Occurrence.styleName? n (Statement.occurrencesAll [] ss) = some o ∧
        s.SetBy n o.statement.attributes := by
  have hvalid := (w.parse_eq_ok_iff source d).mp h
  obtain ⟨ss, hss, hdeclared, -⟩ := Diagram.parseValid_of_parse (Diagram.parse_of_parseValid hvalid)
  obtain ⟨s, hs⟩ := Diagram.exists_style (Diagram.dangling_of_parseValid hvalid) hc hn
  obtain ⟨o, ho, hset⟩ := hdeclared.styles.value n s hs
  refine ⟨s, hs, hset.name, ?_, ss, o, hss, ho, hset⟩
  intro v
  rw [hn]
  exact v.resolveStyle_of_get? hs

/-- The component `b` refers to a style that is declared twice, once behind it; the style of the
container around it dangles. -/
def styledSource : String :=
  "style t color = red
container c { style net component b { type t } }
style t shape = cylinder"

theorem resolveStyle_of_styled : ∃ d c s, (parse {} styledSource).outcome = .ok d ∧
    c ∈ d.components.values ∧ c.style = some "t" ∧ d.styles.get? "t" = some s ∧
    s.shape = .cylinder ∧ s.color = Style.defaultColor ∧
    ∀ v : Workbench, v.resolveStyle d c.style = pure s := by
  have hrun : (parse {} styledSource).outcome.toOption.any (fun d =>
      d.components.values.any (fun c => c.style = some "t") ∧
      (d.styles.get? "t").all fun s => s.shape = .cylinder ∧ s.color = Style.defaultColor) =
      true := by
    decide +kernel
  obtain ⟨d, hd, hvalues⟩ := Attempt.exists_eq_ok hrun
  obtain ⟨hany, hall⟩ := of_decide_eq_true hvalues
  obtain ⟨c, hc, hstyle⟩ := List.any_eq_true.mp hany
  have hstyle := of_decide_eq_true hstyle
  obtain ⟨s, hs, -, hresolved, -⟩ := resolveStyle_declared hd hc hstyle
  rw [hs, Option.all_some] at hall
  obtain ⟨hshape, hcolor⟩ := of_decide_eq_true hall
  exact ⟨d, c, s, hd, hc, hstyle, hs, hshape, hcolor, hresolved⟩

end Workbench

end ArchDiagram
