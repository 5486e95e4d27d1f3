import Mathlib.Data.List.Forall2
import ArchDiagram.Proofs.Diagram.Redeclaration

/-! Dangling references as a document shows them. What a document declares and what it refers to can
be read off its statements, at whatever depth they stand; a diagram is valid exactly if all of these
references resolve, and otherwise there is one diagnostic for each that does not. -/
namespace ArchDiagram

namespace Occurrence

/-- Some component or container among the statements has this id. -/
def Declares (os : List Occurrence) (x : Id) : Prop :=
  x ∈ os.filterMap (entityId? .component) ∨ x ∈ os.filterMap (entityId? .container)

instance (os : List Occurrence) (x : Id) : Decidable (Declares os x) :=
  inferInstanceAs (Decidable (_ ∨ _))

/-- The style that the properties of an entity refer to. -/
def styleRef? (o : Occurrence) : Option Id :=
  lastProperty? [.type, .style] o.statement.properties

/-- All references of the statements lead to something that is declared before or after them. -/
structure Resolved (os : List Occurrence) : Prop where
  relation : ∀ r ∈ os.filterMap relation?, Declares os r.source ∧ Declares os r.target
  note : ∀ x ∈ os.filterMap noteTarget?, Declares os x
  style : ∀ x o, last? (entityId? .component) x os = some o →
    ∀ name ∈ o.styleRef?, name ∈ os.filterMap styleName?

end Occurrence

/-- A reference that does not resolve: its kind, and the place of the statement that makes it. -/
structure Violation where
  code : Code
  span : Span
deriving DecidableEq, Repr

namespace Occurrence

def endViolations (os : List Occurrence) (r : Relation) : List Violation :=
  (if Declares os r.source then [] else [⟨.undefinedSource, r.span⟩]) ++
    (if Declares os r.target then [] else [⟨.undefinedTarget, r.span⟩])

/-- Of several annotations of one entity the last one counts. -/
def noteViolations (os : List Occurrence) (x : Id) : List Violation :=
  if Declares os x then []
  else (last? noteTarget? x os).toList.map fun o => ⟨.undefinedAnnotated, o.statement.span⟩

/-- Of several declarations of one component the last one counts. -/
def styleViolations (os : List Occurrence) (x : Id) : List Violation :=
  (last? (entityId? .component) x os).toList.flatMap fun o =>
    match o.styleRef? with
    | none => []
    | some name =>
      if name ∈ os.filterMap styleName? then [] else [⟨.undefinedStyle, o.statement.span⟩]

/-- The violations of a document: those of relations in their order, then of annotated entities and
of components, each in the order in which they first occur. -/
def violations (os : List Occurrence) : List Violation :=
  (os.filterMap relation?).flatMap (endViolations os) ++
    (os.filterMap noteTarget?).eraseDups.flatMap (noteViolations os) ++
    (os.filterMap (entityId? .component)).eraseDups.flatMap (styleViolations os)

lemma mem_filterMap_iff {key : Occurrence → Option Id} {x : Id} {os : List Occurrence} :
    x ∈ os.filterMap key ↔ ∃ o, last? key x os = some o := by
  have hsome : (∃ o, last? key x os = some o) ↔ (last? key x os).isSome = true :=
    Option.isSome_iff_exists.symm
  rw [hsome, last?, List.find?_isSome]
  simp

lemma endViolations_eq_nil_iff {os : List Occurrence} {r : Relation} :
    endViolations os r = [] ↔ Declares os r.source ∧ Declares os r.target := by
  rw [endViolations, List.append_eq_nil_iff]
  by_cases hs : Declares os r.source <;> by_cases ht : Declares os r.target <;> simp [hs, ht]

lemma noteViolations_eq_nil_iff {os : List Occurrence} {x : Id}
    (hx : x ∈ os.filterMap noteTarget?) : noteViolations os x = [] ↔ Declares os x := by
  obtain ⟨o, ho⟩ := mem_filterMap_iff.mp hx
  rw [noteViolations, ho]
  by_cases hd : Declares os x <;> simp [hd]

lemma styleViolations_eq_nil_iff {os : List Occurrence} {x : Id} {o : Occurrence}
    (ho : last? (entityId? .component) x os = some o) : styleViolations os x = [] ↔
      ∀ name ∈ o.styleRef?, name ∈ os.filterMap styleName? := by
  rw [styleViolations, ho, Option.toList_some, List.flatMap_singleton]
  cases o.styleRef? with
  | none => simp
  | some name =>
    simp only [Option.mem_some_iff, forall_eq']
    by_cases hn : name ∈ os.filterMap styleName?
    · rw [if_pos hn]
      exact iff_of_true rfl hn
    · rw [if_neg hn]
      exact iff_of_false (List.cons_ne_nil _ _) hn

theorem violations_eq_nil_iff {os : List Occurrence} : violations os = [] ↔ Resolved os := by
  rw [violations, List.append_eq_nil_iff, List.append_eq_nil_iff, List.flatMap_eq_nil_iff,
    List.flatMap_eq_nil_iff, List.flatMap_eq_nil_iff]
  constructor
  · rintro ⟨⟨hrelations, hnotes⟩, hstyles⟩
    refine ⟨?_, ?_, ?_⟩
    · intro r hr
      exact endViolations_eq_nil_iff.mp (hrelations r hr)
    · intro x hx
      exact (noteViolations_eq_nil_iff hx).mp (hnotes x (List.mem_eraseDups.mpr hx))
    · intro x o ho
      have hx := mem_filterMap_iff.mpr ⟨o, ho⟩
      exact (styleViolations_eq_nil_iff ho).mp (hstyles x (List.mem_eraseDups.mpr hx))
  · intro h
    refine ⟨⟨?_, ?_⟩, ?_⟩
    · intro r hr
      exact endViolations_eq_nil_iff.mpr (h.relation r hr)
    · intro x hx
      have hx := List.mem_eraseDups.mp hx
      exact (noteViolations_eq_nil_iff hx).mpr (h.note x hx)
    · intro x hx
      obtain ⟨o, ho⟩ := mem_filterMap_iff.mp (List.mem_eraseDups.mp hx)
      exact (styleViolations_eq_nil_iff ho).mpr (h.style x o ho)

end Occurrence

/-- The diagnostic has the code of the violation, and its one label is the place of it. -/
structure Diagnostic.Reports (d : Diagnostic) (v : Violation) : Prop where
  code : d.code = some v.code
  label : ∃ text, d.labels = [⟨v.span, text, true⟩]

lemma forall₂_flatMap {α β γ : Type} {R : β → γ → Prop} {f : α → List β} {g : α → List γ}
    (as : List α) (h : ∀ a ∈ as, List.Forall₂ R (f a) (g a)) :
    List.Forall₂ R (as.flatMap f) (as.flatMap g) := by
  induction as with
  | nil => exact .nil
  | cons a as ih =>
    rw [List.flatMap_cons, List.flatMap_cons]
    have ha := h a List.mem_cons_self
    have has := ih fun b hb => h b (List.mem_cons_of_mem a hb)
    exact List.rel_append ha has

lemma eq_of_mem_ite {α : Type} {P : Prop} [Decidable P] {a b : α}
    (h : a ∈ if P then [] else [b]) : a = b := by
  split_ifs at h
  · cases h
  · exact List.mem_singleton.mp h

/-- What is found in the values of a map, against what is found for its keys. -/
lemma OrderedMap.forall₂_flatMap_values {β γ δ : Type} {R : γ → δ → Prop} {m : OrderedMap Id β}
    {f : β → List γ} {g : Id → List δ}
    (h : ∀ x v, m.get? x = some v → List.Forall₂ R (f v) (g x)) :
    List.Forall₂ R (m.values.flatMap f) (m.keys.flatMap g) := by
  rw [values, keys, List.flatMap_map, List.flatMap_map]
  apply forall₂_flatMap
  rintro ⟨x, v⟩ hmem
  exact h x v (get?_eq_some_iff.mpr hmem)

namespace Diagram
namespace DeclaredBy
open Occurrence

variable {d : Diagram} {os : List Occurrence}

lemma keys_components (h : d.DeclaredBy os) :
    d.components.keys = (os.filterMap (entityId? .component)).eraseDups := by
  rw [← h.components.keys, OrderedMap.keys_map]

lemma keys_containers (h : d.DeclaredBy os) :
    d.containers.keys = (os.filterMap (entityId? .container)).eraseDups := by
  rw [← h.containers.keys, OrderedMap.keys_map]

lemma hasEntity_iff (h : d.DeclaredBy os) {x : Id} : d.hasEntity x = true ↔ Declares os x := by
  rw [hasEntity, Bool.or_eq_true, OrderedMap.contains_iff, OrderedMap.contains_iff,
    h.keys_components, h.keys_containers, List.mem_eraseDups, List.mem_eraseDups]
  rfl

lemma reports_ends (h : d.DeclaredBy os) (r : Relation) :
    List.Forall₂ (fun w v => w.diagnostic.Reports v) (d.danglingEnds r) (endViolations os r) := by
  rw [danglingEnds, endViolations]
  apply List.rel_append
  · by_cases hs : Declares os r.source
    · rw [if_pos (h.hasEntity_iff.mpr hs), if_pos hs]
      exact .nil
    · rw [if_neg (mt h.hasEntity_iff.mp hs), if_neg hs]
      exact .cons ⟨rfl, _, rfl⟩ .nil
  · by_cases ht : Declares os r.target
    · rw [if_pos (h.hasEntity_iff.mpr ht), if_pos ht]
      exact .nil
    · rw [if_neg (mt h.hasEntity_iff.mp ht), if_neg ht]
      exact .cons ⟨rfl, _, rfl⟩ .nil

lemma reports_note (h : d.DeclaredBy os) {x : Id} {n : Note} (hn : d.notes.get? x = some n) :
    List.Forall₂ (fun w v => w.diagnostic.Reports v) (d.danglingTarget n) (noteViolations os x) := by
  obtain ⟨o, ho, hset⟩ := h.notes.value x n hn
  rw [danglingTarget, noteViolations, hset.target, ho, Option.toList_some, List.map_singleton,
    ← hset.span]
  by_cases hx : Declares os x
  · rw [if_pos (h.hasEntity_iff.mpr hx), if_pos hx]
    exact .nil
  · rw [if_neg (mt h.hasEntity_iff.mp hx), if_neg hx]
    exact .cons ⟨rfl, _, rfl⟩ .nil

lemma component (h : d.DeclaredBy os) {x : Id} {c : Component}
    (hc : d.components.get? x = some c) :
    ∃ o, last? (entityId? .component) x os = some o ∧ c.toEntity.DeclaredBy .component x o := by
  apply h.components.value
  rw [OrderedMap.get?_map, hc]
  rfl

lemma reports_style (h : d.DeclaredBy os) {x : Id} {c : Component}
    (hc : d.components.get? x = some c) :
    List.Forall₂ (fun w v => w.diagnostic.Reports v) (d.danglingStyle c) (styleViolations os x) := by
  obtain ⟨o, ho, hdeclared⟩ := h.component hc
  have hstyle : c.style = o.styleRef? := hdeclared.style
  have hspan : c.span = o.statement.span := hdeclared.span
  rw [danglingStyle, styleViolations, ho, Option.toList_some, List.flatMap_singleton, hstyle,
    ← hspan]
  cases o.styleRef? with
  | none => exact .nil
  | some name =>
    have hcontains : d.styles.contains name = true ↔ name ∈ os.filterMap styleName? := by
      rw [OrderedMap.contains_iff, h.styles.keys, List.mem_eraseDups]
    by_cases hname : name ∈ os.filterMap styleName?
    · simp only [if_pos (hcontains.mpr hname), if_pos hname]
      exact .nil
    · simp only [if_neg (mt hcontains.mp hname), if_neg hname]
      exact .cons ⟨rfl, _, rfl⟩ .nil

/-- The dangling references of a diagram are the violations of its document, one by one. -/
theorem reports_dangling (h : d.DeclaredBy os) :
    List.Forall₂ (fun w v => w.diagnostic.Reports v) d.dangling (violations os) := by
  have hnotes := OrderedMap.forall₂_flatMap_values fun x n hn => h.reports_note (x := x) (n := n) hn
  have hstyles := OrderedMap.forall₂_flatMap_values fun x c hc => h.reports_style (x := x) (c := c) hc
  rw [h.notes.keys] at hnotes
  rw [h.keys_components] at hstyles
  have hends := forall₂_flatMap d.relations fun r _ => h.reports_ends r
  rw [dangling, violations, ← h.relations]
  exact List.rel_append (List.rel_append hends hnotes) hstyles

lemma dangling_eq_nil_iff (h : d.DeclaredBy os) : d.dangling = [] ↔ Resolved os := by
  rw [← violations_eq_nil_iff, ← List.length_eq_zero_iff, ← List.length_eq_zero_iff,
    h.reports_dangling.length_eq]

end DeclaredBy

lemma outcome_validate (d : Diagram) : d.validate.outcome =
    if d.dangling = [] then .ok () else .error ⟨d.dangling.map Dangling.diagnostic⟩ := by
  rw [validate]
  by_cases hd : d.dangling = [] <;> simp [hd]

lemma outcome_parseValid (source : String) : (parseValid source).outcome =
    (parse source).outcome.bind fun d => d.validate.outcome.map fun _ => d := by
  rw [parseValid, Attempt.outcome_bind]
  congr 1
  funext d
  rw [Attempt.outcome_bind]
  cases d.validate.outcome <;> rfl

/-- Validation adds nothing to a diagram. -/
lemma parse_of_parseValid {source : String} {d : Diagram}
    (h : (parseValid source).outcome = .ok d) : (parse source).outcome = .ok d := by
  rw [outcome_parseValid] at h
  cases hp : (parse source).outcome with
  | error f =>
    rw [hp] at h
    cases h
  | ok e =>
    rw [hp, Except.bind] at h
    cases hv : e.validate.outcome with
    | error f =>
      rw [hv] at h
      cases h
    | ok u =>
      rw [hv] at h
      exact h

/-- An accepted source is valid if nothing dangles in the diagram that its statements declare. -/
lemma parseValid_of_parse {source : String} {d : Diagram} (h : (parse source).outcome = .ok d) :
    ∃ ss, (parseStatements (tokenize source)).outcome = .ok ss ∧
      d.DeclaredBy (Statement.occurrencesAll [] ss) ∧ (parseValid source).outcome =
        if d.dangling = [] then .ok d else .error ⟨d.dangling.map Dangling.diagnostic⟩ := by
  obtain ⟨ss, hss, e, he, rfl⟩ := parse_eq_ok_iff.mp h
  refine ⟨ss, hss, Draft.declaredBy_placeAll he, ?_⟩
  rw [outcome_parseValid, h, Except.bind, outcome_validate]
  split_ifs
  · rfl
  · rfl

/-- A source is valid exactly if it is accepted and the references of its statements resolve;
otherwise each violation has its diagnostic, in their order. -/
theorem parseValid_resolves (source : String) :
    (∀ d, (parseValid source).outcome = .ok d ↔ (parse source).outcome = .ok d ∧
      ∃ ss, (parseStatements (tokenize source)).outcome = .ok ss ∧
        Occurrence.Resolved (Statement.occurrencesAll [] ss)) ∧
    ∀ d f, (parse source).outcome = .ok d → (parseValid source).outcome = .error f →
      ∃ ss, (parseStatements (tokenize source)).outcome = .ok ss ∧
        List.Forall₂ Diagnostic.Reports f.diagnostics
          (Occurrence.violations (Statement.occurrencesAll [] ss)) := by
  refine ⟨fun d => ⟨?_, ?_⟩, ?_⟩
  · intro h
    have hd := parse_of_parseValid h
    obtain ⟨ss, hss, hdeclared, hv⟩ := parseValid_of_parse hd
    refine ⟨hd, ss, hss, ?_⟩
    rw [hv] at h
    split_ifs at h with hnone
    exact hdeclared.dangling_eq_nil_iff.mp hnone
  · rintro ⟨hd, ss, hss, hresolved⟩
    obtain ⟨ss', hss', hdeclared, hv⟩ := parseValid_of_parse hd
    obtain rfl : ss = ss' := Except.ok.inj (hss.symm.trans hss')
    rw [hv, if_pos (hdeclared.dangling_eq_nil_iff.mpr hresolved)]
  · intro d f hd hf
    obtain ⟨ss, hss, hdeclared, hv⟩ := parseValid_of_parse hd
    refine ⟨ss, hss, ?_⟩
    rw [hv] at hf
    split_ifs at hf
    obtain rfl := Except.error.inj hf
    exact List.forall₂_map_left_iff.mpr hdeclared.reports_dangling

/-- The style `t` stands in a container and does not count, `u` is declared after its use, and only
the last annotation of `z` is reported. -/
def danglingSource : String :=
  "container c { component x { type u } style t icon = i }
component y { type t }
annotation z { }
relation x -> w
relation v -> c
annotation z { tooltip k }
component x { style u }
style u color = red"

/-- The kind and the place of each diagnostic. -/
def reportedViolations (f : Failure) : List (Option Code × List Span) :=
  f.diagnostics.map fun d => (d.code, d.labels.map Label.span)

theorem resolves_of_dangling : ∃ d f, (parse danglingSource).outcome = .ok d ∧
    (parseValid danglingSource).outcome = .error f ∧
    reportedViolations f =
      [(some .undefinedTarget, [⟨96, 111⟩]), (some .undefinedSource, [⟨112, 127⟩]),
        (some .undefinedAnnotated, [⟨128, 154⟩]), (some .undefinedStyle, [⟨56, 78⟩])] ∧
    ∃ ss, (parseStatements (tokenize danglingSource)).outcome = .ok ss ∧
      List.Forall₂ Diagnostic.Reports f.diagnostics
        (Occurrence.violations (Statement.occurrencesAll [] ss)) := by
  have hparse : (parse danglingSource).outcome.toOption.any (fun d => d.components.size = 2) =
      true := by
    decide +kernel
  have hrun : (parseValid danglingSource).outcome.mapError reportedViolations =
      .error [(some .undefinedTarget, [⟨96, 111⟩]), (some .undefinedSource, [⟨112, 127⟩]),
        (some .undefinedAnnotated, [⟨128, 154⟩]), (some .undefinedStyle, [⟨56, 78⟩])] := by
    decide +kernel
  obtain ⟨d, hd, -⟩ := Attempt.exists_eq_ok hparse
  cases hf : (parseValid danglingSource).outcome with
  | ok e =>
    rw [hf] at hrun
    cases hrun
  | error f =>
    rw [hf] at hrun
    exact ⟨d, f, hd, rfl, Except.error.inj hrun, (parseValid_resolves danglingSource).2 d f hd hf⟩

end Diagram

end ArchDiagram
