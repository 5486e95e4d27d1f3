import ArchDiagram.Proofs.Statement.Completion
import ArchDiagram.Proofs.Statement.Extent
import ArchDiagram.Proofs.Token.Placement
import ArchDiagram.Proofs.Workbench

/-! Reports against the source. Every label of a diagnostic is made of tokens: of the one where parsing
stopped, of an id, or of the first and the last token of a statement. So the marks of a report begin
and end between two characters of the source, and none of them is empty. -/
namespace ArchDiagram

/-- The span selects characters of the source: one at least, and each as a whole. -/
structure Span.Selects (s : Span) (source : String) : Prop where
  nonempty : s.start < s.stop
  start_valid : String.Pos.Raw.IsValid source ⟨s.start⟩
  stop_valid : String.Pos.Raw.IsValid source ⟨s.stop⟩

/-- There are labels, and all of them select something. -/
structure Diagnostic.PointsInto (d : Diagnostic) (source : String) : Prop where
  ne_nil : d.labels ≠ []
  selects : ∀ l ∈ d.labels, l.span.Selects source

/-- The mark goes from the start of the label to its end. -/
structure Mark.Renders (m : Mark) (l : Label) : Prop where
  start : m.offset = l.span.start
  stop : m.offset + m.length = l.span.stop
  message : m.message = l.message
  primary : m.primary = l.primary

/-- The mark stands in the source and covers whole characters. -/
structure Mark.Covers (m : Mark) (source : String) : Prop where
  length_pos : 1 ≤ m.length
  bound : m.offset + m.length ≤ source.utf8ByteSize
  start_valid : String.Pos.Raw.IsValid source ⟨m.offset⟩
  stop_valid : String.Pos.Raw.IsValid source ⟨m.offset + m.length⟩

/-- The report has the texts of the diagnostic, and a mark in the source for each of its labels. -/
structure Report.Renders (r : Report) (d : Diagnostic) (source : String) : Prop where
  message : r.message = d.message
  code : r.code = d.code.map Code.text
  help : r.help = d.help
  marks : ∃ marks, r.marks = some marks ∧ marks ≠ [] ∧
    List.Forall₂ (fun m l => m.Renders l ∧ m.Covers source) marks d.labels

lemma Label.renders_toMark {l : Label} {source : String} (h : l.span.Selects source) :
    l.toMark.Renders l ∧ l.toMark.Covers source := by
  have hstop : l.toMark.offset + l.toMark.length = l.span.stop := by
    change l.span.start + (l.span.stop - l.span.start) = l.span.stop
    have hlt := h.nonempty
    omega
  refine ⟨⟨rfl, hstop, rfl, rfl⟩, ?_, ?_, h.start_valid, ?_⟩
  · have hlt := h.nonempty
    change 1 ≤ l.span.stop - l.span.start
    omega
  · rw [hstop]
    exact h.stop_valid.le_utf8ByteSize
  · rw [hstop]
    exact h.stop_valid

lemma Diagnostic.PointsInto.renders {d : Diagnostic} {source : String} (h : d.PointsInto source) :
    d.toReport.Renders d source := by
  refine ⟨rfl, rfl, rfl, d.labels.map Label.toMark, ?_, ?_, ?_⟩
  · rw [toReport, if_neg]
    simpa using h.ne_nil
  · simpa using h.ne_nil
  · rw [List.forall₂_map_left_iff, List.forall₂_same]
    intro l hl
    exact Label.renders_toMark (h.selects l hl)

lemma Diagnostic.pointsInto_of_label {d : Diagnostic} {source : String} {span : Span}
    {text : String} {primary : Bool} (h : d.labels = [⟨span, text, primary⟩])
    (hspan : span.Selects source) : d.PointsInto source := by
  refine ⟨by simp [h], ?_⟩
  rw [h]
  intro l hl
  obtain rfl := List.mem_singleton.mp hl
  exact hspan

lemma selects_of_token {source : String} {t : Token} (ht : t ∈ tokenize source) :
    t.span.Selects source := by
  have hslice := (lexFrom_partition 1 0 source.toList).sliceOf t ht
  have hbounds := (tokenize_between source).bounds t ht
  exact ⟨hbounds.2.1, hslice.start_valid, hslice.stop_valid⟩

/-- The statement and all that it names select something. -/
structure Statement.Selects (s : Statement) (source : String) : Prop where
  span : s.span.Selects source
  parts : ∀ p ∈ s.parts, p.Selects source

lemma selects_of_occurrence {source : String} {ss : List Statement}
    (h : (parseStatements (tokenize source)).outcome = .ok ss) {o : Occurrence}
    (ho : o ∈ Statement.occurrencesAll [] ss) : o.statement.Selects source := by
  obtain ⟨before, used, after, htokens, htakes⟩ := parseStatements_takes h o ho
  have hmem : ∀ t ∈ used, t ∈ tokenize source := by
    intro t ht
    rw [htokens]
    simp [ht]
  have hbetween : TokensBetween 0 (Text.utf8Length source.toList) used := by
    have hall := tokenize_between source
    rw [htokens] at hall
    exact hall.middle
  obtain ⟨k, l, hk, hl, -, hspan⟩ := htakes.frame.ends.span_eq hbetween
  have hfirst := selects_of_token (hmem k (List.mem_of_head? hk))
  have hlast := selects_of_token (hmem l (List.mem_of_getLast? hl))
  constructor
  · rw [hspan]
    refine ⟨?_, hfirst.start_valid, hlast.stop_valid⟩
    have hle := hbetween.start_le_of_head? hk (List.mem_of_getLast? hl)
    exact Nat.lt_of_le_of_lt hle hlast.nonempty
  · intro p hp
    obtain ⟨t, ht, rfl⟩ := List.mem_map.mp (htakes.frame.parts hp)
    exact selects_of_token (hmem t ht)

/-- A fault of the syntax points at a token, at the end of the input at the last one. -/
lemma SyntaxFault.labels_locate {ts rest : List Token} (cause : Cause) (hts : ts ≠ [])
    (hrest : rest ⊆ ts) :
    ∃ t ∈ ts, ∃ text, (locate ts cause rest).diagnostic.labels = [⟨t.span, text, true⟩] := by
  cases rest with
  | nil =>
    refine ⟨ts.getLast hts, List.getLast_mem hts, "input ends after this token", ?_⟩
    rw [locate, List.getLast?_eq_some_getLast hts]
    rfl
  | cons t rest =>
    refine ⟨t, hrest List.mem_cons_self, ?_⟩
    cases cause with
    | expected what => exact ⟨_, rfl⟩
    | unknownStatement => exact ⟨_, rfl⟩
    | tooDeep => exact ⟨_, rfl⟩

lemma pointsInto_of_parseStatements {source : String} {fault : SyntaxFault}
    (h : (parseStatements (tokenize source)).outcome = .error fault) :
    fault.diagnostic.PointsInto source := by
  obtain ⟨cause, rest, hstop, rfl⟩ := parseStatements_eq_error_iff.mp h
  have hne : tokenize source ≠ [] := by
    intro hnil
    rw [hnil] at hstop
    cases hstop
  obtain ⟨used, -, -, hused, -⟩ := hstop.completed
  have hrest : rest ⊆ tokenize source := by
    rw [hused]
    exact List.subset_append_right used rest
  obtain ⟨t, ht, text, hlabels⟩ := SyntaxFault.labels_locate cause hne hrest
  exact Diagnostic.pointsInto_of_label hlabels (selects_of_token ht)

lemma pointsInto_of_placeAll {source : String} {ss : List Statement} {fault : NestingFault}
    (hss : (parseStatements (tokenize source)).outcome = .ok ss)
    (h : (Draft.placeAll [] .empty ss).outcome = .error fault) :
    fault.diagnostic.PointsInto source := by
  have hsettles := Draft.settles_placeAll Draft.recalls_empty ss
  change Draft.Settles [] _ (Draft.placeAll [] .empty ss).outcome at hsettles
  rw [h] at hsettles
  obtain ⟨before, x, after, hsites, -, span, id, ps, body, outer, hs, houter, rfl⟩ := hsettles
  have hall : ∀ x ∈ Statement.sitesAll [] ss,
      x.statement.Selects source ∧ ∀ a ∈ x.around, a.Selects source :=
    Statement.forall_sitesAll (P := fun s => s.Selects source) (by simp) ss
      fun o ho => selects_of_occurrence hss ho
  obtain ⟨hx, haround⟩ := hall x (by simp [hsites])
  have hmem : outer ∈ x.around := by
    have hmem : outer ∈ x.around.filter fun s => s.containerId? = some id.value := by simp [houter]
    exact (List.mem_filter.mp hmem).1
  rw [hs] at hx
  have hid : id.span.Selects source := hx.parts id.span (by simp [Statement.parts])
  refine ⟨List.cons_ne_nil _ _, ?_⟩
  change ∀ l ∈ [⟨id.span, "nested declaration", true⟩,
    ⟨outer.span, "enclosing container declared here", false⟩], Span.Selects (Label.span l) source
  simpa using ⟨hid, (haround outer hmem).span⟩

lemma exists_of_forall₂ {α β : Type} {R : α → β → Prop} {as : List α} {bs : List β}
    (h : List.Forall₂ R as bs) {a : α} (ha : a ∈ as) : ∃ b ∈ bs, R a b := by
  induction h with
  | nil => cases ha
  | @cons c d as bs hcd _ ih =>
    obtain rfl | ha := List.mem_cons.mp ha
    · exact ⟨d, List.mem_cons_self, hcd⟩
    · obtain ⟨b, hb, hab⟩ := ih ha
      exact ⟨b, List.mem_cons_of_mem d hb, hab⟩

namespace Occurrence

lemma span_of_relation? {o : Occurrence} {r : Relation} (h : o.relation? = some r) :
    r.span = o.statement.span := by
  obtain ⟨opened, s⟩ := o
  cases opened <;> cases s <;> cases h
  rfl

/-- A violation has the place of a statement. -/
lemma exists_of_mem_violations {os : List Occurrence} {v : Violation} (h : v ∈ violations os) :
    ∃ o ∈ os, v.span = o.statement.span := by
  rw [violations, List.mem_append, List.mem_append, List.mem_flatMap, List.mem_flatMap,
    List.mem_flatMap] at h
  obtain (⟨r, hr, hv⟩ | ⟨x, -, hv⟩) | ⟨x, -, hv⟩ := h
  · obtain ⟨o, ho, hor⟩ := List.mem_filterMap.mp hr
    refine ⟨o, ho, ?_⟩
    rw [endViolations, List.mem_append] at hv
    obtain hv | hv := hv
    · rw [eq_of_mem_ite hv, span_of_relation? hor]
    · rw [eq_of_mem_ite hv, span_of_relation? hor]
  · rw [noteViolations] at hv
    split_ifs at hv with hx
    · cases hv
    · obtain ⟨o, ho, rfl⟩ := List.mem_map.mp hv
      exact ⟨o, mem_of_last? (Option.mem_toList.mp ho), rfl⟩
  · obtain ⟨o, ho, hv⟩ := List.mem_flatMap.mp hv
    refine ⟨o, mem_of_last? (Option.mem_toList.mp ho), ?_⟩
    split at hv
    · cases hv
    · rw [eq_of_mem_ite hv]

end Occurrence

namespace Diagram

lemma pointsInto_of_dangling {source : String} {d : Diagram} {ss : List Statement}
    (hss : (parseStatements (tokenize source)).outcome = .ok ss)
    (hd : d.DeclaredBy (Statement.occurrencesAll [] ss)) :
    ∀ w ∈ d.dangling, w.diagnostic.PointsInto source := by
  intro w hw
  obtain ⟨v, hv, hreports⟩ := exists_of_forall₂ hd.reports_dangling hw
  obtain ⟨text, hlabels⟩ := hreports.label
  obtain ⟨o, ho, hspan⟩ := Occurrence.exists_of_mem_violations hv
  apply Diagnostic.pointsInto_of_label hlabels
  rw [hspan]
  exact (selects_of_occurrence hss ho).span

theorem pointsInto_of_parseValid {source : String} {f : Failure}
    (h : (parseValid source).outcome = .error f) : ∀ d ∈ f.diagnostics, d.PointsInto source := by
  refine forall_diagnostics (P := fun d => d.PointsInto source) h ?_ ?_ ?_
  · intro fault
    exact pointsInto_of_parseStatements
  · intro ss fault
    exact pointsInto_of_placeAll
  · intro ss d
    exact pointsInto_of_dangling

end Diagram

namespace Workbench

/-- A problem with a source has one report for each diagnostic, in their order, and each report has
marks. These are where the labels are: in the source, one character or more, and none cut in two. -/
theorem parse_reports_render {w : Workbench} {source : String} {p : Problem}
    (h : (w.parse source).outcome = .error p) :
    ∃ f, p.failure? = some (f, source) ∧ f.diagnostics ≠ [] ∧
      List.Forall₂ (fun r d => r.Renders d source) p.reports f.diagnostics := by
  obtain ⟨f, hf, hp⟩ := parse_eq_error h
  have hfailure : p.failure? = some (f, source) ∧ f.diagnostics ≠ [] := by
    obtain ⟨rfl, huniform⟩ | ⟨rfl, huniform⟩ := hp
    · exact ⟨rfl, huniform.ne_nil⟩
    · exact ⟨rfl, huniform.ne_nil⟩
  refine ⟨f, hfailure.1, hfailure.2, ?_⟩
  rw [Problem.reports, hfailure.1]
  simp only [List.forall₂_map_left_iff, List.forall₂_same]
  intro d hd
  exact (Diagram.pointsInto_of_parseValid hf d hd).renders

/-- The container around is labelled as a whole, with a letter of two bytes in it. -/
def accentedSource : String :=
  "container a \x7b label \"ü\" container a \x7b \x7d \x7d"

theorem reports_render_of_accented : ∃ p f,
    (({} : Workbench).parse accentedSource).outcome = .error p ∧
    p.reports.map (fun r => r.marks.map (List.map fun m => (m.offset, m.length))) =
      [some [(35, 1), (0, 42)]] ∧
    p.failure? = some (f, accentedSource) ∧ f.diagnostics ≠ [] ∧
    List.Forall₂ (fun r d => r.Renders d accentedSource) p.reports f.diagnostics := by
  have hrun : (({} : Workbench).parse accentedSource).outcome =
      .error (.parse ⟨[(NestingFault.selfNested ⟨"a", ⟨35, 36⟩⟩ ⟨0, 42⟩).diagnostic]⟩
        accentedSource) :=
    Attempt.outcome_eq_error (by decide +kernel)
  obtain ⟨f, hf⟩ := parse_reports_render hrun
  exact ⟨_, f, hrun, rfl, hf⟩

end Workbench

end ArchDiagram
