import ArchDiagram.Proofs.Statement.Completion
import ArchDiagram.Proofs.Statement.Wording
import ArchDiagram.Proofs.Token.Lexeme
import ArchDiagram.Proofs.Workbench

/-! Failures as text. What a message quotes is the value of a token, and tokens do not go on over
the end of a line; so a failure has one line for each of its diagnostics, and can be taken apart
again. -/
namespace ArchDiagram

namespace Text

/-- No line ends inside the text. -/
def OneLine (s : String) : Prop :=
  '\n' ∉ s.toList

instance (s : String) : Decidable (OneLine s) :=
  inferInstanceAs (Decidable (¬ _))

@[simp] lemma oneLine_append (s t : String) : OneLine (s ++ t) ↔ OneLine s ∧ OneLine t := by
  simp [OneLine]

@[simp] lemma oneLine_string (s : String) : OneLine (toString s) ↔ OneLine s := Iff.rfl

@[simp] lemma oneLine_repr (n : ℕ) : OneLine n.repr := by
  intro h
  rw [Nat.toList_repr] at h
  have hdigit := Nat.isDigit_of_mem_toDigits (by decide) (by decide) h
  simp at hdigit

/-- Between lines there is one line break less. -/
lemma count_intercalate {ls : List (List Char)} (h : ∀ l ∈ ls, '\n' ∉ l) (hne : ls ≠ []) :
    (['\n'].intercalate ls).count '\n' + 1 = ls.length := by
  induction ls with
  | nil => exact absurd rfl hne
  | cons l ls ih =>
    rw [List.forall_mem_cons] at h
    have hl : l.count '\n' = 0 := List.count_eq_zero.mpr h.1
    cases ls with
    | nil => simp [hl]
    | cons l' ls =>
      have hls := ih h.2 (List.cons_ne_nil _ _)
      rw [List.intercalate_cons_cons, List.count_append, List.count_append, hl, List.length_cons,
        ← hls]
      simp [Nat.add_comm]

end Text

open Text

namespace Diagnostic

@[simp] lemma message_error (message : String) : (error message).message = message := rfl

section
variable (d : Diagnostic) (code : Code) (span : Span) (text : String)

@[simp] lemma message_withCode : (d.withCode code).message = d.message := rfl

@[simp] lemma message_withLabel : (d.withLabel span text).message = d.message := rfl

@[simp] lemma message_withSecondary : (d.withSecondary span text).message = d.message := rfl

@[simp] lemma message_withHelp : (d.withHelp text).message = d.message := rfl

end

end Diagnostic

namespace Token

lemma oneLine_value {source : String} {t : Token} (ht : t ∈ tokenize source) :
    OneLine t.value := by
  have htext := newline_not_mem_text ht
  rw [text] at htext
  split_ifs at htext
  · simpa [OneLine] using htext
  · exact htext

lemma oneLine_describe {t : Token} (h : OneLine t.value) : OneLine t.describe := by
  have hkind : OneLine t.kind.name := by
    cases t.kind <;> simp +decide [TokenKind.name]
  simp +decide [describe, hkind, h]

end Token

lemma Expectation.oneLine_text (what : Expectation) : OneLine what.text := by
  cases what <;> decide

/-- A fault of the syntax quotes the token where parsing stopped. -/
lemma SyntaxFault.oneLine_locate {ts rest : List Token} (cause : Cause)
    (h : ∀ t ∈ rest, OneLine t.value) : OneLine (locate ts cause rest).diagnostic.message := by
  cases rest with
  | nil =>
    cases cause with
    | expected what => simp +decide [locate, diagnostic, what.oneLine_text]
    | unknownStatement | tooDeep => simp +decide [locate, diagnostic]
  | cons t rest =>
    have ht := Token.oneLine_describe (h t List.mem_cons_self)
    cases cause with
    | expected what => simp +decide [locate, diagnostic, what.oneLine_text, ht]
    | unknownStatement => simp +decide [locate, diagnostic, ht]
    | tooDeep => simp +decide [locate, diagnostic]

lemma NestingFault.oneLine_selfNested {id : Located Id} (h : OneLine id.value) (enclosing : Span) :
    OneLine (selfNested id enclosing).diagnostic.message := by
  simp +decide [diagnostic, h]

namespace Dangling

/-- The names that the message quotes. -/
def names : Dangling → List Id
  | source r => [r.source]
  | target r => [r.target]
  | annotated a => [a.target]
  | style name c => [name, c.id]

lemma oneLine_message {w : Dangling} (h : ∀ x ∈ w.names, OneLine x) :
    OneLine w.diagnostic.message := by
  cases w with
  | source r => simp +decide [diagnostic, h r.source (by simp [names])]
  | target r => simp +decide [diagnostic, h r.target (by simp [names])]
  | annotated a => simp +decide [diagnostic, h a.target (by simp [names])]
  | style name c =>
    simp +decide [diagnostic, h name (by simp [names]), h c.id (by simp [names])]

end Dangling

namespace Occurrence

lemma mem_texts_of_relation? {o : Occurrence} {r : Relation} (h : o.relation? = some r) :
    r.source ∈ o.statement.texts ∧ r.target ∈ o.statement.texts := by
  obtain ⟨opened, s⟩ := o
  cases opened <;> cases s <;> cases h
  simp [Statement.texts, Statement.phrase, Phrase.texts]

lemma mem_texts_of_noteTarget? {o : Occurrence} {x : Id} (h : o.noteTarget? = some x) :
    x ∈ o.statement.texts := by
  obtain ⟨opened, s⟩ := o
  cases opened <;> cases s <;> cases h
  simp [Statement.texts, Statement.phrase, Phrase.texts]

lemma mem_texts_of_entityId? {kind : EntityKind} {o : Occurrence} {x : Id}
    (h : o.entityId? kind = some x) : x ∈ o.statement.texts := by
  obtain ⟨opened, s⟩ := o
  cases kind <;> cases s <;> cases h
  all_goals simp [Statement.texts, Statement.phrase, Phrase.texts]

lemma mem_texts_of_styleRef? {o : Occurrence} {x : Id} (h : o.styleRef? = some x) :
    x ∈ o.statement.texts := by
  rw [styleRef?, lastProperty?] at h
  obtain ⟨p, hp, rfl⟩ := Option.map_eq_some_iff.mp h
  have hmem : p ∈ o.statement.properties := List.mem_reverse.mp (List.mem_of_find?_eq_some hp)
  obtain ⟨opened, s⟩ := o
  cases s with
  | component | container | note =>
    refine List.mem_cons_of_mem _ ?_
    rw [List.map_map]
    exact List.mem_map.mpr ⟨p, hmem, rfl⟩
  | layout | style | relation => cases hmem

end Occurrence

namespace Diagram

/-- A name that dangles stands in a statement. -/
lemma DeclaredBy.names_dangling {d : Diagram} {os : List Occurrence} (h : d.DeclaredBy os) :
    ∀ w ∈ d.dangling, ∀ x ∈ w.names, ∃ o ∈ os, x ∈ o.statement.texts := by
  intro w hw x hx
  rw [dangling, List.mem_append, List.mem_append, List.mem_flatMap, List.mem_flatMap,
    List.mem_flatMap] at hw
  obtain (⟨r, hr, hw⟩ | ⟨n, hn, hw⟩) | ⟨c, hc, hw⟩ := hw
  · rw [h.relations] at hr
    obtain ⟨o, ho, hor⟩ := List.mem_filterMap.mp hr
    have hends := Occurrence.mem_texts_of_relation? hor
    rw [danglingEnds, List.mem_append] at hw
    obtain hw | hw := hw
    · obtain rfl := eq_of_mem_ite hw
      obtain rfl := List.mem_singleton.mp hx
      exact ⟨o, ho, hends.1⟩
    · obtain rfl := eq_of_mem_ite hw
      obtain rfl := List.mem_singleton.mp hx
      exact ⟨o, ho, hends.2⟩
  · obtain ⟨y, hy⟩ := OrderedMap.mem_values_iff.mp hn
    obtain ⟨o, ho, hkey, hset⟩ := h.notes.of_get? hy
    obtain rfl := eq_of_mem_ite hw
    obtain rfl := List.mem_singleton.mp hx
    rw [hset.target]
    exact ⟨o, ho, Occurrence.mem_texts_of_noteTarget? hkey⟩
  · obtain ⟨y, hy⟩ := OrderedMap.mem_values_iff.mp hc
    obtain ⟨o, ho, hmade⟩ := h.component hy
    have hstyle : c.style = o.styleRef? := hmade.style
    have hid : c.id = y := hmade.id
    refine ⟨o, Occurrence.mem_of_last? ho, ?_⟩
    rw [danglingStyle] at hw
    split at hw
    · cases hw
    · next name hname =>
      obtain rfl := eq_of_mem_ite hw
      rw [Dangling.names, List.mem_pair] at hx
      obtain rfl | rfl := hx
      · exact Occurrence.mem_texts_of_styleRef? (hstyle.symm.trans hname)
      · rw [hid]
        exact Occurrence.mem_texts_of_entityId? (Occurrence.key_of_last? ho)

lemma oneLine_of_parseStatements {source : String} {fault : SyntaxFault}
    (h : (parseStatements (tokenize source)).outcome = .error fault) :
    OneLine fault.diagnostic.message := by
  obtain ⟨cause, rest, hstop, rfl⟩ := parseStatements_eq_error_iff.mp h
  obtain ⟨used, -, -, hused, -⟩ := hstop.completed
  apply SyntaxFault.oneLine_locate
  intro t ht
  have hmem : t ∈ tokenize source := by
    rw [hused]
    exact List.mem_append_right used ht
  exact Token.oneLine_value hmem

/-- The texts of statements are values of tokens. -/
lemma oneLine_of_occurrence {source : String} {ss : List Statement}
    (h : (parseStatements (tokenize source)).outcome = .ok ss) {o : Occurrence}
    (ho : o ∈ Statement.occurrencesAll [] ss) : ∀ x ∈ o.statement.texts, OneLine x := by
  intro x hx
  obtain ⟨t, ht, rfl⟩ := List.mem_map.mp (parseStatements_texts h o ho hx)
  exact Token.oneLine_value ht

lemma oneLine_of_placeAll {source : String} {ss : List Statement} {fault : NestingFault}
    (hss : (parseStatements (tokenize source)).outcome = .ok ss)
    (h : (Draft.placeAll [] .empty ss).outcome = .error fault) :
    OneLine fault.diagnostic.message := by
  have hsettles := Draft.settles_placeAll Draft.recalls_empty ss
  change Draft.Settles [] _ (Draft.placeAll [] .empty ss).outcome at hsettles
  rw [h] at hsettles
  obtain ⟨before, x, after, hsites, -, span, id, ps, body, outer, hs, -, rfl⟩ := hsettles
  -- The message quotes the id of the container that is refused, which is one of the statements.
  have hall : ∀ x ∈ Statement.sitesAll [] ss,
      (∀ text ∈ x.statement.texts, OneLine text) ∧ ∀ a ∈ x.around, ∀ text ∈ a.texts, OneLine text :=
    Statement.forall_sitesAll (P := fun s => ∀ text ∈ s.texts, OneLine text) (by simp) ss
      fun o ho => oneLine_of_occurrence hss ho
  have hx := (hall x (by simp [hsites])).1
  rw [hs] at hx
  exact NestingFault.oneLine_selfNested (hx id.value List.mem_cons_self) outer.span

lemma oneLine_of_dangling {source : String} {d : Diagram} {ss : List Statement}
    (hss : (parseStatements (tokenize source)).outcome = .ok ss)
    (hd : d.DeclaredBy (Statement.occurrencesAll [] ss)) :
    ∀ w ∈ d.dangling, OneLine w.diagnostic.message := by
  intro w hw
  apply Dangling.oneLine_message
  intro x hx
  obtain ⟨o, ho, hox⟩ := hd.names_dangling w hw x hx
  exact oneLine_of_occurrence hss ho x hox

theorem oneLine_of_parseValid {source : String} {f : Failure}
    (h : (parseValid source).outcome = .error f) : ∀ d ∈ f.diagnostics, OneLine d.message := by
  refine forall_diagnostics (P := fun d => OneLine d.message) h ?_ ?_ ?_
  · intro fault
    exact oneLine_of_parseStatements
  · intro ss fault
    exact oneLine_of_placeAll
  · intro ss d
    exact oneLine_of_dangling

end Diagram

lemma Diagnostic.display_of_code {d : Diagnostic} {code : Code} (h : d.code = some code) :
    d.display = "error[" ++ code.text ++ "]: " ++ d.message := by
  rw [display, h]
  rfl

lemma Diagnostic.oneLine_display {d : Diagnostic} {code : Code} (h : d.code = some code)
    (hmessage : OneLine d.message) : OneLine d.display := by
  have hcode : OneLine code.text := by
    cases code <;> decide
  rw [display_of_code h]
  simp +decide [hcode, hmessage]

namespace Failure

variable {f : Failure} (hne : f.diagnostics ≠ []) (h : ∀ d ∈ f.diagnostics, OneLine d.display)

include hne h

lemma count_display : f.display.toList.count '\n' + 1 = f.diagnostics.length := by
  rw [display, String.toList_intercalate]
  have hlines : ∀ l ∈ (f.diagnostics.map Diagnostic.display).map String.toList, '\n' ∉ l := by
    simpa [OneLine] using h
  have hcount := count_intercalate hlines (by simpa using hne)
  simpa using hcount

lemma splitOn_display :
    f.display.toList.splitOn '\n' = f.diagnostics.map fun d => d.display.toList := by
  rw [display, String.toList_intercalate, List.map_map]
  apply List.splitOn_intercalate
  · simpa [OneLine] using h
  · simpa using hne

end Failure

namespace Diagram

/-- The text of a failure has a line for each diagnostic, with its code and its message; none of the
line breaks comes from the source. -/
theorem parseValid_displays_lines {source : String} {f : Failure}
    (h : (parseValid source).outcome = .error f) :
    f.display.toList.count '\n' + 1 = f.diagnostics.length ∧
    List.Forall₂ (fun line d => ∃ code : Code, d.code = some code ∧
        line = ("error[" ++ code.text ++ "]: " ++ d.message).toList)
      (f.display.toList.splitOn '\n') f.diagnostics := by
  obtain ⟨category, huniform⟩ := exists_uniform h
  have hcode : ∀ d ∈ f.diagnostics, ∃ code, d.code = some code := by
    intro d hd
    obtain ⟨code, hcode, -⟩ := Option.map_eq_some_iff.mp (huniform.code d hd)
    exact ⟨code, hcode⟩
  have hline : ∀ d ∈ f.diagnostics, OneLine d.display := by
    intro d hd
    obtain ⟨code, hcode⟩ := hcode d hd
    exact d.oneLine_display hcode (oneLine_of_parseValid h d hd)
  refine ⟨Failure.count_display huniform.ne_nil hline, ?_⟩
  rw [Failure.splitOn_display huniform.ne_nil hline, List.forall₂_map_left_iff, List.forall₂_same]
  intro d hd
  obtain ⟨code, hcode⟩ := hcode d hd
  exact ⟨code, hcode, congrArg String.toList (d.display_of_code hcode)⟩

/-- Nothing is declared here. The lines of the source end with a carriage return as well. -/
def undeclaredSource : String :=
  "relation a -> b\r\nannotation width \x7b \x7d"

theorem displays_lines_of_undeclared : ∃ f, (parseValid undeclaredSource).outcome = .error f ∧
    f.display = "error[E200]: Relation source 'a' not found\n" ++
      "error[E201]: Relation target 'b' not found\n" ++
      "error[E202]: Annotation target 'width' not found" ∧
    f.display.toList.count '\n' + 1 = f.diagnostics.length ∧
    List.Forall₂ (fun line d => ∃ code : Code, d.code = some code ∧
        line = ("error[" ++ code.text ++ "]: " ++ d.message).toList)
      (f.display.toList.splitOn '\n') f.diagnostics := by
  have hrun : (parseValid undeclaredSource).outcome.mapError Failure.display =
      .error ("error[E200]: Relation source 'a' not found\n" ++
        "error[E201]: Relation target 'b' not found\n" ++
        "error[E202]: Annotation target 'width' not found") := by
    decide +kernel
  cases hf : (parseValid undeclaredSource).outcome with
  | ok d =>
    rw [hf] at hrun
    cases hrun
  | error f =>
    rw [hf] at hrun
    exact ⟨f, rfl, Except.error.inj hrun, parseValid_displays_lines hf⟩

end Diagram

end ArchDiagram
