import ArchDiagram.Proofs.Diagram.Unplaced
import ArchDiagram.Proofs.Token.Lexeme

/-! Sources that are written anew from their tokens. A token that stands alone on a line is found
there again, unless two slashes at its front make the line a comment; so the source that has each
token on a line of its own means what the first one means. -/
namespace ArchDiagram
open Text

namespace Token

/-- The texts of tokens, each on a line of its own. -/
def onLines (ts : List Token) : String :=
  String.ofList (ts.flatMap fun t => t.text ++ ['\n'])

/-- The line of the token would be taken for a comment. -/
def StartsComment (t : Token) : Prop :=
  ['/', '/'] <+: t.text

instance (t : Token) : Decidable t.StartsComment :=
  inferInstanceAs (Decidable (['/', '/'] <+: t.text))

end Token

/-- A lexeme on a line of its own. -/
lemma lineTokens_text {t : Token} (h : Lexeme.Takes t.kind t.text []) (hs : ¬ t.StartsComment)
    (line offset : ℕ) : lineTokens line offset t.text =
      [⟨t.kind, t.value, ⟨offset, offset + utf8Length t.text⟩, line, 1⟩] := by
  have hline := h.lexLine_append ⟨offset, line, 1⟩
  rw [List.append_nil, t.value_text, lexLine] at hline
  rw [lineTokens, h.not_silent hs, if_neg Bool.false_ne_true, hline]
  rfl

lemma lexFrom_onLines {ts : List Token} (hts : ∀ t ∈ ts, Lexeme.Takes t.kind t.text [])
    (hlines : ∀ t ∈ ts, '\n' ∉ t.text) (hs : ∀ t ∈ ts, ¬ t.StartsComment) : ∀ line offset,
      ((lexFrom line offset (ts.flatMap fun t => t.text ++ ['\n'])).map fun t => (t.kind, t.value)) =
        ts.map fun t => (t.kind, t.value) := by
  induction ts with
  | nil =>
    intro line offset
    rw [List.flatMap_nil, lexFrom_line (by simp)]
    rfl
  | cons t ts ih =>
    intro line offset
    rw [List.forall_mem_cons] at hts hlines hs
    rw [List.flatMap_cons, List.append_assoc, List.singleton_append, lexFrom_next_line hlines.1,
      lineTokens_text hts.1 hs.1, List.map_append, ih hts.2 hlines.2 hs.2]
    rfl

/-- The tokens of a source are found again if each stands on a line of its own. -/
theorem tokenize_onLines {source : String} (h : ∀ t ∈ tokenize source, ¬ t.StartsComment) :
    ((tokenize (Token.onLines (tokenize source))).map fun t => (t.kind, t.value)) =
      (tokenize source).map fun t => (t.kind, t.value) := by
  rw [Token.onLines, tokenize, String.toList_ofList]
  exact lexFrom_onLines (fun t ht => tokenize_takes ht) (fun t ht => newline_not_mem_text ht) h 1 0

namespace Diagram

section TwoSources

variable {source source' : String} (h : (tokenize source).map Token.unplaced =
  (tokenize source').map Token.unplaced)

include h

lemma parse_ok_of_unplaced_eq {d : Diagram} (hd : (parse source).outcome = .ok d) :
    ∃ d', (parse source').outcome = .ok d' ∧ d.unplaced = d'.unplaced ∧ d.roots = d'.roots := by
  obtain ⟨ss, hss, e, he, rfl⟩ := parse_eq_ok_iff.mp hd
  obtain ⟨ss', hss', hsame⟩ := parseStatements_ok_of_unplaced_eq h hss
  obtain ⟨e', he', hdraft⟩ := Draft.placeAll_ok_of_unplaced_eq hsame he
  have hd' : (parse source').outcome = .ok e'.toDiagram :=
    parse_eq_ok_iff.mpr ⟨ss', hss', e', he', rfl⟩
  refine ⟨e'.toDiagram, hd', congrArg Draft.toDiagram hdraft, ?_⟩
  rw [roots_eq_unplaced hd hss, roots_eq_unplaced hd' hss', hsame]

/-- What two sources declare, if they declare anything. -/
lemma toOption_parse_of_unplaced_eq :
    ((parse source).outcome.toOption.map fun d => (d.unplaced, d.roots)) =
      (parse source').outcome.toOption.map fun d => (d.unplaced, d.roots) := by
  cases hd : (parse source).outcome with
  | ok d =>
    obtain ⟨d', hd', hsame, hroots⟩ := parse_ok_of_unplaced_eq h hd
    simp [hd', Except.toOption, hsame, hroots]
  | error f =>
    cases hd' : (parse source').outcome with
    | error f' => rfl
    | ok d' =>
      obtain ⟨d, hd'', -⟩ := parse_ok_of_unplaced_eq h.symm hd'
      cases hd.symm.trans hd''

end TwoSources

/-- Lexing is stable: the text with each token on a line of its own has the same tokens, and is
accepted exactly if the source is, with the same diagram but for places. -/
theorem parse_onLines_stable {source : String} (h : ∀ t ∈ tokenize source, ¬ t.StartsComment) :
    ((tokenize (Token.onLines (tokenize source))).map fun t => (t.kind, t.value)) =
      ((tokenize source).map fun t => (t.kind, t.value)) ∧
    ((parse (Token.onLines (tokenize source))).outcome.toOption.map
        fun d => (d.unplaced, d.roots)) =
      (parse source).outcome.toOption.map fun d => (d.unplaced, d.roots) := by
  have htokens := tokenize_onLines h
  exact ⟨htokens, toOption_parse_of_unplaced_eq (Token.map_unplaced_eq_iff.mpr htokens)⟩

/-- Hardly any blanks between tokens: slashes inside a string, a number with a plus, a color, unknown
text that begins like one, dashes in front of an arrow, and a stray quote at the end of a line. -/
def gluedSource : String :=
  "component a\x7blabel\"// é\"width+5 #12ab34\x7b#12ab34.\x7drelation a--->b-:\"->\"component b-\x7b\"
\x7d"

theorem onLines_stable_of_glued :
    (∀ t ∈ tokenize gluedSource, ¬ t.StartsComment) ∧
    Token.onLines (tokenize gluedSource) = "component
a
\x7b
label
\"// é\"
width
+5
#12ab34
\x7b
#12ab34.
\x7d
relation
a--
->
b-
:
\"->\"
component
b-
\x7b
\"
\x7d
" ∧
    ∃ d d', (parse gluedSource).outcome = .ok d ∧
      (parse (Token.onLines (tokenize gluedSource))).outcome = .ok d' ∧
      d'.unplaced = d.unplaced ∧ d'.roots = d.roots := by
  have hslashes : ∀ t ∈ tokenize gluedSource, ¬ t.StartsComment := by decide +kernel
  have hrun : (parse gluedSource).outcome.toOption.any (fun _ => true) = true := by decide +kernel
  obtain ⟨d, hd, -⟩ := Attempt.exists_eq_ok hrun
  have hsame := (parse_onLines_stable hslashes).2
  rw [hd] at hsame
  cases hd' : (parse (Token.onLines (tokenize gluedSource))).outcome with
  | error f => simp [hd', Except.toOption] at hsame
  | ok d' =>
    rw [hd'] at hsame
    obtain ⟨hunplaced, hroots⟩ := Prod.ext_iff.mp (Option.some.inj hsame)
    exact ⟨hslashes, by decide +kernel, d, d', hd, rfl, hunplaced, hroots⟩

end Diagram

end ArchDiagram
