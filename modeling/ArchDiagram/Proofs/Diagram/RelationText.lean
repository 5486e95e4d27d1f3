import ArchDiagram.Proofs.Diagram.Redeclaration
import ArchDiagram.Proofs.Statement.Extent
import ArchDiagram.Proofs.Token.Lexeme

/-! Relations as text. The ends of a relation and its label are values of tokens, and these are found
again in the text that describes the relation: a blank stands on both sides of each, and a label has
no quote of its own. So the text declares the same relation once more. -/
namespace ArchDiagram
open Text

namespace Token

/-- A token without a place. -/
def bare (kind : TokenKind) (value : String) : Token :=
  ⟨kind, value, {}, 0, 0⟩

/-- The text of a token is found again in any line where nothing can go on behind it. -/
structure Readable (t : Token) : Prop where
  takes : Lexeme.Takes t.kind t.text []
  known : t.kind ≠ .unknown
  one_line : '\n' ∉ t.text

/-- The tokens of a relation behind its keyword, if these are its ends and its label. -/
def ofEnds (a b : Token) (label : Option Token) : List Token :=
  a :: bare .arrow "->" :: b :: label.elim [] fun l => [bare .colon ":", l]

lemma Readable.of_mem {source : String} {t : Token} (h : t ∈ tokenize source)
    (hkind : t.kind ≠ .unknown) : t.Readable :=
  ⟨tokenize_takes h, hkind, newline_not_mem_text h⟩

lemma readable_relation : (bare (.keyword .relation) "relation").Readable :=
  ⟨⟨'r', "elation".toList, by decide, by decide, by decide⟩, by decide, by decide⟩

lemma readable_arrow : (bare .arrow "->").Readable :=
  ⟨⟨'-', ['>'], by decide, by decide, by decide⟩, by decide, by decide⟩

lemma readable_colon : (bare .colon ":").Readable :=
  ⟨⟨':', [], by decide, by decide, by decide⟩, by decide, by decide⟩

/-- The texts of tokens, a blank in front of each. -/
def spaced (ts : List Token) : List Char :=
  ts.flatMap fun t => ' ' :: t.text

lemma halts_spaced (ts : List Token) : Lexeme.Halts (spaced ts) := by
  cases ts with
  | nil => exact Lexeme.halts_nil
  | cons t ts => exact Lexeme.halts_cons.mpr (by decide)

lemma lexLine_spaced {ts : List Token} (h : ∀ t ∈ ts, t.Readable) : ∀ p,
    ((lexLine p (spaced ts)).map fun t => (t.kind, t.value)) = ts.map fun t => (t.kind, t.value) := by
  induction ts with
  | nil =>
    intro p
    rw [spaced, List.flatMap_nil, lexLine, List.map_nil]
  | cons t ts ih =>
    intro p
    rw [List.forall_mem_cons] at h
    have htakes := h.1.takes.before h.1.known (halts_spaced ts)
    rw [spaced, List.flatMap_cons, List.cons_append, lexLine, if_pos (by decide)]
    change ((lexLine _ (t.text ++ spaced ts)).map _) = _
    rw [htakes.lexLine_append, t.value_text, List.map_cons, ih h.2, List.map_cons]

lemma newline_not_mem_spaced {ts : List Token} (h : ∀ t ∈ ts, t.Readable) : '\n' ∉ spaced ts := by
  rw [spaced, List.mem_flatMap]
  rintro ⟨t, ht, hmem⟩
  exact (h t ht).one_line (by simpa using hmem)

end Token

open Token

/-- Readable tokens are found again behind a keyword, if blanks stand between them. -/
lemma tokenize_spaced {ts : List Token} (h : ∀ t ∈ ts, t.Readable) :
    ((tokenize (String.ofList ("relation".toList ++ spaced ts))).map fun t => (t.kind, t.value)) =
      (bare (.keyword .relation) "relation" :: ts).map fun t => (t.kind, t.value) := by
  have hfirst := readable_relation.takes.before readable_relation.known (halts_spaced ts)
  have hline : '\n' ∉ "relation".toList ++ spaced ts := by
    rw [List.mem_append, not_or]
    exact ⟨by decide, newline_not_mem_spaced h⟩
  have hsilent : isSilent ("relation".toList ++ spaced ts) = false :=
    isSilent_eq_false (by decide) (by decide) _
  rw [tokenize, String.toList_ofList, lexFrom_line hline, lineTokens, hsilent,
    if_neg Bool.false_ne_true]
  change ((lexLine _ ((bare (.keyword .relation) "relation").text ++ spaced ts)).map _) = _
  rw [hfirst.lexLine_append, value_text, List.map_cons, lexLine_spaced h]
  rfl

namespace Grammar

/-- Tokens of these kinds and values write a relation, wherever they stand. -/
lemma document_of_relation {a b : Token} {label : Option Token} {ts : List Token} (ha : IsName a)
    (hb : IsName b) (hlabel : ∀ l ∈ label, l.kind = .string)
    (h : (ts.map fun t => (t.kind, t.value)) =
      (bare (.keyword .relation) "relation" :: ofEnds a b label).map fun t => (t.kind, t.value)) :
    Document ts [.relation a.value b.value (label.map Token.value)] := by
  suffices hwritten : Written 0 ts (.relation a.value b.value (label.map Token.value)) by
    have hdocument := Document.cons hwritten .nil
    rwa [List.append_nil] at hdocument
  obtain ⟨k, ts, rfl, hk, h⟩ := List.map_eq_cons_iff.mp h
  obtain ⟨a', ts, rfl, ha', h⟩ := List.map_eq_cons_iff.mp h
  obtain ⟨r, ts, rfl, hr, h⟩ := List.map_eq_cons_iff.mp h
  obtain ⟨b', ts, rfl, hb', h⟩ := List.map_eq_cons_iff.mp h
  obtain ⟨hk, -⟩ := Prod.mk.inj hk
  obtain ⟨hsource, ha'⟩ := Prod.mk.inj ha'
  obtain ⟨hr, -⟩ := Prod.mk.inj hr
  obtain ⟨htarget, hb'⟩ := Prod.mk.inj hb'
  rw [IsName, ← hsource] at ha
  rw [IsName, ← htarget] at hb
  rw [← ha', ← hb']
  cases label with
  | none =>
    obtain rfl := List.map_eq_nil_iff.mp h
    exact .relation hk ha hr hb
  | some l =>
    obtain ⟨c, ts, rfl, hc, h⟩ := List.map_eq_cons_iff.mp h
    obtain ⟨l', ts, rfl, hl, h⟩ := List.map_eq_cons_iff.mp h
    obtain rfl := List.map_eq_nil_iff.mp h
    obtain ⟨hc, -⟩ := Prod.mk.inj hc
    obtain ⟨hstring, hl⟩ := Prod.mk.inj hl
    rw [Option.map_some, ← hl]
    exact .labelled hk ha hr hb hc (hstring.trans (hlabel l rfl))

end Grammar

/-- The tokens that the ends and the label of a relation were read from. -/
lemma exists_tokens_of_relation {ts : List Token} {ss : List Statement}
    (h : (parseStatements ts).outcome = .ok ss) {o : Occurrence} {r : Relation}
    (ho : o ∈ Statement.occurrencesAll [] ss) (hr : o.relation? = some r) :
    ∃ (a b : Token) (label : Option Token), a ∈ ts ∧ b ∈ ts ∧
      (∀ l ∈ label, l ∈ ts ∧ l.kind = .string) ∧ Grammar.IsName a ∧ Grammar.IsName b ∧
      r.source = a.value ∧ r.target = b.value ∧ r.label = label.map Token.value := by
  obtain ⟨before, used, after, rfl, htakes⟩ := parseStatements_takes h o ho
  obtain ⟨k, -, hk, -, hkind, -⟩ := htakes.frame.ends
  obtain ⟨room, hread⟩ := htakes
  obtain ⟨us, rfl⟩ := List.head?_eq_some_iff.mp hk
  obtain ⟨_ | ⟨p, opened⟩, s⟩ := o
  swap
  · rw [(Occurrence.offTop_nested p opened s).relation] at hr
    cases hr
  cases s with
  | relation span source target label =>
    obtain rfl := Option.some.inj hr
    rw [List.cons_append, Parser.statement_keyword hkind] at hread
    obtain ⟨a, arrow, b, rest, label', hus, ha, -, hb, hlabel, hs⟩ := Parser.relation_eq_done hread
    obtain ⟨-, rfl, rfl, rfl⟩ := Statement.relation.inj hs
    have hmem : ∀ t ∈ us ++ after, t ∈ before ++ k :: us ++ after := by
      intro t ht
      simp only [List.append_assoc, List.cons_append, List.mem_append, List.mem_cons] at ht ⊢
      exact Or.inr (Or.inr ht)
    rw [hus] at hmem
    have hends : a ∈ before ++ k :: us ++ after ∧ b ∈ before ++ k :: us ++ after :=
      ⟨hmem a (by simp), hmem b (by simp)⟩
    obtain ⟨rfl, -, -⟩ | ⟨c, l, rfl, -, hl, rfl⟩ := Parser.relationLabel_eq_done_iff.mp hlabel
    · exact ⟨a, b, none, hends.1, hends.2, by simp, ha, hb, rfl, rfl, rfl⟩
    · refine ⟨a, b, some l, hends.1, hends.2, ?_, ha, hb, rfl, rfl, rfl⟩
      rintro l' ⟨⟩
      exact ⟨hmem l (by simp), hl⟩
  | _ => cases hr

lemma readable_of_mem_ofEnds {source : String} {a b : Token} {label : Option Token}
    (ha : a ∈ tokenize source) (hb : b ∈ tokenize source) (hna : Grammar.IsName a)
    (hnb : Grammar.IsName b) (hlabel : ∀ l ∈ label, l ∈ tokenize source ∧ l.kind = .string) :
    ∀ t ∈ ofEnds a b label, t.Readable := by
  have hname : ∀ {t : Token}, t ∈ tokenize source → Grammar.IsName t → t.Readable := by
    intro t ht hn
    apply Readable.of_mem ht
    obtain hn | hn := hn <;> simp [hn]
  have hrest : ∀ t ∈ label.elim [] fun l => [bare .colon ":", l], t.Readable := by
    cases label with
    | none => simp
    | some l =>
      obtain ⟨hl, hstring⟩ := hlabel l rfl
      have hreadable : l.Readable := .of_mem hl (by simp [hstring])
      simpa using ⟨readable_colon, hreadable⟩
  simp only [ofEnds, List.forall_mem_cons]
  exact ⟨hname ha hna, readable_arrow, hname hb hnb, hrest⟩

/-- The description of a relation is made of these tokens. -/
lemma toList_describe {r : Relation} {a b : Token} {label : Option Token} (hna : Grammar.IsName a)
    (hnb : Grammar.IsName b) (hlabel : ∀ l ∈ label, l.kind = .string) (hsource : r.source = a.value)
    (htarget : r.target = b.value) (hl : r.label = label.map Token.value) :
    ("relation " ++ r.describe).toList = "relation".toList ++ spaced (ofEnds a b label) := by
  have hname : ∀ {t : Token}, Grammar.IsName t → t.text = t.value.toList := by
    intro t hn
    rw [Token.text, if_neg]
    obtain hn | hn := hn <;> simp [hn]
  have harrow : (bare .arrow "->").text = ['-', '>'] := by decide
  have hcolon : (bare .colon ":").text = [':'] := by decide
  cases label with
  | none =>
    have hdescribe : r.describe = a.value ++ " -> " ++ b.value := by
      simp only [Relation.describe, hl, hsource, htarget, Option.map_none]
      rfl
    simp [hdescribe, spaced, ofEnds, hname hna, hname hnb, harrow]
  | some l =>
    have hdescribe : r.describe = a.value ++ " -> " ++ b.value ++ " : \"" ++ l.value ++ "\"" := by
      simp only [Relation.describe, hl, hsource, htarget, Option.map_some]
      rfl
    have htext : l.text = '"' :: l.value.toList ++ ['"'] := if_pos (hlabel l rfl)
    simp [hdescribe, spaced, ofEnds, hname hna, hname hnb, harrow, hcolon, htext]

namespace Diagram

/-- A document that is one relation declares this and nothing else. -/
lemma parse_of_relation {source : String} {a b : Id} {label : Option String}
    (h : Grammar.Document (tokenize source) [.relation a b label]) :
    ∃ span, (parse source).outcome = .ok { empty with relations := [⟨a, b, label, span⟩] } := by
  obtain ⟨found, hfound, hphrases⟩ := h.read
  have hss : (parseStatements (tokenize source)).outcome = .ok found :=
    parseStatements_eq_ok_iff.mpr hfound
  obtain ⟨s, rfl, hs⟩ : ∃ s : Statement, found = [s] ∧ s.phrase = .relation a b label := by
    match found with
    | [] => cases hphrases
    | [s] => exact ⟨s, rfl, (List.cons.inj hphrases).1⟩
    | s :: s' :: rest => cases (List.cons.inj hphrases).2
  cases s with
  | relation span x y l =>
    obtain ⟨rfl, rfl, rfl⟩ := Phrase.relation.inj hs
    exact ⟨span, parse_eq_ok_iff.mpr ⟨_, hss, _, rfl, rfl⟩⟩
  | _ => cases hs

/-- The text of a relation declares it again. -/
theorem parse_describe {source : String} {d : Diagram} (h : (parse source).outcome = .ok d)
    {r : Relation} (hr : r ∈ d.relations) :
    ∃ d' r', (parse ("relation " ++ r.describe)).outcome = .ok d' ∧ d'.relations = [r'] ∧
      r'.source = r.source ∧ r'.target = r.target ∧ r'.label = r.label := by
  obtain ⟨ss, hss, e, he, rfl⟩ := parse_eq_ok_iff.mp h
  rw [(Draft.declaredBy_placeAll he).relations] at hr
  obtain ⟨o, ho, hro⟩ := List.mem_filterMap.mp hr
  obtain ⟨a, b, label, ha, hb, hlabel, hna, hnb, hsource, htarget, hl⟩ :=
    exists_tokens_of_relation hss ho hro
  have hstring : ∀ l ∈ label, l.kind = .string := fun l hl => (hlabel l hl).2
  have htokens := tokenize_spaced (readable_of_mem_ofEnds ha hb hna hnb hlabel)
  rw [← toList_describe hna hnb hstring hsource htarget hl, String.ofList_toList] at htokens
  obtain ⟨span, hparse⟩ := parse_of_relation (Grammar.document_of_relation hna hnb hstring htokens)
  exact ⟨_, _, hparse, rfl, hsource.symm, htarget.symm, hl.symm⟩

/-- An end with dashes in front of the arrow, one that is the name of a property, and a label that
looks like a comment and like an arrow. -/
def dashedSource : String :=
  "relation a--->label:\"// é \x7d ->\""

theorem describe_of_dashed : ∃ d r, (parse dashedSource).outcome = .ok d ∧ r ∈ d.relations ∧
    r.describe = "a-- -> label : \"// é \x7d ->\"" ∧
    ∃ d' r', (parse ("relation " ++ r.describe)).outcome = .ok d' ∧ d'.relations = [r'] ∧
      r'.source = r.source ∧ r'.target = r.target ∧ r'.label = r.label := by
  have hrun : (parse dashedSource).outcome.toOption.any (fun d =>
      d.relations = [⟨"a--", "label", some "// é \x7d ->", ⟨0, 32⟩⟩]) = true := by
    decide +kernel
  obtain ⟨d, hd, hrelations⟩ := Attempt.exists_eq_ok hrun
  have hmem : ⟨"a--", "label", some "// é \x7d ->", ⟨0, 32⟩⟩ ∈ d.relations := by
    rw [of_decide_eq_true hrelations]
    exact List.mem_cons_self
  exact ⟨d, _, hd, hmem, by decide +kernel, parse_describe hd hmem⟩

end Diagram

end ArchDiagram
