import ArchDiagram.Proofs.Diagnostic
import ArchDiagram.Proofs.Token.Quotation

/-! How statements are spelled. Each text of a statement is the value of a token, and the grammar
asks for one of a few kinds there. The rules of the lexer say what the values of these kinds look
like. -/
namespace ArchDiagram

namespace Text

def StartsName (c : Char) : Prop :=
  'A' ≤ c ∧ c ≤ 'Z' ∨ 'a' ≤ c ∧ c ≤ 'z' ∨ c = '_'

def ContinuesName (c : Char) : Prop :=
  StartsName c ∨ '0' ≤ c ∧ c ≤ '9' ∨ c = '.' ∨ c = '-'

/-- A letter or an underscore, then letters, digits, underscores, points and dashes, which together
make no keyword. -/
structure ProperName (s : String) : Prop where
  spelled : ∃ c cs, s.toList = c :: cs ∧ StartsName c ∧ ∀ d ∈ cs, ContinuesName d
  not_keyword : ∀ k : Keyword, s ≠ k.text

/-- A text that fits on one line and between quotes. -/
structure Caption (s : String) : Prop where
  one_line : OneLine s
  unquoted : '"' ∉ s.toList

lemma startsIdentifier_iff (c : Char) : startsIdentifier c = true ↔ StartsName c := by
  change (decide ('A' ≤ c ∧ c ≤ 'Z') || (decide ('a' ≤ c) && decide (c ≤ 'z')) || c == '_') = true ↔
    StartsName c
  simp only [StartsName, Bool.or_eq_true, Bool.and_eq_true, decide_eq_true_eq, beq_iff_eq, or_assoc]

lemma isWordChar_iff (c : Char) : isWordChar c = true ↔ ContinuesName c := by
  rw [ContinuesName, ← startsIdentifier_iff]
  simp only [isWordChar, startsIdentifier, Char.isAlphanum, Char.isDigit, Char.le_def,
    Bool.or_eq_true, Bool.and_eq_true, decide_eq_true_eq, beq_iff_eq]
  tauto

lemma isIdentifier_iff (cs : List Char) : isIdentifier cs = true ↔
    ∃ c rest, cs = c :: rest ∧ StartsName c ∧ ∀ d ∈ rest, ContinuesName d := by
  cases cs with
  | nil => simp [isIdentifier]
  | cons c cs => simp [isIdentifier, startsIdentifier_iff, isWordChar_iff]

/-- No character of a name ends a line or a quotation. -/
lemma ProperName.caption {s : String} (h : ProperName s) : Caption s := by
  have hchars := (isIdentifier_chars ((isIdentifier_iff _).mpr h.spelled)).2
  refine ⟨fun hmem => ?_, fun hmem => ?_⟩
  · exact absurd (hchars '\n' hmem) (by decide)
  · exact absurd (hchars '"' hmem) (by decide)

end Text

open Text

lemma not_isDigit_of_startsName {c : Char} (h : StartsName c) : Decimal.isDigit c = false := by
  rw [Bool.eq_false_iff, ne_eq, Decimal.isDigit, Bool.and_eq_true, decide_eq_true_eq,
    decide_eq_true_eq]
  rintro ⟨-, hnine⟩
  obtain ⟨hlo, -⟩ | ⟨hlo, -⟩ | rfl := h
  · exact absurd (hlo.trans hnine) (by decide)
  · exact absurd (hlo.trans hnine) (by decide)
  · exact absurd hnine (by decide)

/-- No number begins like a name. -/
lemma isNumeral_eq_false {cs : List Char} (h : isIdentifier cs = true) : isNumeral cs = false := by
  obtain ⟨c, cs, rfl, hc, -⟩ := (isIdentifier_iff cs).mp h
  have hdigit := not_isDigit_of_startsName hc
  have hother : ∀ d, startsIdentifier d = false → c ≠ d := by
    rintro d hd rfl
    rw [(startsIdentifier_iff c).mpr hc] at hd
    cases hd
  have hsign : Decimal.sign (c :: cs) = (false, c :: cs) := by
    simp [Decimal.sign, hother '-' rfl, hother '+' rfl]
  simp [isNumeral, hsign, hdigit, hother '.' rfl]

/-- The names are the words of two classes. -/
theorem properName_iff_classify (w : String) : ProperName w ↔
    TokenKind.classify w = .identifier ∨ TokenKind.classify w = .property := by
  rw [TokenKind.classify]
  cases hword : Keyword.ofText? w with
  | some k =>
    have hk : k.text = w := by simpa using List.find?_some hword
    simpa using fun h : ProperName w => h.not_keyword k hk.symm
  | none =>
    have hkeyword : ∀ k : Keyword, w ≠ k.text := by
      rintro k rfl
      rw [Keyword.ofText?_text] at hword
      cases hword
    have hname : ProperName w ↔ isIdentifier w.toList = true := by
      rw [isIdentifier_iff]
      exact ⟨ProperName.spelled, fun h => ⟨h, hkeyword⟩⟩
    have hproperty : ∀ name ∈ propertyNames, isIdentifier name.toList = true := by decide
    rw [hname]
    dsimp only
    split_ifs with hmem hnumeral hidentifier
    · simpa using hproperty w hmem
    · have hother : ¬ isIdentifier w.toList = true := mt isNumeral_eq_false (by simp [hnumeral])
      simpa using hother
    · simpa using hidentifier
    · simpa using hidentifier

namespace Lexeme

/-- How the lexemes of each kind are spelled. -/
inductive Spells : TokenKind → List Char → Prop
  | string {inner : List Char} (closed : '"' ∉ inner) : Spells .string (quote inner)
  | color {digits : List Char} (length : digits.length = 6)
      (hex : ∀ d ∈ digits, isHexDigit d = true) : Spells .color ('#' :: digits)
  | word {w : List Char} (chars : ∀ d ∈ w, isWordChar d = true) :
      Spells (.classify (String.ofList w)) w
  | arrow : Spells .arrow ['-', '>']
  | leftBrace : Spells .leftBrace ['\x7b']
  | rightBrace : Spells .rightBrace ['\x7d']
  | colon : Spells .colon [':']
  | equals : Spells .equals ['=']
  | unknown {text : List Char} : Spells .unknown text

variable {kind : TokenKind} {text : List Char}

/-- One case for each rule. -/
theorem Takes.spells (h : Takes kind text []) : Spells kind text := by
  obtain ⟨c, cs, rfl, -, hscan⟩ := h
  rw [List.append_nil] at hscan
  have hrule := scan_cases c cs
  rw [hscan] at hrule
  obtain h | h | h | h | h | ⟨-, h⟩ := hrule
  · obtain ⟨rest, rfl, rfl, hr⟩ := arrow?_eq_some h
    rw [Prod.mk.injEq, List.length_cons, Nat.add_eq_right] at hr
    obtain ⟨rfl, hrest⟩ := hr
    rw [List.length_eq_zero_iff.mp hrest]
    exact .arrow
  · obtain ⟨_, _, -, -, hr⟩ := quoted?_eq_some h
    obtain rfl : kind = .string := congrArg Prod.fst hr
    obtain ⟨inner, rest, hinner, hcut⟩ := scan_eq_string_cases (congrArg Prod.fst hscan)
    rw [quote_append, List.cons.injEq] at hcut
    obtain ⟨rfl, rfl⟩ := hcut
    rw [scan_quote hinner, Prod.mk.injEq, List.length_append] at hscan
    obtain rfl : rest = [] := List.length_eq_zero_iff.mp (by simpa using hscan.2)
    exact .string hinner
  · obtain ⟨-, hlength⟩ := scan_of_punctuation? h []
    obtain rfl : cs = [] := List.length_eq_zero_iff.mp hlength
    rw [punctuation?] at h
    split_ifs at h with hc hc hc hc
    all_goals
      obtain rfl := beq_iff_eq.mp hc
      obtain rfl : _ = kind := congrArg Prod.fst (Option.some.inj h)
      constructor
  · obtain ⟨rfl, -, hhex, hr⟩ := color?_eq_some h
    rw [Prod.mk.injEq] at hr
    obtain ⟨rfl, hlength⟩ := hr
    rw [← hlength, List.take_length, List.all_eq_true] at hhex
    exact .color hlength hhex
  · obtain ⟨-, hclass, hword⟩ := word?_eq_some h
    rw [List.take_length] at hclass hword
    obtain rfl : kind = _ := hclass
    exact .word hword
  · obtain rfl : _ = kind := congrArg Prod.fst h
    exact .unknown

/-- No value has quotes, and a string has its own taken off. -/
lemma Spells.unquoted (h : Spells kind text)
    (hkind : kind ∈ [.string, .identifier, .property, .number, .color]) :
    '"' ∉ (value kind text).toList := by
  cases h with
  | string hclosed => simpa [value, quote] using hclosed
  | color _ hhex =>
    have hquote : isHexDigit '"' = false := by decide
    simpa [value] using fun hmem => absurd (hhex '"' hmem) (by simp [hquote])
  | word hchars =>
    rw [value, if_neg (classify_ne_string _), String.toList_ofList]
    exact fun hmem => absurd (hchars '"' hmem) (by decide)
  | arrow | leftBrace | rightBrace | colon | equals | unknown => simp at hkind

lemma Spells.properName (h : Spells kind text) (hkind : kind = .identifier ∨ kind = .property) :
    ProperName (value kind text) := by
  cases h with
  | word hchars =>
    rw [value, if_neg (classify_ne_string _)]
    exact (properName_iff_classify _).mpr hkind
  | string | color | arrow | leftBrace | rightBrace | colon | equals | unknown => simp at hkind

end Lexeme

/-- What the value of a token keeps to. -/
structure Token.Spelled (t : Token) : Prop where
  one_line : OneLine t.value
  name : Grammar.IsName t → ProperName t.value
  caption : t.kind ∈ [.string, .identifier, .property, .number, .color] → Caption t.value

theorem tokenize_spelled {source : String} : ∀ t ∈ tokenize source, t.Spelled := by
  intro t ht
  have hline := Token.oneLine_value ht
  have hspells := (tokenize_takes ht).spells
  refine ⟨hline, ?_, ?_⟩
  · intro hname
    rw [← t.value_text]
    exact hspells.properName hname
  · intro hkind
    refine ⟨hline, ?_⟩
    rw [← t.value_text]
    exact hspells.unquoted hkind

/-- What the value of an attribute or a property `name` keeps to. A malformed number may be a quote
that is left open. -/
structure ValueSpelled (name text : String) : Prop where
  one_line : OneLine text
  caption : name ∉ ["ranksep", "nodesep", "width", "height"] → Caption text

/-- `type` and `style` have names, other properties values. -/
def FieldSpelled (f : Field) (text : String) : Prop :=
  if f = .type ∨ f = .style then ProperName text else ValueSpelled f.name text

def AttributesSpelled (as : List (String × String)) : Prop :=
  ∀ a ∈ as, ProperName a.1 ∧ ValueSpelled a.1 a.2

def PropertiesSpelled (ps : List (Field × String)) : Prop :=
  ∀ p ∈ ps, FieldSpelled p.1 p.2

/-- What the texts of a statement keep to; what is nested in it has its own. -/
def Phrase.Spelled : Phrase → Prop
  | .layout as => AttributesSpelled as
  | .style name as => ProperName name ∧ AttributesSpelled as
  | .component id ps | .container id ps _ | .note id ps => ProperName id ∧ PropertiesSpelled ps
  | .relation source target label =>
    ProperName source ∧ ProperName target ∧ ∀ text ∈ label, Caption text

namespace Token.Spelled

variable {t : Token} (h : t.Spelled)

include h

lemma value {name : String} (hvalue : Grammar.IsValue name t) : ValueSpelled name t.value := by
  refine ⟨h.one_line, fun hname => ?_⟩
  obtain hkind | ⟨-, hnumeric⟩ := hvalue
  · exact h.caption hkind
  · exact absurd hnumeric hname

lemma fieldValue {f : Field} (hvalue : Grammar.IsFieldValue f t) : FieldSpelled f t.value := by
  rw [Grammar.IsFieldValue] at hvalue
  rw [FieldSpelled]
  split_ifs at hvalue ⊢
  · exact h.name hvalue
  · exact h.value hvalue

end Token.Spelled

namespace Grammar

lemma Attributes.spelled {ts : List Token} {as : List (String × String)} (h : Attributes ts as)
    (hts : ∀ t ∈ ts, t.Spelled) : AttributesSpelled as := by
  induction h with
  | nil => exact List.forall_mem_nil _
  | cons hname hequals hvalue _ ih =>
    simp only [List.forall_mem_cons] at hts
    obtain ⟨hn, -, hv, hrest⟩ := hts
    exact List.forall_mem_cons.mpr ⟨⟨hn.name hname, hv.value hvalue⟩, ih hrest⟩

lemma Content.spelled {kind : BlockKind} {depth : ℕ} {ts : List Token}
    {ps : List (Field × String)} {body : List Phrase} (h : Content kind depth ts ps body)
    (hts : ∀ t ∈ ts, t.Spelled) : PropertiesSpelled ps := by
  intro p hp
  obtain ⟨v, hv, hvalue, hp⟩ := h.property_value p hp
  rw [← hp]
  exact (hts v hv).fieldValue hvalue

/-- One case for each kind of statement. -/
lemma Written.spelled {depth : ℕ} {used : List Token} {s : Phrase} (h : Written depth used s)
    (hts : ∀ t ∈ used, t.Spelled) : s.Spelled := by
  cases h with
  | layout _ ha => exact ha.spelled (List.forall_mem_cons.mp hts).2
  | style _ hname ha =>
    simp only [List.forall_mem_cons] at hts
    obtain ⟨-, hn, hrest⟩ := hts
    exact ⟨hn.name hname, ha.spelled hrest⟩
  | relation _ hsource _ htarget =>
    simp only [List.forall_mem_cons] at hts
    obtain ⟨-, ha, -, hb, -⟩ := hts
    exact ⟨ha.name hsource, hb.name htarget, by simp⟩
  | labelled _ hsource _ htarget _ hlabel =>
    simp only [List.forall_mem_cons] at hts
    obtain ⟨-, ha, -, hb, -, hl, -⟩ := hts
    refine ⟨ha.name hsource, hb.name htarget, ?_⟩
    rintro _ ⟨⟩
    exact hl.caption (by simp [hlabel])
  | component _ hname _ hc | note _ hname _ hc | container _ _ hname _ hc =>
    simp only [List.forall_mem_cons] at hts
    obtain ⟨-, hn, -, hrest⟩ := hts
    exact ⟨hn.name hname, hc.spelled hrest⟩

lemma WrittenIn.spelled {ts : List Token} {s : Phrase} (h : WrittenIn ts s)
    (hts : ∀ t ∈ ts, t.Spelled) : s.Spelled := by
  obtain ⟨depth, used, hsub, hw⟩ := h
  exact hw.spelled fun t ht => hts t (hsub ht)

end Grammar

theorem parseStatements_spelled {source : String} {ss : List Statement}
    (h : (parseStatements (tokenize source)).outcome = .ok ss) :
    ∀ o ∈ Statement.occurrencesAll [] ss, o.statement.phrase.Spelled := by
  have hdoc := (parseStatements_eq_ok_iff.mp h).document
  intro o ho
  exact (Statement.writtenIn_occurrencesAll [] ss hdoc.writtenIn o ho).spelled tokenize_spelled

end ArchDiagram
