import Mathlib.Data.String.Basic
import ArchDiagram.Proofs.Token.Lexeme

/-! Quoted text is nothing but the value of its token. The lexer comes to an opening quote in the
same way whatever follows it, and goes on behind the closing one in the same way whatever stands in
front of it; other text between the quotes only moves what is behind them. -/
namespace ArchDiagram
open Text

namespace Text

/-- The bytes of a text with another one in front of it. -/
lemma extract_eq {source : String} {x text y : List Char} (h : source.toList = x ++ text ++ y)
    {start stop : ℕ} (hstart : start = utf8Length x)
    (hstop : stop = utf8Length x + utf8Length text) :
    String.Pos.Raw.extract source ⟨start⟩ ⟨stop⟩ = String.ofList text := by
  have hlength : ∀ cs, String.utf8Len cs = utf8Length cs := by
    intro cs
    induction cs with
    | nil => rfl
    | cons c cs ih => rw [String.utf8Len_cons, ih, utf8Length_cons, Nat.add_comm]
  have hextract := String.extract_of_valid x text y
  rwa [← h, String.ofList_toList, hlength, hlength, ← hstop, ← hstart] at hextract

@[simp] lemma utf8Length_toList (s : String) : utf8Length s.toList = s.utf8ByteSize := by
  rw [← utf8ByteSize_ofList, String.ofList_toList]

/-- A text in quotes. -/
def quote (inner : List Char) : List Char :=
  '"' :: inner ++ ['"']

lemma utf8Length_quote (inner : List Char) : utf8Length (quote inner) = utf8Length inner + 2 := by
  have hsize : '"'.utf8Size = 1 := by decide
  simp only [quote, List.cons_append, utf8Length_cons, utf8Length_append, utf8Length_nil, hsize]
  omega

lemma length_quote (inner : List Char) : (quote inner).length = inner.length + 2 := by
  simp [quote]

lemma quote_append (inner rest : List Char) : quote inner ++ rest = '"' :: (inner ++ '"' :: rest) := by
  simp [quote]

lemma not_mem_quote {inner : List Char} (h : '\n' ∉ inner) : '\n' ∉ quote inner := by
  simpa [quote] using h

/-- Two slashes in front of a quote, or none. -/
lemma isSilent_before_quote (before z z' : List Char) :
    isSilent (before ++ '"' :: z) = isSilent (before ++ '"' :: z') := by
  have hquote : isBlank '"' = false := by decide
  have hdrop : ∀ z, (before ++ '"' :: z).dropWhile isBlank = before.dropWhile isBlank ++ '"' :: z := by
    intro z
    rw [List.dropWhile_append]
    split_ifs with hempty
    · rw [List.isEmpty_iff.mp hempty, List.dropWhile_cons_of_neg (by simp [hquote]), List.nil_append]
    · rfl
  rw [isSilent, isSilent, hdrop, hdrop]
  cases before.dropWhile isBlank with
  | nil => rfl
  | cons c cs => cases cs <;> rfl

end Text

namespace Lexeme

/-- A string is a text without quotes, in quotes. -/
lemma scan_eq_string_cases {c : Char} {cs : List Char} (h : (scan c cs).1 = .string) :
    ∃ inner rest, '"' ∉ inner ∧ c :: cs = quote inner ++ rest := by
  obtain ⟨inner, rest, rfl, hcs, -⟩ := quoted?_eq_some (scan_eq_string h)
  have hmem : '"' ∈ cs := by simp [hcs]
  obtain ⟨inner, rest, rfl, hinner⟩ := List.eq_append_cons_of_mem hmem
  exact ⟨inner, rest, hinner, by rw [quote_append]⟩

lemma scan_quote {inner : List Char} (h : '"' ∉ inner) (rest : List Char) :
    scan '"' (inner ++ '"' :: rest) = (.string, inner.length + 1) := by
  have htake : (inner ++ '"' :: rest).takeWhile (· != '"') = inner := by
    rw [List.takeWhile_append_of_pos, List.takeWhile_cons_of_neg (by simp), List.append_nil]
    intro c hc
    simpa using ne_of_mem_of_not_mem hc h
  have hquoted : quoted? '"' (inner ++ '"' :: rest) = some (.string, inner.length + 1) := by
    simp [quoted?, htake]
  rw [scan, hquoted]
  rfl

/-- A lexeme in front of a quote does not depend on what is behind the quote. -/
lemma scan_before_quote {c : Char} {x z : List Char} (h : (scan c (x ++ '"' :: z)).2 ≤ x.length)
    (z' : List Char) : scan c (x ++ '"' :: z') = scan c (x ++ '"' :: z) := by
  have hhalts : ∀ z, Halts ('"' :: z) := fun z => halts_cons.mpr (by decide)
  have hquote : c = '"' → '"' ∈ x := by
    rintro rfl
    by_contra hx
    rw [scan_quote hx] at h
    exact Nat.not_succ_le_self _ h
  rw [scan_append (hhalts z') hquote, scan_append (hhalts z) hquote]

end Lexeme

lemma Place.after_append (p : Place) (x y : List Char) :
    p.after (x ++ y) = (p.after x).after y := by
  simp [Place.after, Nat.add_assoc]

/-- The places behind two texts in quotes. -/
lemma Place.shifted_quote (p : Place) (inner new : List Char) :
    (p.after (quote inner)).Shifted (utf8Length new - utf8Length inner) 0
      (new.length - inner.length) (p.after (quote new)) where
  offset := by
    simp only [Place.after, utf8Length_quote]
    omega
  line := by simp [Place.after]
  column := by
    simp only [Place.after, length_quote]
    omega

/-- A string that stands at a place. -/
def Token.quoting (p : Place) (inner : List Char) : Token :=
  ⟨.string, String.ofList inner, ⟨p.offset, (p.after (quote inner)).offset⟩, p.line, p.column⟩

lemma lexLine_quote {inner : List Char} (h : '"' ∉ inner) (p : Place) (rest : List Char) :
    lexLine p (quote inner ++ rest) = .quoting p inner :: lexLine (p.after (quote inner)) rest := by
  have htakes : Lexeme.Takes .string (quote inner) rest := by
    refine ⟨'"', inner ++ ['"'], rfl, by decide, ?_⟩
    rw [List.append_assoc, List.singleton_append, Lexeme.scan_quote h, List.length_append]
    rfl
  rw [htakes.lexLine_append]
  simp [Token.quoting, Lexeme.value, quote]

/-- The lexer comes to a string in the same way whatever stands there behind the opening quote. -/
lemma lexLine_before_string (p : Place) (cs : List Char) : ∀ (pre post : List Token) (t : Token),
    lexLine p cs = pre ++ t :: post → t.kind = .string → ∃ before inner after, '"' ∉ inner ∧
      cs = before ++ quote inner ++ after ∧
        ∀ z, lexLine p (before ++ '"' :: z) = pre ++ lexLine (p.after before) ('"' :: z) := by
  fun_induction lexLine p cs with
  | case1 p =>
    intro pre post t h
    simp at h
  | case2 p c cs hc ih =>
    intro pre post t h ht
    obtain ⟨before, inner, after, hinner, rfl, hlex⟩ := ih _ _ t h ht
    refine ⟨c :: before, inner, after, hinner, rfl, ?_⟩
    intro z
    rw [List.cons_append, lexLine, if_pos hc, hlex, ← Place.after_append]
    rfl
  | case3 p c cs hc kind n text q ih =>
    intro pre post t h ht
    cases pre with
    | nil =>
      obtain ⟨rfl, -⟩ := List.cons.inj h
      obtain ⟨inner, rest, hinner, hcut⟩ := Lexeme.scan_eq_string_cases ht
      exact ⟨[], inner, rest, hinner, hcut, fun z => rfl⟩
    | cons u pre =>
      rw [List.cons_append] at h
      obtain ⟨rfl, hrest⟩ := List.cons.inj h
      obtain ⟨before, inner, after, hinner, hcut, hlex⟩ := ih _ _ t hrest ht
      have hn : (cs.take n).length = n := List.length_take_of_le (Lexeme.scan_length_le c cs)
      have hcs : cs = cs.take n ++ before ++ '"' :: (inner ++ '"' :: after) := by
        rw [List.append_assoc, ← quote_append, ← List.append_assoc before, ← hcut,
          List.take_append_drop]
      refine ⟨text ++ before, inner, after, hinner, ?_, ?_⟩
      · rw [List.append_assoc, List.append_assoc, ← List.append_assoc before, ← hcut]
        simp [text]
      · intro z
        -- the first lexeme is in front of the quote, and so the same
        have htakes : Lexeme.Takes kind text (before ++ '"' :: z) := by
          refine ⟨c, cs.take n, rfl, by simpa using hc, ?_⟩
          rw [← List.append_assoc, hn, Lexeme.scan_before_quote (z := inner ++ '"' :: after), ← hcs]
          rw [← hcs, List.length_append, hn]
          exact Nat.le_add_right _ _
        rw [List.append_assoc, htakes.lexLine_append, hlex, Place.after_append, List.cons_append]

namespace Token

/-- The string with other text between its quotes. -/
def requoted (t : Token) (new : String) : Token :=
  { t with value := new, span := ⟨t.span.start, t.span.start + new.utf8ByteSize + 2⟩ }

/-- The source of a string with other text between the quotes. -/
def requote (t : Token) (source new : String) : String :=
  String.Pos.Raw.extract source ⟨0⟩ ⟨t.span.start + 1⟩ ++ new ++
    String.Pos.Raw.extract source ⟨t.span.stop - 1⟩ ⟨source.utf8ByteSize⟩

/-- What becomes of a token behind the string: its bytes move with the length of the new text in
bytes, and its column moves with the number of characters if it is on the line of the string. -/
def Moves (t : Token) (new : String) (u u' : Token) : Prop :=
  u.Shifted (new.utf8ByteSize - t.value.utf8ByteSize) 0
    (if u.line = t.line then (new.length : ℤ) - t.value.length else 0) u'

@[simp] lemma requoted_quoting (p : Place) (inner : List Char) (new : String) :
    (quoting p inner).requoted new = quoting p new.toList := by
  simp [requoted, quoting, Place.after, utf8Length_quote, Nat.add_assoc]

/-- A string between other tokens of a text, where any text may stand between the quotes. -/
structure Requotes (lex : List Char → List Token) (offset : ℕ) (cs : List Char) (pre : List Token)
    (t : Token) (post : List Token) (before after : List Char) : Prop where
  cut : cs = before ++ quote t.value.toList ++ after
  start : t.span.start = offset + utf8Length before
  stop : t.span.stop = t.span.start + utf8Length (quote t.value.toList)
  anew : ∀ new : String, '"' ∉ new.toList → '\n' ∉ new.toList →
    ∃ post', lex (before ++ quote new.toList ++ after) = pre ++ t.requoted new :: post' ∧
      List.Forall₂ (t.Moves new) post post'

end Token

/-- A string of a line. -/
lemma lineTokens_requotes {line offset : ℕ} {text : List Char} {pre post : List Token} {t : Token}
    (h : lineTokens line offset text = pre ++ t :: post) (ht : t.kind = .string) :
    t.line = line ∧ ∃ before after,
      t.Requotes (lineTokens line offset) offset text pre post before after := by
  rw [lineTokens] at h
  split_ifs at h with hsilent
  · simp at h
  obtain ⟨before, inner, after, hinner, rfl, hlex⟩ := lexLine_before_string _ _ _ _ t h ht
  let p : Place := Place.after ⟨offset, line, 1⟩ before
  have hline : ∀ new, '"' ∉ new → lineTokens line offset (before ++ quote new ++ after) =
      pre ++ .quoting p new :: lexLine (p.after (quote new)) after := by
    intro new hnew
    rw [List.append_assoc, quote_append] at hsilent
    rw [lineTokens, List.append_assoc, quote_append, isSilent_before_quote, if_neg hsilent, hlex,
      ← quote_append, lexLine_quote hnew]
  have hsame := hline inner hinner
  rw [lineTokens, if_neg hsilent, h, List.append_cancel_left_eq] at hsame
  obtain ⟨rfl, rfl⟩ := List.cons.inj hsame
  refine ⟨rfl, before, after, ?_, rfl, ?_, ?_⟩
  · rw [Token.quoting, String.toList_ofList]
  · rw [Token.quoting, String.toList_ofList]
    rfl
  · intro new hquote hnew
    refine ⟨_, by rw [hline _ hquote, Token.requoted_quoting], ?_⟩
    have hshift := lexLine_shifted _ after _ (p.shifted_quote inner new.toList)
    have hlines : ∀ u ∈ lexLine (p.after (quote inner)) after,
        u.line = (Token.quoting p inner).line := by
      intro u hu
      obtain ⟨-, -, -, -, -, huline, -⟩ := lexLine_stands _ _ u hu
      exact huline
    refine ((List.forall₂_and_left _ _).mpr ⟨hlines, hshift⟩).imp ?_
    rintro u u' ⟨huline, hu⟩
    rw [Token.Moves, if_pos huline]
    simpa [Token.quoting, utf8ByteSize_ofList, ← String.length_toList] using hu

section
variable {line offset : ℕ} {text rest before after : List Char} {pre post : List Token} {t : Token}

namespace Token.Requotes

lemma one_line (h : t.Requotes (lineTokens line offset) offset text pre post before after)
    (htext : '\n' ∉ text) {new : List Char} (hnew : '\n' ∉ new) :
    '\n' ∉ before ++ quote new ++ after := by
  simp only [h.cut, List.mem_append, not_or] at htext ⊢
  exact ⟨⟨htext.1.1, not_mem_quote hnew⟩, htext.2⟩

lemma last_line (h : t.Requotes (lineTokens line offset) offset text pre post before after)
    (htext : '\n' ∉ text) :
    t.Requotes (lexFrom line offset) offset text pre post before after where
  cut := h.cut
  start := h.start
  stop := h.stop
  anew new hquote hnew := by
    rw [lexFrom_line (h.one_line htext hnew)]
    exact h.anew new hquote hnew

/-- Later lines move with the line of the string. -/
lemma first_line (h : t.Requotes (lineTokens line offset) offset text pre post before after)
    (hline : t.line = line) (htext : '\n' ∉ text) :
    t.Requotes (lexFrom line offset) offset (text ++ '\n' :: rest) pre
      (post ++ lexFrom (line + 1) (offset + utf8Length text + 1) rest) before
      (after ++ '\n' :: rest) where
  cut := by
    rw [h.cut]
    simp
  start := h.start
  stop := h.stop
  anew new hquote hnew := by
    obtain ⟨post', hlex, hmoves⟩ := h.anew new hquote hnew
    let text' := before ++ quote new.toList ++ after
    refine ⟨post' ++ lexFrom (line + 1) (offset + utf8Length text' + 1) rest, ?_, ?_⟩
    · rw [← List.append_assoc, lexFrom_next_line (h.one_line htext hnew), hlex]
      simp [text']
    · refine List.rel_append hmoves ?_
      have hlength : (utf8Length text' : ℤ) =
          utf8Length text + (new.utf8ByteSize - t.value.utf8ByteSize) := by
        simp only [text', h.cut, utf8Length_append, utf8Length_quote, utf8Length_toList]
        omega
      have hshift : List.Forall₂ (Token.Shifted (new.utf8ByteSize - t.value.utf8ByteSize) 0 0)
          (lexFrom (line + 1) (offset + utf8Length text + 1) rest)
          (lexFrom (line + 1) (offset + utf8Length text' + 1) rest) :=
        lexFrom_shifted rest _ _ _ _ (by simp) (by omega)
      have hlines : ∀ u ∈ lexFrom (line + 1) (offset + utf8Length text + 1) rest,
          u.line ≠ t.line := by
        intro u hu
        obtain ⟨_, _, -, hstands⟩ := (lexFrom_partition _ _ rest).stands u hu
        have huline := hstands.line
        omega
      refine ((List.forall₂_and_left _ _).mpr ⟨hlines, hshift⟩).imp ?_
      rintro u u' ⟨huline, hu⟩
      rwa [Token.Moves, if_neg huline]

/-- Earlier lines stay. -/
lemma next_line
    (h : t.Requotes (lexFrom (line + 1) (offset + utf8Length text + 1))
      (offset + utf8Length text + 1) rest pre post before after) (htext : '\n' ∉ text) :
    t.Requotes (lexFrom line offset) offset (text ++ '\n' :: rest) (lineTokens line offset text ++ pre)
      post (text ++ '\n' :: before) after where
  cut := by
    rw [h.cut]
    simp
  start := by
    rw [h.start, utf8Length_next_line]
    omega
  stop := h.stop
  anew new hquote hnew := by
    obtain ⟨post', hlex, hmoves⟩ := h.anew new hquote hnew
    refine ⟨post', ?_, hmoves⟩
    rw [List.append_assoc, List.append_assoc, List.cons_append, lexFrom_next_line htext,
      ← List.append_assoc before, hlex, List.append_assoc]

/-- The bytes of the source around the string. -/
lemma requote_eq {lex : List Char → List Token} {source : String}
    (h : t.Requotes lex 0 source.toList pre post before after) (new : String) :
    t.requote source new = String.ofList (before ++ quote new.toList ++ after) := by
  have hsize : '"'.utf8Size = 1 := by decide
  have hstop := h.stop
  rw [h.start, utf8Length_quote] at hstop
  have hcut : source.toList = before ++ ['"'] ++ t.value.toList ++ '"' :: after := by
    rw [h.cut]
    simp [quote]
  have hfront : String.Pos.Raw.extract source ⟨0⟩ ⟨t.span.start + 1⟩ =
      String.ofList (before ++ ['"']) := by
    apply extract_eq (x := []) (y := t.value.toList ++ '"' :: after)
    · simp [hcut]
    · rfl
    · simp [h.start, hsize]
  have hback : String.Pos.Raw.extract source ⟨t.span.stop - 1⟩ ⟨source.utf8ByteSize⟩ =
      String.ofList ('"' :: after) := by
    apply extract_eq (x := before ++ ['"'] ++ t.value.toList) (y := [])
    · simp [hcut]
    · simp only [utf8Length_append, utf8Length_cons, utf8Length_nil, hsize]
      omega
    · rw [← utf8Length_toList, hcut, utf8Length_append]
  rw [Token.requote, hfront, hback, ← String.toList_inj]
  simp [quote]

end Token.Requotes

end

theorem lexFrom_requotes (cs : List Char) : ∀ (line offset : ℕ) (pre post : List Token) (t : Token),
    lexFrom line offset cs = pre ++ t :: post → t.kind = .string →
      ∃ before after, t.Requotes (lexFrom line offset) offset cs pre post before after := by
  induction cs using Text.inductionOnLines with
  | last text h =>
    intro line offset pre post t hlex ht
    rw [lexFrom_line h] at hlex
    obtain ⟨-, before, after, hr⟩ := lineTokens_requotes hlex ht
    exact ⟨before, after, hr.last_line h⟩
  | more text rest h ih =>
    intro line offset pre post t hlex ht
    rw [lexFrom_next_line h] at hlex
    have hlater : ∀ more, pre = lineTokens line offset text ++ more →
        lexFrom (line + 1) (offset + utf8Length text + 1) rest = more ++ t :: post →
          ∃ before after, t.Requotes (lexFrom line offset) offset (text ++ '\n' :: rest) pre post
            before after := by
      rintro more rfl hmore
      obtain ⟨before, after, hr⟩ := ih _ _ more post t hmore ht
      exact ⟨_, _, hr.next_line h⟩
    -- the string is on a later line or on the first one
    obtain ⟨more, hpre, hmore⟩ | ⟨more, hmore, hrest⟩ := List.append_eq_append_iff.mp hlex
    · exact hlater more hpre hmore
    · cases more with
      | nil => exact hlater [] (by simpa using hmore.symm) hrest.symm
      | cons u more =>
        obtain ⟨rfl, rfl⟩ := List.cons.inj hrest
        obtain ⟨hline, before, after, hr⟩ := lineTokens_requotes hmore ht
        exact ⟨_, _, hr.first_line hline h⟩

/-- Any text without quotes and line breaks may stand between the quotes of a string: the tokens stay
the same, and those behind the string move. -/
theorem tokenize_requote {source new : String} {pre post : List Token} {t : Token}
    (hts : tokenize source = pre ++ t :: post) (ht : t.kind = .string)
    (hquote : '"' ∉ new.toList) (hline : '\n' ∉ new.toList) :
    ∃ post', tokenize (t.requote source new) = pre ++ t.requoted new :: post' ∧
      List.Forall₂ (t.Moves new) post post' := by
  obtain ⟨before, after, hr⟩ := lexFrom_requotes source.toList 1 0 pre post t hts ht
  rw [hr.requote_eq, tokenize, String.toList_ofList]
  exact hr.anew new hquote hline

/-- A string between a word and an arrow, below a comment and with strings behind it. -/
def quotedSource : String :=
  "// \"\na-\"é\"->b \"\"\n\"\"c"

theorem tokenize_requote_of_quoted :
    (Token.requote ⟨.string, "é", ⟨7, 11⟩, 2, 3⟩ quotedSource "\x7b//->" =
      "// \"\na-\"\x7b//->\"->b \"\"\n\"\"c") ∧
    ∃ post post', tokenize quotedSource =
        [⟨.identifier, "a-", ⟨5, 7⟩, 2, 1⟩] ++ ⟨.string, "é", ⟨7, 11⟩, 2, 3⟩ :: post ∧
      tokenize (Token.requote ⟨.string, "é", ⟨7, 11⟩, 2, 3⟩ quotedSource "\x7b//->") =
        [⟨.identifier, "a-", ⟨5, 7⟩, 2, 1⟩] ++ ⟨.string, "\x7b//->", ⟨7, 14⟩, 2, 3⟩ :: post' ∧
      List.Forall₂ (Token.Moves ⟨.string, "é", ⟨7, 11⟩, 2, 3⟩ "\x7b//->") post post' := by
  have hts : tokenize quotedSource = [⟨.identifier, "a-", ⟨5, 7⟩, 2, 1⟩] ++
      ⟨.string, "é", ⟨7, 11⟩, 2, 3⟩ :: (tokenize quotedSource).drop 2 := by
    decide +kernel
  have hquote : '"' ∉ "\x7b//->".toList := by decide
  obtain ⟨post', hlex, hmoves⟩ := tokenize_requote hts rfl hquote (by decide)
  exact ⟨by decide +kernel, _, post', hts, hlex, hmoves⟩

end ArchDiagram
