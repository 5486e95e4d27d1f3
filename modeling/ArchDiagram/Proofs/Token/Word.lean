import ArchDiagram.Proofs.Token.Placement

/-! Words against the lexer. The class of a word is decided on the whole of it, while the lexer looks
for words one character after the other. A word of a known class is one token, and the token is of
that class unless the word is a number with a plus, which no word of the lexer begins with. -/
namespace ArchDiagram
open Text

lemma toNat_of_isWordChar {c : Char} (h : isWordChar c = true) :
    c.toNat = 45 ∨ c.toNat = 46 ∨ 48 ≤ c.toNat ∧ c.toNat ≤ 57 ∨ 65 ≤ c.toNat ∧ c.toNat ≤ 90 ∨
      c.toNat = 95 ∨ 97 ≤ c.toNat ∧ c.toNat ≤ 122 := by
  change (decide ('A'.val ≤ c.val ∧ c.val ≤ 'Z'.val) || (decide ('a'.val ≤ c.val) &&
    decide (c.val ≤ 'z'.val)) || (decide ('0'.val ≤ c.val) && decide (c.val ≤ '9'.val)) ||
    c == '_' || c == '.' || c == '-') = true at h
  simp only [Bool.or_eq_true, Bool.and_eq_true, decide_eq_true_eq, beq_iff_eq,
    UInt32.le_iff_toNat_le] at h
  change ((((65 ≤ c.toNat ∧ c.toNat ≤ 90 ∨ 97 ≤ c.toNat ∧ c.toNat ≤ 122) ∨
    48 ≤ c.toNat ∧ c.toNat ≤ 57) ∨ c = '_') ∨ c = '.') ∨ c = '-' at h
  obtain ((h | rfl) | rfl) | rfl := h
  · omega
  · decide
  · decide
  · decide

lemma isWordChar_of_isDigit {c : Char} (h : Decimal.isDigit c = true) : isWordChar c = true := by
  have hdigit : c.isDigit = true := by
    simpa [Decimal.isDigit, Char.isDigit, Char.le_def] using h
  simp [isWordChar, Char.isAlphanum, hdigit]

lemma isWordChar_of_startsIdentifier {c : Char} (h : startsIdentifier c = true) :
    isWordChar c = true := by
  rw [startsIdentifier, Bool.or_eq_true] at h
  obtain h | h := h
  · simp [isWordChar, Char.isAlphanum, h]
  · simp [isWordChar, h]

lemma isBlank_eq_false {c : Char} (h : 32 < c.toNat) (h' : c.toNat < 133) :
    isBlank c = false := by
  simp only [isBlank, blankRanges, List.any_cons, List.any_nil, Bool.or_false, Bool.or_eq_false_iff,
    Bool.and_eq_false_iff, decide_eq_false_iff_not]
  omega

/-- A character of words is none of the others. -/
lemma beq_eq_false_of_isWordChar {c d : Char} (h : isWordChar c = true)
    (hd : isWordChar d = false) : (c == d) = false := by
  rw [beq_eq_false_iff_ne]
  rintro rfl
  rw [hd] at h
  contradiction

lemma isPlain_of_isWordChar {c : Char} (h : isWordChar c = true) : Lexeme.isPlain c = true := by
  have hblank : isBlank c = false := by
    have hc := toNat_of_isWordChar h
    exact isBlank_eq_false (by omega) (by omega)
  have hother : ∀ d, isWordChar d = false → (c == d) = false :=
    fun _ => beq_eq_false_of_isWordChar h
  rw [Lexeme.isPlain, hblank, hother '\x7b' rfl, hother '\x7d' rfl, hother ':' rfl, hother '=' rfl,
    hother '"' rfl]
  rfl

lemma isBlank_of_isPlain {c : Char} (h : Lexeme.isPlain c = true) : isBlank c = false := by
  rw [Lexeme.isPlain, Bool.and_eq_true] at h
  simpa using h.1

lemma ne_newline_of_isPlain {c : Char} (h : Lexeme.isPlain c = true) : c ≠ '\n' := by
  rintro rfl
  contradiction

lemma lexFrom_line {cs : List Char} (h : '\n' ∉ cs) (line offset : ℕ) :
    lexFrom line offset cs = lineTokens line offset cs := by
  have hne : ∀ c ∈ cs, (c != '\n') = true := by
    intro c hc
    simpa using ne_of_mem_of_not_mem hc h
  have htake := List.takeWhile_eq_self_iff.mpr hne
  have hdrop := List.dropWhile_eq_nil_iff.mpr hne
  rw [lexFrom]
  split
  · rw [htake]
    rfl
  · simp_all

/-- A text of one line that the first lexeme takes whole. -/
theorem tokenize_lexeme {c : Char} {cs : List Char} {kind : TokenKind} (hline : '\n' ∉ c :: cs)
    (hsilent : isSilent (c :: cs) = false) (hblank : isBlank c = false)
    (hscan : Lexeme.scan c cs = (kind, cs.length)) :
    tokenize (String.ofList (c :: cs)) =
      [⟨kind, Lexeme.value kind (c :: cs), ⟨0, utf8Length (c :: cs)⟩, 1, 1⟩] := by
  rw [tokenize, String.toList_ofList, lexFrom_line hline, lineTokens, hsilent]
  rw [if_neg Bool.false_ne_true, lexLine]
  simp [hblank, hscan, lexLine, Place.after]

/-- A line is silent only if it begins with a blank or a slash. -/
lemma isSilent_eq_false {c : Char} (hblank : isBlank c = false) (hslash : c ≠ '/')
    (cs : List Char) : isSilent (c :: cs) = false := by
  simp [isSilent, hblank, hslash]

namespace Lexeme

/-- No arrow ends a word without its head. -/
lemma head?_beq_eq_false {cs : List Char} (h : ∀ c ∈ cs, isWordChar c = true) :
    (cs.head? == some '>') = false := by
  cases cs with
  | nil => rfl
  | cons c cs => exact beq_eq_false_of_isWordChar (h c List.mem_cons_self) rfl

lemma wordLength_eq_length {cs : List Char} (h : ∀ c ∈ cs, isWordChar c = true) :
    wordLength cs = cs.length := by
  induction cs with
  | nil => rfl
  | cons c cs ih =>
    have hcs : ∀ d ∈ cs, isWordChar d = true := fun d hd => h d (List.mem_cons_of_mem c hd)
    rw [wordLength, head?_beq_eq_false hcs, Bool.and_false, if_neg Bool.false_ne_true,
      if_pos (h c List.mem_cons_self), ih hcs, List.length_cons]

/-- Characters of words make one word. -/
lemma scan_word {c : Char} {cs : List Char} (h : ∀ d ∈ c :: cs, isWordChar d = true) :
    scan c cs = (.classify (String.ofList (c :: cs)), cs.length) := by
  have hcs : ∀ d ∈ cs, isWordChar d = true := fun d hd => h d (List.mem_cons_of_mem c hd)
  have hother : ∀ d, isWordChar d = false → (c == d) = false :=
    fun _ => beq_eq_false_of_isWordChar (h c List.mem_cons_self)
  have harrow : arrow? c cs = none := by
    rw [arrow?, head?_beq_eq_false hcs, Bool.and_false]
    rfl
  have hquoted : quoted? c cs = none := by
    rw [quoted?, hother '"' rfl]
    rfl
  have hpunctuation : punctuation? c = none := by
    rw [punctuation?, hother '\x7b' rfl, hother '\x7d' rfl, hother ':' rfl, hother '=' rfl]
    rfl
  have hcolor : color? c cs = none := by
    rw [color?, hother '#' rfl]
    rfl
  have hword : word? c cs = some (.classify (String.ofList (c :: cs)), cs.length) := by
    rw [word?, wordLength_eq_length h, List.length_cons]
    simp
  rw [scan, harrow, hquoted, hpunctuation, hcolor, hword]
  rfl

/-- A plus begins no word, and what follows it goes on with it as plain text. -/
lemma scan_plus {cs : List Char} (h : ∀ d ∈ cs, isWordChar d = true) :
    scan '+' cs = (.unknown, cs.length) := by
  have hplain : cs.takeWhile isPlain = cs := by
    rw [List.takeWhile_eq_self_iff]
    exact fun d hd => isPlain_of_isWordChar (h d hd)
  have hrun : unknown '+' cs = (.unknown, cs.length) := by
    rw [unknown, hplain]
    rfl
  rw [scan, ← hrun]
  rfl

end Lexeme

lemma isIdentifier_chars {cs : List Char} (h : isIdentifier cs = true) :
    cs ≠ [] ∧ ∀ c ∈ cs, isWordChar c = true := by
  cases cs with
  | nil => contradiction
  | cons c cs =>
    rw [isIdentifier, Bool.and_eq_true, List.all_eq_true] at h
    refine ⟨List.cons_ne_nil c cs, ?_⟩
    intro d hd
    obtain rfl | hd := List.mem_cons.mp hd
    · exact isWordChar_of_startsIdentifier h.1
    · exact h.2 d hd

/-- Behind its sign a numeral is made of characters of words. -/
lemma isNumeral_chars {cs : List Char} (h : isNumeral cs = true) :
    (Decimal.sign cs).2 ≠ [] ∧ ∀ c ∈ (Decimal.sign cs).2, isWordChar c = true := by
  rw [isNumeral] at h
  generalize (Decimal.sign cs).2 = body at h
  have hcut := List.takeWhile_append_dropWhile (p := Decimal.isDigit) (l := body)
  have hwhole : ∀ c ∈ body.takeWhile Decimal.isDigit, isWordChar c = true :=
    fun c hc => isWordChar_of_isDigit (List.mem_takeWhile_imp hc)
  cases hd : body.dropWhile Decimal.isDigit with
  | nil =>
    rw [hd] at h hcut
    rw [List.append_nil] at hcut
    rw [hcut] at hwhole
    exact ⟨by simpa using h, hwhole⟩
  | cons point part =>
    simp only [hd, Bool.and_eq_true, beq_iff_eq, List.all_eq_true] at h
    obtain ⟨⟨rfl, -⟩, hpart⟩ := h
    rw [hd] at hcut
    rw [← hcut]
    refine ⟨by simp, ?_⟩
    intro c hc
    obtain hc | hc := List.mem_append.mp hc
    · exact hwhole c hc
    · obtain rfl | hc := List.mem_cons.mp hc
      · rfl
      · exact isWordChar_of_isDigit (hpart c hc)

/-- A sign is one of two characters in front. -/
lemma sign_cases (cs : List Char) :
    cs = (Decimal.sign cs).2 ∨ cs = '-' :: (Decimal.sign cs).2 ∨ cs = '+' :: (Decimal.sign cs).2 := by
  fun_cases Decimal.sign cs <;> simp

/-- Keywords and names of properties are spelled like identifiers. -/
lemma spelling_of_classify {w : String} (h : TokenKind.classify w ≠ .unknown) :
    isIdentifier w.toList = true ∨ isNumeral w.toList = true := by
  rw [TokenKind.classify] at h
  cases hk : Keyword.ofText? w with
  | some k =>
    obtain rfl : k.text = w := by simpa using List.find?_some hk
    left
    cases k <;> decide
  | none =>
    rw [hk] at h
    simp only at h
    split_ifs at h with hproperty hnumeral hidentifier
    · have hall : ∀ name ∈ propertyNames, isIdentifier name.toList = true := by decide
      exact Or.inl (hall w hproperty)
    · exact Or.inr hnumeral
    · exact Or.inl hidentifier
    · contradiction

/-- What is known of the characters of a word with a class. -/
lemma chars_of_classify {w : String} (h : TokenKind.classify w ≠ .unknown) :
    ∃ c cs, w.toList = c :: cs ∧ (c = '+' ∨ isWordChar c = true) ∧
      ∀ d ∈ cs, isWordChar d = true := by
  obtain hw | hw := spelling_of_classify h
  · obtain ⟨hne, hall⟩ := isIdentifier_chars hw
    obtain ⟨c, cs, hcs⟩ := List.exists_cons_of_ne_nil hne
    rw [hcs] at hall
    exact ⟨c, cs, hcs, Or.inr (hall c List.mem_cons_self), fun d hd => hall d (by simp [hd])⟩
  · obtain ⟨hne, hall⟩ := isNumeral_chars hw
    obtain hcs | hcs | hcs := sign_cases w.toList
    · obtain ⟨c, cs, hbody⟩ := List.exists_cons_of_ne_nil hne
      rw [hbody] at hall hcs
      exact ⟨c, cs, hcs, Or.inr (hall c List.mem_cons_self), fun d hd => hall d (by simp [hd])⟩
    · exact ⟨'-', _, hcs, Or.inr rfl, hall⟩
    · exact ⟨'+', _, hcs, Or.inl rfl, hall⟩

lemma classify_ne_string (w : String) : TokenKind.classify w ≠ .string := by
  rw [TokenKind.classify]
  split
  · simp
  · split_ifs <;> simp

/-- A word of a known class is one token, which is of that class unless the word begins with a
plus. -/
theorem tokenize_classified {w : String} (h : TokenKind.classify w ≠ .unknown) :
    tokenize w = [⟨if w.toList.head? = some '+' then .unknown else .classify w, w,
      ⟨0, w.utf8ByteSize⟩, 1, 1⟩] := by
  obtain ⟨c, cs, hw, hc, hcs⟩ := chars_of_classify h
  obtain rfl : w = String.ofList (c :: cs) := by rw [← hw, String.ofList_toList]
  have hplain : ∀ d ∈ c :: cs, Lexeme.isPlain d = true := by
    intro d hd
    obtain rfl | hd := List.mem_cons.mp hd
    · obtain rfl | hd := hc
      · rfl
      · exact isPlain_of_isWordChar hd
    · exact isPlain_of_isWordChar (hcs d hd)
  have hline : '\n' ∉ c :: cs := fun hmem => ne_newline_of_isPlain (hplain _ hmem) rfl
  have hblank : isBlank c = false := isBlank_of_isPlain (hplain c List.mem_cons_self)
  have hslash : c ≠ '/' := by
    rintro rfl
    obtain hc | hc := hc <;> contradiction
  have hscan : Lexeme.scan c cs =
      (if c = '+' then .unknown else .classify (String.ofList (c :: cs)), cs.length) := by
    split_ifs with hplus
    · rw [hplus, Lexeme.scan_plus hcs]
    · apply Lexeme.scan_word
      intro d hd
      obtain rfl | hd := List.mem_cons.mp hd
      · exact hc.resolve_left hplus
      · exact hcs d hd
  rw [tokenize_lexeme hline (isSilent_eq_false hblank hslash cs) hblank hscan, utf8ByteSize_ofList]
  have hvalue : Lexeme.value (if c = '+' then .unknown else .classify (String.ofList (c :: cs)))
      (c :: cs) = String.ofList (c :: cs) := by
    rw [Lexeme.value, if_neg]
    split_ifs
    · simp
    · exact classify_ne_string _
  rw [hvalue]
  simp

theorem tokenize_classified_plus : TokenKind.classify "+7" = .number ∧
    tokenize "+7" = [⟨.unknown, "+7", ⟨0, 2⟩, 1, 1⟩] := by
  have hclass : TokenKind.classify "+7" = .number := by decide
  refine ⟨hclass, ?_⟩
  exact tokenize_classified (w := "+7") (by rw [hclass]; decide)

end ArchDiagram
