import ArchDiagram.Proofs.Token.Lines

/-! Lexemes and their surroundings. A rule may look at what follows a lexeme, but only to see whether
the lexeme goes on there. So a lexeme stays the same if nothing follows it, and nearly all lexemes
stay the same in front of blanks and of the characters that end every run. -/
namespace ArchDiagram
open Text

namespace Lexeme

/-- Nothing can go on here: the line ends, or a character comes that belongs to no run. -/
def Halts (rest : List Char) : Prop :=
  ∀ c ∈ rest.head?, isPlain c = false

lemma halts_nil : Halts [] := by
  simp [Halts]

lemma halts_cons {c : Char} {cs : List Char} : Halts (c :: cs) ↔ isPlain c = false := by
  simp [Halts]

lemma isWordChar_of_isHexDigit {c : Char} (h : isHexDigit c = true) : isWordChar c = true := by
  have hletter : c.isAlpha = true → isWordChar c = true := by
    intro halpha
    exact isWordChar_of_startsIdentifier (by simp [startsIdentifier, halpha])
  simp only [isHexDigit, Bool.or_eq_true, Bool.and_eq_true, decide_eq_true_eq, Char.le_def] at h
  obtain (h | ⟨hlo, hhi⟩) | ⟨hlo, hhi⟩ := h
  · simp [isWordChar, Char.isAlphanum, h]
  · have hlower : c.isLower = true :=
      Bool.and_eq_true_iff.mpr ⟨decide_eq_true hlo, decide_eq_true (UInt32.le_trans hhi (by decide))⟩
    exact hletter (Bool.or_eq_true_iff.mpr (Or.inr hlower))
  · have hupper : c.isUpper = true := decide_eq_true ⟨hlo, UInt32.le_trans hhi (by decide)⟩
    exact hletter (Bool.or_eq_true_iff.mpr (Or.inl hupper))

lemma isWordChar_eq_false {c : Char} (h : isPlain c = false) : isWordChar c = false := by
  rw [Bool.eq_false_iff]
  intro hword
  rw [isPlain_of_isWordChar hword] at h
  contradiction

section
variable {c : Char} {x rest : List Char}

lemma head?_append_beq (h : Halts rest) :
    ((x ++ rest).head? == some '>') = (x.head? == some '>') := by
  cases x with
  | cons d x => rfl
  | nil =>
    cases rest with
    | nil => rfl
    | cons d rest =>
      have hd : d ≠ '>' := by
        rintro rfl
        exact absurd (halts_cons.mp h) (by decide)
      simpa using hd

lemma arrow?_append (h : Halts rest) : arrow? c (x ++ rest) = arrow? c x := by
  rw [arrow?, head?_append_beq h, arrow?]

/-- The first quote behind an opening one closes it, whatever follows. -/
lemma quoted?_append (h : '"' ∈ x) : quoted? c (x ++ rest) = quoted? c x := by
  have htake : (x ++ rest).takeWhile (· != '"') = x.takeWhile (· != '"') := by
    rw [List.takeWhile_append, if_neg]
    intro hlength
    have hself := (List.takeWhile_prefix (· != '"')).eq_of_length hlength
    simpa using List.takeWhile_eq_self_iff.mp hself '"' h
  simp [quoted?, htake, h]

lemma quoted?_of_ne (h : c ≠ '"') : quoted? c x = none := by
  simp [quoted?, h]

lemma color?_append (h : Halts rest) : color? c (x ++ rest) = color? c x := by
  have hword : ∀ d ∈ rest.head?, isWordChar d = false := fun d hd => isWordChar_eq_false (h d hd)
  by_cases hx : 6 ≤ x.length
  · have htake : (x ++ rest).take 6 = x.take 6 := List.take_append_of_le_length hx
    have hnext : ((x ++ rest).drop 6).head?.any isWordChar = (x.drop 6).head?.any isWordChar := by
      rw [List.drop_append_of_le_length hx]
      cases x.drop 6 with
      | cons d y => rfl
      | nil =>
        cases rest with
        | nil => rfl
        | cons d rest => simpa using hword d rfl
    have hlength : 6 ≤ (x ++ rest).length := by
      rw [List.length_append]
      omega
    rw [color?, color?, htake, hnext, decide_eq_true hx, decide_eq_true hlength]
  · have hnone : ∀ y : List Char, (∀ d ∈ y.head?, isWordChar d = false) → color? c (x ++ y) = none := by
      intro y hy
      cases y with
      | nil => simp [color?, hx]
      | cons d y =>
        -- the character that ends the run is one of the six
        have hmem : d ∈ (x ++ d :: y).take 6 := by
          rw [List.take_append]
          apply List.mem_append_right
          obtain ⟨k, hk⟩ : ∃ k, 6 - x.length = k + 1 := ⟨5 - x.length, by omega⟩
          rw [hk]
          exact List.mem_cons_self
        have hall : ((x ++ d :: y).take 6).all isHexDigit = false := by
          rw [List.all_eq_false]
          refine ⟨d, hmem, ?_⟩
          intro hhex
          simpa [hy d rfl] using isWordChar_of_isHexDigit hhex
        rw [color?, hall]
        simp
    have halone := hnone [] (by simp)
    rw [List.append_nil] at halone
    rw [hnone rest hword, halone]

lemma wordLength_append (h : Halts rest) : wordLength (x ++ rest) = wordLength x := by
  induction x with
  | nil =>
    cases rest with
    | nil => rfl
    | cons d rest => simp [wordLength, isWordChar_eq_false (halts_cons.mp h)]
  | cons d x ih => rw [List.cons_append, wordLength, wordLength, ih, head?_append_beq h]

lemma wordLength_le (cs : List Char) : wordLength cs ≤ cs.length := by
  fun_induction wordLength cs with
  | case1 => simp
  | case2 => simp
  | case3 c cs _ _ ih => simpa using ih
  | case4 => simp

lemma word?_append (h : Halts rest) : word? c (x ++ rest) = word? c x := by
  have hlength : wordLength (c :: (x ++ rest)) = wordLength (c :: x) := by
    rw [← List.cons_append, wordLength_append h]
  rw [word?, word?, hlength]
  have hle := wordLength_le (c :: x)
  cases hn : wordLength (c :: x) with
  | zero => rfl
  | succ n =>
    rw [hn, List.length_cons, Nat.add_le_add_iff_right] at hle
    simp only [List.take_append_of_le_length hle]

lemma unknown_append (h : Halts rest) : unknown c (x ++ rest) = unknown c x := by
  have hnone : rest.takeWhile isPlain = [] := by
    cases rest with
    | nil => rfl
    | cons d rest => simp [halts_cons.mp h]
  have htake : (x ++ rest).takeWhile isPlain = x.takeWhile isPlain := by
    rw [List.takeWhile_append, hnone, List.append_nil]
    split_ifs with hlength
    · exact ((List.takeWhile_prefix isPlain).eq_of_length hlength).symm
    · rfl
  rw [unknown, unknown, htake]

/-- What comes where nothing can go on does not change the lexeme in front of it, but it may close an
open quote. -/
theorem scan_append (h : Halts rest) (hquote : c = '"' → '"' ∈ x) :
    scan c (x ++ rest) = scan c x := by
  have hquoted : quoted? c (x ++ rest) = quoted? c x := by
    by_cases hc : c = '"'
    · exact quoted?_append (hquote hc)
    · rw [quoted?_of_ne hc, quoted?_of_ne hc]
  rw [scan, scan, arrow?_append h, hquoted, color?_append h, word?_append h, unknown_append h]

/-- Nothing at all changes closed quotes. -/
lemma scan_quote_append (h : '"' ∈ x) : scan '"' (x ++ rest) = scan '"' x := by
  have hquoted : quoted? '"' (x ++ rest) = quoted? '"' x := quoted?_append h
  have hfound : ∀ y : List Char, '"' ∈ y → ∃ r, quoted? '"' y = some r := by
    intro y hy
    simp [quoted?, hy]
  obtain ⟨r, hr⟩ := hfound x h
  rw [scan, scan, hquoted, hr]
  rfl

end

/-- The rule that gave a lexeme, or none of them. -/
lemma scan_cases (c : Char) (cs : List Char) :
    arrow? c cs = some (scan c cs) ∨ quoted? c cs = some (scan c cs) ∨
      punctuation? c = some (scan c cs) ∨ color? c cs = some (scan c cs) ∨
      word? c cs = some (scan c cs) ∨ punctuation? c = none ∧ unknown c cs = scan c cs := by
  rw [scan]
  cases ha : arrow? c cs with
  | some r => simp
  | none =>
    cases hq : quoted? c cs with
    | some r => simp
    | none =>
      cases hp : punctuation? c with
      | some r => simp
      | none =>
        cases hk : color? c cs with
        | some r => simp
        | none => cases hw : word? c cs <;> simp

lemma isWordChar_of_mem_take (cs : List Char) :
    ∀ d ∈ cs.take (wordLength cs), isWordChar d = true := by
  fun_induction wordLength cs with
  | case1 => simp
  | case2 => simp
  | case3 c cs _ hc ih =>
    intro d hd
    rw [List.take_succ_cons] at hd
    obtain rfl | hd := List.mem_cons.mp hd
    · exact hc
    · exact ih d hd
  | case4 => simp

lemma word?_eq_some {c : Char} {cs : List Char} {r : TokenKind × ℕ} (h : word? c cs = some r) :
    r.2 ≤ cs.length ∧ r.1 = .classify (String.ofList (c :: cs.take r.2)) ∧
      ∀ d ∈ c :: cs.take r.2, isWordChar d = true := by
  have hle := wordLength_le (c :: cs)
  have hword := isWordChar_of_mem_take (c :: cs)
  rw [word?] at h
  cases hn : wordLength (c :: cs) with
  | zero => simp [hn] at h
  | succ n =>
    rw [hn, List.length_cons, Nat.add_le_add_iff_right] at hle
    rw [hn, List.take_succ_cons] at hword
    rw [hn] at h
    obtain rfl := Option.some.inj h
    exact ⟨hle, rfl, hword⟩

lemma arrow?_eq_some {c : Char} {cs : List Char} {r : TokenKind × ℕ} (h : arrow? c cs = some r) :
    ∃ rest, c = '-' ∧ cs = '>' :: rest ∧ r = (.arrow, 1) := by
  rw [arrow?, Option.ite_none_right_eq_some, Bool.and_eq_true, beq_iff_eq, beq_iff_eq] at h
  obtain ⟨⟨rfl, hcs⟩, hr⟩ := h
  obtain ⟨rest, rfl⟩ := List.head?_eq_some_iff.mp hcs
  exact ⟨rest, rfl, rfl, (Option.some.inj hr).symm⟩

lemma color?_eq_some {c : Char} {cs : List Char} {r : TokenKind × ℕ} (h : color? c cs = some r) :
    c = '#' ∧ 6 ≤ cs.length ∧ (cs.take 6).all isHexDigit = true ∧ r = (.color, 6) := by
  rw [color?, Option.ite_none_right_eq_some] at h
  simp only [Bool.and_eq_true, beq_iff_eq, decide_eq_true_eq] at h
  obtain ⟨⟨⟨⟨rfl, hlength⟩, hhex⟩, -⟩, hr⟩ := h
  exact ⟨rfl, hlength, hhex, (Option.some.inj hr).symm⟩

/-- Punctuation is one character, whatever follows. -/
lemma scan_of_punctuation? {c : Char} {r : TokenKind × ℕ} (h : punctuation? c = some r)
    (cs : List Char) : scan c cs = r ∧ r.2 = 0 := by
  rw [punctuation?] at h
  split_ifs at h
  all_goals
    obtain rfl := beq_iff_eq.mp ‹_›
    obtain rfl := Option.some.inj h
    exact ⟨rfl, rfl⟩

/-- Where a run of unknown text ends nothing can go on. -/
lemma halts_drop_unknown {c : Char} (hc : isPlain c = true) (cs : List Char) :
    Halts (cs.drop (unknown c cs).2) := by
  have hcut : cs.drop (cs.takeWhile isPlain).length = cs.dropWhile isPlain := by
    have happ := List.takeWhile_append_dropWhile (p := isPlain) (l := cs)
    nth_rewrite 2 [← happ]
    exact List.drop_left
  rw [unknown, if_pos hc, hcut]
  intro d hd
  have hhead := List.head?_dropWhile_not isPlain cs
  rw [Option.mem_def.mp hd] at hhead
  simpa using hhead

/-- A lexeme is found again where nothing follows it. -/
theorem scan_take (c : Char) (cs : List Char) : scan c (cs.take (scan c cs).2) = scan c cs := by
  obtain h | h | h | h | h | ⟨hp, h⟩ := scan_cases c cs
  · obtain ⟨rest, rfl, rfl, hr⟩ := arrow?_eq_some h
    rw [hr]
    rfl
  · obtain ⟨inner, rest, rfl, hcs, hr⟩ := quoted?_eq_some h
    have hmem : '"' ∈ cs.take (scan '"' cs).2 := by
      rw [hr, hcs]
      simp [List.take_append]
    have happ : scan '"' (cs.take (scan '"' cs).2 ++ cs.drop (scan '"' cs).2) = _ :=
      scan_quote_append hmem
    rw [List.take_append_drop] at happ
    exact happ.symm
  · exact (scan_of_punctuation? h _).1
  · obtain ⟨rfl, hlength, hhex, hr⟩ := color?_eq_some h
    have hagain : (cs.take 6).take 6 = cs.take 6 := by rw [List.take_take, Nat.min_self]
    have hcolor : color? '#' (cs.take 6) = some (.color, 6) := by
      rw [color?, hagain, hhex]
      simp [hlength]
    rw [hr, scan, hcolor]
    rfl
  · obtain ⟨hle, hkind, hword⟩ := word?_eq_some h
    rw [scan_word hword, ← hkind, List.length_take_of_le hle]
  · rw [← h]
    by_cases hc : isPlain c = true
    · have hquote : c = '"' → '"' ∈ cs.take (unknown c cs).2 := by
        rintro rfl
        exact absurd hc (by decide)
      have happ := scan_append (halts_drop_unknown hc cs) hquote
      rw [List.take_append_drop] at happ
      rw [← happ, h]
    · rw [Bool.not_eq_true] at hc
      have hword : wordLength [c] = 0 := by simp [wordLength, isWordChar_eq_false hc]
      simp [scan, arrow?, quoted?, hp, color?, word?, hword, unknown, hc]

lemma scan_length_le (c : Char) (cs : List Char) : (scan c cs).2 ≤ cs.length := by
  obtain h | h | h | h | h | ⟨-, h⟩ := scan_cases c cs
  · obtain ⟨rest, -, rfl, hr⟩ := arrow?_eq_some h
    simp [hr]
  · obtain ⟨inner, rest, -, rfl, hr⟩ := quoted?_eq_some h
    simp [hr]
  · rw [(scan_of_punctuation? h cs).2]
    exact Nat.zero_le _
  · obtain ⟨-, hlength, -, hr⟩ := color?_eq_some h
    rwa [hr]
  · exact (word?_eq_some h).1
  · rw [← h, unknown]
    split_ifs
    · exact (List.takeWhile_sublist isPlain).length_le
    · exact Nat.zero_le _

/-- The lexer takes the whole of a text and calls it so, where `rest` follows on the line. -/
def Takes (kind : TokenKind) (text rest : List Char) : Prop :=
  ∃ c cs, text = c :: cs ∧ isBlank c = false ∧ scan c (cs ++ rest) = (kind, cs.length)

namespace Takes

variable {kind : TokenKind} {text rest : List Char}

lemma of_scan {c : Char} (hc : isBlank c = false) (cs : List Char) :
    Takes (scan c cs).1 (c :: cs.take (scan c cs).2) (cs.drop (scan c cs).2) := by
  refine ⟨c, _, rfl, hc, ?_⟩
  rw [List.take_append_drop, List.length_take_of_le (scan_length_le c cs)]

/-- A lexeme stays one by itself. -/
lemma alone (h : Takes kind text rest) : Takes kind text [] := by
  obtain ⟨c, cs, rfl, hc, hscan⟩ := h
  have htake := scan_take c (cs ++ rest)
  rw [hscan, List.take_left] at htake
  exact ⟨c, cs, rfl, hc, by rwa [List.append_nil]⟩

/-- A lexeme that is not unknown stays one wherever nothing can go on. -/
lemma before (h : Takes kind text []) (hkind : kind ≠ .unknown) (hrest : Halts rest) :
    Takes kind text rest := by
  obtain ⟨c, cs, rfl, hc, hscan⟩ := h
  rw [List.append_nil] at hscan
  refine ⟨c, cs, rfl, hc, ?_⟩
  rw [scan_append hrest, hscan]
  rintro rfl
  by_contra hmem
  have hstray : scan '"' cs = unknown '"' cs := by
    have hquoted : quoted? '"' cs = none := by simp [quoted?, hmem]
    rw [scan, hquoted]
    rfl
  rw [hstray] at hscan
  exact hkind (Prod.ext_iff.mp hscan).1.symm

/-- The token of a lexeme at the front of a line. -/
lemma lexLine_append (h : Takes kind text rest) (p : Place) :
    lexLine p (text ++ rest) =
      ⟨kind, value kind text, ⟨p.offset, (p.after text).offset⟩, p.line, p.column⟩ ::
        lexLine (p.after text) rest := by
  obtain ⟨c, cs, rfl, hc, hscan⟩ := h
  rw [List.cons_append, lexLine, hc, if_neg Bool.false_ne_true, hscan]
  simp

lemma not_silent (h : Takes kind text rest) (hslashes : ¬ ['/', '/'] <+: text) :
    isSilent text = false := by
  obtain ⟨c, cs, rfl, hc, -⟩ := h
  rw [Bool.eq_false_iff]
  intro hsilent
  rw [isSilent, List.dropWhile_cons_of_neg (by simp [hc])] at hsilent
  simp only [Bool.and_eq_true, beq_iff_eq] at hsilent
  obtain ⟨rfl, hcs⟩ := hsilent
  obtain ⟨rest, rfl⟩ := List.head?_eq_some_iff.mp hcs
  exact hslashes ⟨rest, rfl⟩

end Takes

end Lexeme

@[simp] theorem Token.value_text (t : Token) : Lexeme.value t.kind t.text = t.value := by
  rw [Lexeme.value, Token.text]
  split_ifs <;> simp

lemma lexLine_takes (p : Place) (cs : List Char) :
    ∀ t ∈ lexLine p cs, ∃ rest, Lexeme.Takes t.kind t.text rest := by
  fun_induction lexLine p cs with
  | case1 p => simp
  | case2 p c cs hc ih => exact ih
  | case3 p c cs hc kind n text q ih =>
    intro t ht
    obtain rfl | ht := List.mem_cons.mp ht
    · refine ⟨cs.drop n, ?_⟩
      rw [Lexeme.text_token c cs]
      exact .of_scan (by simpa using hc) cs
    · exact ih t ht

lemma lineTokens_takes (line offset : ℕ) (text : List Char) :
    ∀ t ∈ lineTokens line offset text, ∃ rest, Lexeme.Takes t.kind t.text rest := by
  intro t ht
  rw [lineTokens] at ht
  split_ifs at ht with hsilent
  · cases ht
  · exact lexLine_takes _ _ t ht

lemma lexFrom_takes (cs : List Char) : ∀ line offset, ∀ t ∈ lexFrom line offset cs,
    ∃ rest, Lexeme.Takes t.kind t.text rest := by
  induction cs using Text.inductionOnLines with
  | last text h =>
    intro line offset
    rw [lexFrom_line h]
    exact lineTokens_takes line offset text
  | more text rest h ih =>
    intro line offset t ht
    rw [lexFrom_next_line h] at ht
    obtain ht | ht := List.mem_append.mp ht
    · exact lineTokens_takes line offset text t ht
    · exact ih _ _ t ht

/-- The text of every token is a lexeme by itself. -/
theorem tokenize_takes {source : String} {t : Token} (ht : t ∈ tokenize source) :
    Lexeme.Takes t.kind t.text [] := by
  obtain ⟨rest, h⟩ := lexFrom_takes source.toList 1 0 t ht
  exact h.alone

lemma newline_not_mem_text {source : String} {t : Token} (ht : t ∈ tokenize source) :
    '\n' ∉ t.text := by
  obtain ⟨before, after, -, hstands⟩ := (lexFrom_partition 1 0 source.toList).stands t ht
  exact hstands.one_line

end ArchDiagram
