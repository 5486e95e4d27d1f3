import Mathlib.Data.List.DropRight
import ArchDiagram.Proofs.Token.Order

/-! Where tokens stand. The text of a token is found in the source at its span, line and column, and
what no token covers is blank or a comment. Lines are independent of each other, so both are shown
for one line, counted from its start, and then carried along the lines of a text. -/
namespace ArchDiagram
open Text

namespace Text

lemma utf8ByteSize_ofList (cs : List Char) : (String.ofList cs).utf8ByteSize = utf8Length cs := by
  induction cs with
  | nil => rfl
  | cons c cs ih =>
    rw [String.ofList_cons, String.utf8ByteSize_append, String.utf8ByteSize_singleton, ih,
      utf8Length_cons]

/-- Without the blanks at both ends. -/
def trim (cs : List Char) : List Char :=
  (cs.dropWhile isBlank).rdropWhile isBlank

/-- A line that starts with two slashes once it is trimmed. -/
def IsComment (line : List Char) : Prop :=
  ['/', '/'] <+: trim line

/-- The line around a place with the text `before` in front of it and `after` behind it. -/
def lineAt (before after : List Char) : List Char :=
  before.rtakeWhile (· != '\n') ++ after.takeWhile (· != '\n')

/-- Blanks at the end do not hide two slashes at the front. -/
lemma slashes_prefix_rdropWhile_iff {cs : List Char} :
    ['/', '/'] <+: cs.rdropWhile isBlank ↔ ['/', '/'] <+: cs := by
  constructor
  · intro h
    exact h.trans (List.rdropWhile_prefix isBlank cs)
  · rintro ⟨rest, rfl⟩
    induction rest using List.reverseRecOn with
    | nil => decide
    | append_singleton rest c ih =>
      rw [← List.append_assoc, List.rdropWhile_concat]
      split_ifs
      · exact ih
      · rw [List.append_assoc]
        exact List.prefix_append _ _

lemma isSilent_iff {line : List Char} :
    isSilent line = true ↔ (∀ c ∈ line, isBlank c = true) ∨ IsComment line := by
  rw [← List.dropWhile_eq_nil_iff, IsComment, trim, slashes_prefix_rdropWhile_iff, isSilent]
  match line.dropWhile isBlank with
  | [] => simp
  | [c] => simp
  | c :: d :: cs => simp [@eq_comm _ c, @eq_comm _ d]

/-- A text up to the first occurrence of a character. -/
lemma eq_takeWhile_append {d e : Char} {cs rest : List Char}
    (h : cs.dropWhile (· != d) = e :: rest) : cs = cs.takeWhile (· != d) ++ d :: rest := by
  have hhead := List.head?_dropWhile_not (· != d) cs
  rw [h] at hhead
  obtain rfl : e = d := by simpa using hhead
  rw [← h, List.takeWhile_append_dropWhile]

lemma utf8Length_next_line (line rest : List Char) :
    utf8Length (line ++ '\n' :: rest) = utf8Length line + 1 + utf8Length rest := by
  rw [utf8Length_append, utf8Length_cons, Nat.add_assoc]
  rfl

lemma rtakeWhile_next_line (line before : List Char) :
    (line ++ '\n' :: before).rtakeWhile (· != '\n') = before.rtakeWhile (· != '\n') := by
  induction before using List.reverseRecOn with
  | nil => simp
  | append_singleton before c ih =>
    rw [← List.cons_append, ← List.append_assoc, List.rtakeWhile_concat, List.rtakeWhile_concat, ih]

lemma lineAt_next_line (line before after : List Char) :
    lineAt (line ++ '\n' :: before) after = lineAt before after := by
  rw [lineAt, rtakeWhile_next_line, lineAt]

lemma rtakeWhile_of_not_mem {before : List Char} (h : '\n' ∉ before) :
    before.rtakeWhile (· != '\n') = before := by
  rw [List.rtakeWhile_eq_self_iff]
  intro c hc
  simpa using ne_of_mem_of_not_mem hc h

/-- On the first line of a text. -/
lemma lineAt_first_line {before after rest : List Char} (hline : '\n' ∉ before ++ after)
    (hrest : rest.head?.all (· = '\n')) : lineAt before (after ++ rest) = before ++ after := by
  rw [List.mem_append, not_or] at hline
  have hafter : after.takeWhile (· != '\n') = after := by
    rw [List.takeWhile_eq_self_iff]
    intro c hc
    simpa using ne_of_mem_of_not_mem hc hline.2
  have hnone : rest.takeWhile (· != '\n') = [] := by
    cases rest with
    | nil => rfl
    | cons c rest => simpa using hrest
  rw [lineAt, rtakeWhile_of_not_mem hline.1, List.takeWhile_append, hafter, hnone]
  simp

end Text

namespace Token

/-- The text of a token in the source: its value, in quotes if it is a string. -/
def text (t : Token) : List Char :=
  if t.kind = .string then '"' :: t.value.toList ++ ['"'] else t.value.toList

/-- Whether a byte belongs to the token. -/
def Covers (t : Token) (offset : ℕ) : Prop :=
  t.span.start ≤ offset ∧ offset < t.span.stop

/-- A token with the text `before` in front of it and `after` behind it, in lines that start at an
offset and have numbers from `line` on. -/
structure StandsBetween (line offset : ℕ) (t : Token) (before after : List Char) : Prop where
  start : t.span.start = offset + utf8Length before
  stop : t.span.stop = offset + utf8Length (before ++ t.text)
  line : t.line = line + before.count '\n'
  column : t.column = 1 + (before.rtakeWhile (· != '\n')).length
  one_line : '\n' ∉ t.text
  not_comment : ¬ IsComment (lineAt before (t.text ++ after))

/-- The token stands somewhere in a text. -/
def StandsIn (line offset : ℕ) (t : Token) (cs : List Char) : Prop :=
  ∃ before after, cs = before ++ t.text ++ after ∧ t.StandsBetween line offset before after

end Token

/-- Tokens that partition a text of such lines, up to blanks and comments. -/
structure Partition (line offset : ℕ) (cs : List Char) (ts : List Token) : Prop where
  between : TokensBetween offset (offset + utf8Length cs) ts
  stands : ∀ t ∈ ts, t.StandsIn line offset cs
  /-- What stands outside of all tokens. -/
  gaps : ∀ before c after, cs = before ++ c :: after →
    (∀ t ∈ ts, ¬ t.Covers (offset + utf8Length before)) →
      isBlank c = true ∨ IsComment (lineAt before (c :: after))

namespace Lexeme

lemma quoted?_eq_some {c : Char} {cs : List Char} {r : TokenKind × ℕ} (h : quoted? c cs = some r) :
    ∃ inner rest, c = '"' ∧ cs = inner ++ '"' :: rest ∧ r = (.string, inner.length + 1) := by
  rw [quoted?, Option.ite_none_right_eq_some, Bool.and_eq_true, beq_iff_eq,
    List.contains_iff_mem] at h
  obtain ⟨⟨hc, hcs⟩, hr⟩ := h
  cases hd : cs.dropWhile (· != '"') with
  | nil => simpa using List.dropWhile_eq_nil_iff.mp hd '"' hcs
  | cons d rest =>
    exact ⟨_, rest, hc, eq_takeWhile_append hd, (Option.some.inj hr).symm⟩

/-- Only quoted text is a string: no other rule gives that kind. -/
lemma scan_eq_string {c : Char} {cs : List Char} (h : (scan c cs).1 = .string) :
    quoted? c cs = some (scan c cs) := by
  have harrow : (arrow? c cs).all (·.1 ≠ .string) = true := by
    rw [arrow?]
    split_ifs <;> rfl
  have hpunctuation : (punctuation? c).all (·.1 ≠ .string) = true := by
    rw [punctuation?]
    split_ifs <;> rfl
  have hcolor : (color? c cs).all (·.1 ≠ .string) = true := by
    rw [color?]
    split_ifs <;> rfl
  have hword : (word? c cs).all (·.1 ≠ .string) = true := by
    rw [word?]
    split
    · rfl
    · rw [TokenKind.classify]
      split
      · rfl
      · split_ifs <;> rfl
  rw [scan] at h ⊢
  cases ha : arrow? c cs with
  | some r => simp_all
  | none =>
    cases hq : quoted? c cs with
    | some r => simp
    | none =>
      cases hp : punctuation? c <;> cases hk : color? c cs <;> cases hw : word? c cs <;>
        simp_all [unknown]

/-- What the token of a lexeme says about its text. -/
lemma text_token (c : Char) (cs : List Char) (span : Span) (line column : ℕ) :
    Token.text ⟨(scan c cs).1, value (scan c cs).1 (c :: cs.take (scan c cs).2), span, line, column⟩ =
      c :: cs.take (scan c cs).2 := by
  rw [Token.text, value]
  split_ifs with h
  · obtain ⟨inner, rest, rfl, rfl, hscan⟩ := quoted?_eq_some (scan_eq_string h)
    simp [hscan, List.take_append]
  · simp

end Lexeme

/-- The tokens of a line, counted from its start. -/
theorem lexLine_stands (p : Place) (cs : List Char) : ∀ t ∈ lexLine p cs, ∃ before after,
    cs = before ++ t.text ++ after ∧ t.span.start = p.offset + utf8Length before ∧
      t.span.stop = p.offset + utf8Length (before ++ t.text) ∧ t.line = p.line ∧
      t.column = p.column + before.length := by
  fun_induction lexLine p cs with
  | case1 p => simp
  | case2 p c cs hc ih =>
    intro t ht
    obtain ⟨before, after, rfl, hstart, hstop, hline, hcolumn⟩ := ih t ht
    refine ⟨c :: before, after, rfl, ?_, ?_, hline, ?_⟩
    · rw [hstart]
      simp [Place.after, Nat.add_assoc]
    · rw [hstop]
      simp [Place.after, Nat.add_assoc]
    · rw [hcolumn]
      simp [Place.after, Nat.add_assoc, Nat.add_comm 1]
  | case3 p c cs hc kind n text q ih =>
    intro t ht
    obtain rfl | ht := List.mem_cons.mp ht
    · have htext := Lexeme.text_token c cs ⟨p.offset, q.offset⟩ p.line p.column
      refine ⟨[], cs.drop n, ?_, rfl, ?_, rfl, rfl⟩
      · rw [htext]
        simp [n]
      · rw [htext]
        rfl
    · obtain ⟨before, after, hcut, hstart, hstop, hline, hcolumn⟩ := ih t ht
      refine ⟨text ++ before, after, ?_, ?_, ?_, hline, ?_⟩
      · rw [List.append_assoc, List.append_assoc, ← List.append_assoc before, ← hcut]
        simp [text]
      · rw [hstart]
        simp [q, Place.after, Nat.add_assoc]
      · rw [hstop]
        simp [q, Place.after, Nat.add_assoc]
      · rw [hcolumn]
        simp [q, Place.after, Nat.add_assoc]

/-- Only blanks are left out. -/
theorem lexLine_covers (p : Place) (cs : List Char) : ∀ before c after, cs = before ++ c :: after →
    isBlank c = false → ∃ t ∈ lexLine p cs, t.Covers (p.offset + utf8Length before) := by
  fun_induction lexLine p cs with
  | case1 p => simp
  | case2 p c cs hc ih =>
    intro before d after hcs hd
    cases before with
    | nil =>
      obtain ⟨rfl, -⟩ := List.cons.inj hcs
      simp [hc] at hd
    | cons b before =>
      obtain ⟨rfl, hrest⟩ := List.cons.inj hcs
      obtain ⟨t, ht, hcover⟩ := ih before d after hrest hd
      refine ⟨t, ht, ?_⟩
      rwa [utf8Length_cons, ← Nat.add_assoc]
  | case3 p c cs hc kind n text q ih =>
    intro before d after hcs hd
    have hcut : text ++ cs.drop n = before ++ d :: after := by
      rw [← hcs]
      simp [text]
    have hlater : ∀ rest, before = text ++ rest → cs.drop n = rest ++ d :: after →
        ∃ t ∈ lexLine q (cs.drop n), t.Covers (p.offset + utf8Length before) := by
      rintro rest rfl hrest
      obtain ⟨t, ht, hcover⟩ := ih rest d after hrest hd
      refine ⟨t, ht, ?_⟩
      rwa [utf8Length_append, ← Nat.add_assoc]
    -- the character is behind the first lexeme or in it
    obtain ⟨rest, hbefore, hrest⟩ | ⟨inner, htext, hinner⟩ := List.append_eq_append_iff.mp hcut
    · obtain ⟨t, ht, hcover⟩ := hlater rest hbefore hrest
      exact ⟨t, List.mem_cons_of_mem _ ht, hcover⟩
    · cases inner with
      | nil =>
        obtain ⟨t, ht, hcover⟩ := hlater [] (by simpa using htext.symm) hinner.symm
        exact ⟨t, List.mem_cons_of_mem _ ht, hcover⟩
      | cons e inner =>
        refine ⟨_, List.mem_cons_self, Nat.le_add_right _ _, ?_⟩
        have hsize := e.utf8Size_pos
        have hlength : utf8Length text = utf8Length before + (e.utf8Size + utf8Length inner) := by
          rw [htext, utf8Length_append, utf8Length_cons]
        change _ < p.offset + utf8Length text
        omega

/-- The tokens of a line; none if it is blank or a comment. -/
def lineTokens (line offset : ℕ) (cs : List Char) : List Token :=
  if isSilent cs then [] else lexLine ⟨offset, line, 1⟩ cs

section
variable {line offset : ℕ} {cs : List Char} (rest : List Char)

/-- The tokens of a line that is the first of a text. -/
lemma lineTokens_stands (hcs : '\n' ∉ cs) (hrest : rest.head?.all (· = '\n')) :
    ∀ t ∈ lineTokens line offset cs, t.StandsIn line offset (cs ++ rest) := by
  intro t ht
  rw [lineTokens] at ht
  split_ifs at ht with hsilent
  · simp at ht
  obtain ⟨before, after, rfl, hstart, hstop, hline, hcolumn⟩ := lexLine_stands _ _ t ht
  simp only [List.mem_append, not_or] at hcs
  obtain ⟨⟨hbefore, htext⟩, hafter⟩ := hcs
  refine ⟨before, after ++ rest, by rw [List.append_assoc], hstart, hstop, ?_, ?_, htext, ?_⟩
  · rw [hline, List.count_eq_zero_of_not_mem hbefore, Nat.add_zero]
  · rw [hcolumn, rtakeWhile_of_not_mem hbefore]
  · rw [← List.append_assoc, lineAt_first_line (by simp [hbefore, htext, hafter]) hrest,
      ← List.append_assoc]
    intro hcomment
    exact hsilent (isSilent_iff.mpr (Or.inr hcomment))

lemma lineTokens_gaps {before after : List Char} {c : Char} (hcs : '\n' ∉ before ++ c :: after)
    (hrest : rest.head?.all (· = '\n'))
    (hgap : ∀ t ∈ lineTokens line offset (before ++ c :: after),
      ¬ t.Covers (offset + utf8Length before)) :
    isBlank c = true ∨ IsComment (lineAt before (c :: after ++ rest)) := by
  rw [lineAt_first_line hcs hrest]
  rw [lineTokens] at hgap
  split_ifs at hgap with hsilent
  · obtain hblank | hcomment := isSilent_iff.mp hsilent
    · exact Or.inl (hblank c (by simp))
    · exact Or.inr hcomment
  · left
    rw [← Bool.not_eq_false]
    intro hc
    obtain ⟨t, ht, hcover⟩ := lexLine_covers ⟨offset, line, 1⟩ _ before c after rfl hc
    exact hgap t ht hcover

variable {rest}

/-- A token of later lines is a token of the text with one line more in front. -/
lemma Token.StandsIn.next_line {t : Token}
    (h : t.StandsIn (line + 1) (offset + utf8Length cs + 1) rest) (hcs : '\n' ∉ cs) :
    t.StandsIn line offset (cs ++ '\n' :: rest) := by
  obtain ⟨before, after, rfl, hb⟩ := h
  refine ⟨cs ++ '\n' :: before, after, by simp, ?_, ?_, ?_, ?_, hb.one_line, ?_⟩
  · rw [hb.start, utf8Length_next_line]
    omega
  · rw [hb.stop, utf8Length_append, utf8Length_append, utf8Length_next_line]
    omega
  · rw [hb.line, List.count_append, List.count_eq_zero_of_not_mem hcs, List.count_cons_self]
    omega
  · rw [hb.column, rtakeWhile_next_line]
  · rw [lineAt_next_line]
    exact hb.not_comment

end

namespace Partition

variable {line offset : ℕ} {cs rest : List Char}

/-- A text of one line. -/
lemma of_line (hcs : '\n' ∉ cs) : Partition line offset cs (lineTokens line offset cs) where
  between := lexed_line_between line offset cs
  stands t ht := by
    have h := lineTokens_stands [] hcs rfl t ht
    rwa [List.append_nil] at h
  gaps before c after hsplit hgap := by
    subst hsplit
    have h := lineTokens_gaps [] hcs rfl hgap
    rwa [List.append_nil] at h

/-- One line more in front of a text. -/
lemma next_line {ts : List Token} (hcs : '\n' ∉ cs)
    (h : Partition (line + 1) (offset + utf8Length cs + 1) rest ts) :
    Partition line offset (cs ++ '\n' :: rest) (lineTokens line offset cs ++ ts) where
  between := by
    rw [utf8Length_next_line]
    refine (lexed_line_between line offset cs).append (h.between.mono ?_ ?_) ?_ ?_
    all_goals omega
  stands t ht := by
    obtain ht | ht := List.mem_append.mp ht
    · exact lineTokens_stands ('\n' :: rest) hcs rfl t ht
    · exact (h.stands t ht).next_line hcs
  gaps before c after hsplit hgap := by
    -- the character is in front of the line break, or it is the break, or it is behind it
    obtain ⟨more, rfl, hmore⟩ | ⟨more, rfl, hmore⟩ := List.append_eq_append_iff.mp hsplit
    · cases more with
      | nil =>
        obtain ⟨rfl, -⟩ := List.cons.inj hmore
        exact Or.inl isBlank_newline
      | cons d more =>
        obtain ⟨rfl, hrest⟩ := List.cons.inj hmore
        rw [lineAt_next_line]
        refine h.gaps more c after hrest ?_
        intro t ht hcover
        apply hgap t (List.mem_append_right _ ht)
        rwa [utf8Length_next_line, ← Nat.add_assoc, ← Nat.add_assoc]
    · cases more with
      | nil =>
        obtain ⟨rfl, -⟩ := List.cons.inj hmore
        exact Or.inl isBlank_newline
      | cons d more =>
        obtain ⟨rfl, rfl⟩ := List.cons.inj hmore
        have hfirst : ∀ t ∈ lineTokens line offset (before ++ c :: more),
            ¬ t.Covers (offset + utf8Length before) :=
          fun t ht => hgap t (List.mem_append_left _ ht)
        exact lineTokens_gaps ('\n' :: rest) hcs rfl hfirst

end Partition

theorem lexFrom_partition (line offset : ℕ) (cs : List Char) :
    Partition line offset cs (lexFrom line offset cs) := by
  have hline : ∀ cs : List Char, '\n' ∉ cs.takeWhile (· != '\n') := by
    intro cs hmem
    simpa using List.mem_takeWhile_imp hmem
  fun_induction lexFrom line offset cs with
  | case1 line offset cs text tokens h =>
    have hcs : text = cs := by
      have hcut := List.takeWhile_append_dropWhile (p := (· != '\n')) (l := cs)
      rwa [h, List.append_nil] at hcut
    have hp : Partition line offset text tokens := .of_line (hline cs)
    rwa [hcs] at hp
  | case2 line offset cs text tokens c rest h ih =>
    have hp : Partition line offset (text ++ '\n' :: rest) (tokens ++ _) := ih.next_line (hline cs)
    rwa [← eq_takeWhile_append h] at hp

/-- The bytes of a token in a source, as the text of the token. -/
structure Token.SliceOf (t : Token) (source : String) : Prop where
  start_valid : String.Pos.Raw.IsValid source ⟨t.span.start⟩
  stop_valid : String.Pos.Raw.IsValid source ⟨t.span.stop⟩
  bytes : source.toByteArray.extract t.span.start t.span.stop = (String.ofList t.text).toByteArray

lemma Partition.sliceOf {source : String} {ts : List Token} (h : Partition 1 0 source.toList ts) :
    ∀ t ∈ ts, t.SliceOf source := by
  intro t ht
  obtain ⟨before, after, hcut, hb⟩ := h.stands t ht
  have hsource : source = String.ofList before ++ String.ofList t.text ++ String.ofList after := by
    rw [← String.ofList_append, ← String.ofList_append, ← hcut, String.ofList_toList]
  have hstart : t.span.start = (String.ofList before).utf8ByteSize := by
    rw [hb.start, utf8ByteSize_ofList, Nat.zero_add]
  have hstop : t.span.stop = (String.ofList before ++ String.ofList t.text).utf8ByteSize := by
    rw [hb.stop, ← String.ofList_append, utf8ByteSize_ofList, Nat.zero_add]
  constructor
  · rw [String.Pos.Raw.isValid_iff_exists_append]
    exact ⟨_, _, by rw [hsource, String.append_assoc], congrArg String.Pos.Raw.mk hstart⟩
  · rw [String.Pos.Raw.isValid_iff_exists_append]
    exact ⟨_, _, hsource, congrArg String.Pos.Raw.mk hstop⟩
  · rw [hsource, hstart, hstop, String.toByteArray_append]
    refine ByteArray.extract_append_size_left.trans ?_
    rw [String.toByteArray_append]
    exact ByteArray.extract_append_eq_right rfl ByteArray.size_append

/-- The tokens of a source partition it, and their texts are slices of it. -/
theorem tokenize_partition (source : String) :
    Partition 1 0 source.toList (tokenize source) ∧ ∀ t ∈ tokenize source, t.SliceOf source :=
  have h := lexFrom_partition 1 0 source.toList
  ⟨h, h.sliceOf⟩

end ArchDiagram
