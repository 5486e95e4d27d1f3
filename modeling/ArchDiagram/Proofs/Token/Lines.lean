import Mathlib.Data.List.Forall2
import ArchDiagram.Proofs.Token.Word

/-! Lines are lexed one by one, and what a line holds is lexed alike wherever it starts: only the
places of its tokens differ, and all by the same amounts. -/
namespace ArchDiagram
open Text

/-- A text is one line, or a line in front of a text. -/
@[elab_as_elim]
theorem Text.inductionOnLines {motive : List Char → Prop} (cs : List Char)
    (last : ∀ text, '\n' ∉ text → motive text)
    (more : ∀ text rest, '\n' ∉ text → motive rest → motive (text ++ '\n' :: rest)) : motive cs := by
  have hline : '\n' ∉ cs.takeWhile (· != '\n') := by
    intro hmem
    simpa using List.mem_takeWhile_imp hmem
  cases h : cs.dropWhile (· != '\n') with
  | nil =>
    have hcut := List.takeWhile_append_dropWhile (p := (· != '\n')) (l := cs)
    rw [h, List.append_nil] at hcut
    rw [← hcut]
    exact last _ hline
  | cons c rest =>
    have hcut := eq_takeWhile_append h
    rw [hcut]
    exact more _ rest hline (inductionOnLines rest last more)
termination_by cs.length
decreasing_by
  have hlength := congrArg List.length hcut
  rw [List.length_append, List.length_cons] at hlength
  omega

/-- A text whose first line ends with a line break. -/
theorem lexFrom_next_line {text : List Char} (h : '\n' ∉ text) (line offset : ℕ) (rest : List Char) :
    lexFrom line offset (text ++ '\n' :: rest) =
      lineTokens line offset text ++ lexFrom (line + 1) (offset + utf8Length text + 1) rest := by
  have hne : ∀ c ∈ text, (c != '\n') = true := by
    intro c hc
    simpa using ne_of_mem_of_not_mem hc h
  have htake : (text ++ '\n' :: rest).takeWhile (· != '\n') = text := by
    rw [List.takeWhile_append_of_pos hne, List.takeWhile_cons_of_neg (by simp), List.append_nil]
  have hdrop : (text ++ '\n' :: rest).dropWhile (· != '\n') = '\n' :: rest := by
    rw [List.dropWhile_append_of_pos hne, List.dropWhile_cons_of_neg (by simp)]
  rw [lexFrom]
  split
  · simp_all
  · rename_i c rest' hcut
    obtain ⟨-, rfl⟩ := List.cons.inj (hdrop.symm.trans hcut)
    rw [htake]
    rfl

/-- The second place is so many bytes, lines and columns behind the first one. -/
structure Place.Shifted (bytes lines columns : ℤ) (p q : Place) : Prop where
  offset : (q.offset : ℤ) = p.offset + bytes
  line : (q.line : ℤ) = p.line + lines
  column : (q.column : ℤ) = p.column + columns

/-- The second token is the first one, so many bytes, lines and columns further on. -/
structure Token.Shifted (bytes lines columns : ℤ) (t u : Token) : Prop where
  kind : u.kind = t.kind
  value : u.value = t.value
  start : (u.span.start : ℤ) = t.span.start + bytes
  stop : (u.span.stop : ℤ) = t.span.stop + bytes
  line : (u.line : ℤ) = t.line + lines
  column : (u.column : ℤ) = t.column + columns

variable {bytes lines columns : ℤ}

lemma Place.Shifted.after {p q : Place} (h : p.Shifted bytes lines columns q) (text : List Char) :
    (p.after text).Shifted bytes lines columns (q.after text) where
  offset := by
    have ho := h.offset
    simp only [Place.after]
    omega
  line := h.line
  column := by
    have hc := h.column
    simp only [Place.after]
    omega

lemma lexLine_shifted (p : Place) (cs : List Char) : ∀ q, p.Shifted bytes lines columns q →
    List.Forall₂ (Token.Shifted bytes lines columns) (lexLine p cs) (lexLine q cs) := by
  fun_induction lexLine p cs with
  | case1 p =>
    intro q h
    rw [lexLine]
    exact .nil
  | case2 p c cs hc ih =>
    intro q h
    rw [lexLine, if_pos hc]
    exact ih _ (h.after [c])
  | case3 p c cs hc kind n text next ih =>
    intro q h
    rw [lexLine, if_neg hc]
    exact .cons ⟨rfl, rfl, h.offset, (h.after text).offset, h.line, h.column⟩ (ih _ (h.after text))

lemma lineTokens_shifted {line line' offset offset' : ℕ} (hline : (line' : ℤ) = line + lines)
    (hoffset : (offset' : ℤ) = offset + bytes) (text : List Char) :
    List.Forall₂ (Token.Shifted bytes lines 0) (lineTokens line offset text)
      (lineTokens line' offset' text) := by
  rw [lineTokens, lineTokens]
  split_ifs
  · exact .nil
  · exact lexLine_shifted _ _ _ ⟨hoffset, hline, by simp⟩

theorem lexFrom_shifted (cs : List Char) : ∀ line line' offset offset' : ℕ,
    (line' : ℤ) = line + lines → (offset' : ℤ) = offset + bytes →
      List.Forall₂ (Token.Shifted bytes lines 0) (lexFrom line offset cs)
        (lexFrom line' offset' cs) := by
  induction cs using Text.inductionOnLines with
  | last text h =>
    intro line line' offset offset' hline hoffset
    rw [lexFrom_line h, lexFrom_line h]
    exact lineTokens_shifted hline hoffset text
  | more text rest h ih =>
    intro line line' offset offset' hline hoffset
    rw [lexFrom_next_line h, lexFrom_next_line h]
    refine List.rel_append (lineTokens_shifted hline hoffset text) (ih _ _ _ _ ?_ ?_)
    · omega
    · omega

/-- The token, so many bytes and lines further on. -/
def Token.moved (bytes lines : ℕ) (t : Token) : Token :=
  { t with span := ⟨t.span.start + bytes, t.span.stop + bytes⟩, line := t.line + lines }

lemma Token.Shifted.moved_eq {bytes lines : ℕ} {t u : Token} (h : t.Shifted bytes lines 0 u) :
    t.moved bytes lines = u := by
  have hstart : t.span.start + bytes = u.span.start := by exact_mod_cast h.start.symm
  have hstop : t.span.stop + bytes = u.span.stop := by exact_mod_cast h.stop.symm
  have hline : t.line + lines = u.line := by exact_mod_cast h.line.symm
  have hcolumn : t.column = u.column := by exact_mod_cast (h.column.trans (Int.add_zero _)).symm
  rw [Token.moved, hstart, hstop, hline, hcolumn, ← h.kind, ← h.value]

theorem lexFrom_moved (line offset bytes lines : ℕ) (cs : List Char) :
    lexFrom (line + lines) (offset + bytes) cs =
      (lexFrom line offset cs).map (Token.moved bytes lines) := by
  have hshifted : List.Forall₂ (Token.Shifted bytes lines 0) (lexFrom line offset cs)
      (lexFrom (line + lines) (offset + bytes) cs) :=
    lexFrom_shifted cs _ _ _ _ (Int.natCast_add _ _) (Int.natCast_add _ _)
  have hmoved : List.Forall₂ (fun t u => Token.moved bytes lines t = u) (lexFrom line offset cs)
      (lexFrom (line + lines) (offset + bytes) cs) :=
    hshifted.imp fun _ _ => Token.Shifted.moved_eq
  rw [← List.forall₂_map_left_iff, List.forall₂_eq_eq_eq] at hmoved
  exact hmoved.symm

/-- Nothing is carried over a line break but the place. -/
theorem lexFrom_join (cs rest : List Char) : ∀ line offset,
    lexFrom line offset (cs ++ '\n' :: rest) = lexFrom line offset cs ++
      lexFrom (line + (cs.count '\n' + 1)) (offset + (utf8Length cs + 1)) rest := by
  induction cs using Text.inductionOnLines with
  | last text h =>
    intro line offset
    rw [lexFrom_next_line h, lexFrom_line h, List.count_eq_zero_of_not_mem h, Nat.zero_add,
      Nat.add_assoc offset]
  | more text more h ih =>
    intro line offset
    have hcount : (text ++ '\n' :: more).count '\n' = more.count '\n' + 1 := by
      rw [List.count_append, List.count_eq_zero_of_not_mem h, List.count_cons_self, Nat.zero_add]
    rw [List.append_assoc, List.cons_append, lexFrom_next_line h, ih, lexFrom_next_line h,
      List.append_assoc, hcount, utf8Length_next_line]
    congr 3
    · omega
    · omega

/-- Texts on both sides of a line break are lexed apart: the tokens of the second one only stand
further on, by what the first one and the break take. -/
theorem tokenize_append_newline (s t : String) :
    tokenize (s ++ "\n" ++ t) = tokenize s ++
      (tokenize t).map (Token.moved (s.utf8ByteSize + 1) (s.toList.count '\n' + 1)) := by
  have htext : (s ++ "\n" ++ t).toList = s.toList ++ '\n' :: t.toList := by
    rw [String.toList_append, String.toList_append, List.append_assoc]
    rfl
  have hbytes : utf8Length s.toList = s.utf8ByteSize := by
    rw [← utf8ByteSize_ofList, String.ofList_toList]
  rw [tokenize, htext, lexFrom_join, lexFrom_moved, hbytes]
  rfl

/-- The break is a carriage return as well, and the quote that it leaves open stays open. -/
example : (tokenize ("a \"b\r" ++ "\n" ++ "c\" d")).map (fun t => (t.value, t.span.start, t.line)) =
    [("a", 0, 1), ("\"", 2, 1), ("b", 3, 1), ("c", 6, 2), ("\"", 7, 2), ("d", 9, 2)] := by
  decide +kernel

end ArchDiagram
