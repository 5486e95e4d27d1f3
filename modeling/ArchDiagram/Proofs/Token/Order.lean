import Mathlib.Data.List.Basic
import ArchDiagram.Token.Lexer

/-! Tokens come in the order of the text, and no two of them overlap. -/
namespace ArchDiagram
open Text

/-- Tokens one after the other between two byte offsets, none of them empty. -/
structure TokensBetween (lo hi : ℕ) (ts : List Token) : Prop where
  bounds : ∀ t ∈ ts, lo ≤ t.span.start ∧ t.span.start < t.span.stop ∧ t.span.stop ≤ hi
  apart : ts.Pairwise fun a b => a.span.stop ≤ b.span.start

namespace TokensBetween

variable {lo mid hi : ℕ} {ts us : List Token}

lemma nil : TokensBetween lo hi [] where
  bounds := by simp
  apart := .nil

lemma mono {lo' hi' : ℕ} (h : TokensBetween lo hi ts) (hlo : lo' ≤ lo) (hhi : hi ≤ hi') :
    TokensBetween lo' hi' ts where
  bounds t ht := by
    have hb := h.bounds t ht
    omega
  apart := h.apart

lemma append (ht : TokensBetween lo mid ts) (hu : TokensBetween mid hi us) (hlo : lo ≤ mid)
    (hhi : mid ≤ hi) : TokensBetween lo hi (ts ++ us) where
  bounds t hm := by
    obtain hm | hm := List.mem_append.mp hm
    · exact (ht.mono (Nat.le_refl _) hhi).bounds t hm
    · exact (hu.mono hlo (Nat.le_refl _)).bounds t hm
  apart := by
    rw [List.pairwise_append]
    refine ⟨ht.apart, hu.apart, ?_⟩
    intro t hm u hn
    have ht := ht.bounds t hm
    have hu := hu.bounds u hn
    omega

lemma cons {t : Token} (hlo : lo ≤ t.span.start) (hne : t.span.start < t.span.stop)
    (hhi : t.span.stop ≤ hi) (h : TokensBetween t.span.stop hi ts) :
    TokensBetween lo hi (t :: ts) where
  bounds u hu := by
    obtain rfl | hu := List.mem_cons.mp hu
    · exact ⟨hlo, hne, hhi⟩
    · have hb := h.bounds u hu
      omega
  apart := List.pairwise_cons.mpr ⟨fun u hu => (h.bounds u hu).1, h.apart⟩

/-- So the tokens start one after the other. -/
lemma starts_lt (h : TokensBetween lo hi ts) :
    ts.Pairwise fun a b => a.span.start < b.span.start := by
  refine h.apart.imp_of_mem ?_
  intro a b ha _ hab
  have hb := h.bounds a ha
  omega

lemma sublist (h : TokensBetween lo hi ts) (hs : us.Sublist ts) : TokensBetween lo hi us where
  bounds t ht := h.bounds t (hs.subset ht)
  apart := h.apart.sublist hs

lemma middle {before after : List Token} (h : TokensBetween lo hi (before ++ ts ++ after)) :
    TokensBetween lo hi ts := by
  apply h.sublist
  rw [List.append_assoc]
  exact (List.sublist_append_left ts after).trans (List.sublist_append_right before _)

/-- The tokens behind another one. -/
lemma behind {t : Token} (h : TokensBetween lo hi (ts ++ us)) (ht : t ∈ ts) :
    TokensBetween t.span.stop hi us where
  bounds u hu := by
    have hb := h.bounds u (List.mem_append_right ts hu)
    have hlt := (List.pairwise_append.mp h.apart).2.2 t ht u hu
    omega
  apart := (List.pairwise_append.mp h.apart).2.1

/-- The tokens in front of another one. -/
lemma ahead {u : Token} (h : TokensBetween lo hi (ts ++ us)) (hu : u ∈ us) :
    TokensBetween lo u.span.start ts where
  bounds t ht := by
    have hb := h.bounds t (List.mem_append_left us ht)
    have hlt := (List.pairwise_append.mp h.apart).2.2 t ht u hu
    omega
  apart := (List.pairwise_append.mp h.apart).1

/-- The first token starts first. -/
lemma start_le_of_head? {k t : Token} (h : TokensBetween lo hi ts) (hk : ts.head? = some k)
    (ht : t ∈ ts) : k.span.start ≤ t.span.start := by
  obtain ⟨us, rfl⟩ := List.head?_eq_some_iff.mp hk
  obtain rfl | ht := List.mem_cons.mp ht
  · exact Nat.le_refl _
  · exact Nat.le_of_lt ((List.pairwise_cons.mp h.starts_lt).1 t ht)

/-- The last token ends last. -/
lemma stop_le_of_getLast? {l t : Token} (h : TokensBetween lo hi ts) (hl : ts.getLast? = some l)
    (ht : t ∈ ts) : t.span.stop ≤ l.span.stop := by
  obtain ⟨us, rfl⟩ := List.getLast?_eq_some_iff.mp hl
  obtain ht | ht := List.mem_append.mp ht
  · have hb := (h.ahead (u := l) (by simp)).bounds t ht
    have hlb := h.bounds l (by simp)
    omega
  · obtain rfl := List.mem_singleton.mp ht
    exact Nat.le_refl _

end TokensBetween

lemma utf8Length_take_add_drop (n : ℕ) (cs : List Char) :
    utf8Length (cs.take n) + utf8Length (cs.drop n) = utf8Length cs := by
  rw [← utf8Length_append, List.take_append_drop]

theorem lexLine_between (p : Place) (cs : List Char) :
    TokensBetween p.offset (p.offset + utf8Length cs) (lexLine p cs) := by
  fun_induction lexLine p cs with
  | case1 p => exact .nil
  | case2 p c cs hc ih =>
    have hp : (p.after [c]).offset = p.offset + c.utf8Size := by simp [Place.after]
    refine ih.mono ?_ ?_
    · omega
    · rw [utf8Length_cons]
      omega
  | case3 p c cs hc kind n text q ih =>
    have hsize := c.utf8Size_pos
    have hcut := utf8Length_take_add_drop n cs
    have hq : q.offset = p.offset + (c.utf8Size + utf8Length (cs.take n)) := rfl
    rw [utf8Length_cons]
    refine .cons (Nat.le_refl _) ?_ ?_ (ih.mono (Nat.le_refl _) ?_)
    · change p.offset < q.offset
      omega
    · change q.offset ≤ _
      omega
    · omega

lemma lexed_line_between (line offset : ℕ) (text : List Char) :
    TokensBetween offset (offset + utf8Length text)
      (if isSilent text then [] else lexLine ⟨offset, line, 1⟩ text) := by
  split
  · exact .nil
  · exact lexLine_between ⟨offset, line, 1⟩ text

theorem lexFrom_between (line offset : ℕ) (cs : List Char) :
    TokensBetween offset (offset + utf8Length cs) (lexFrom line offset cs) := by
  have hcut : ∀ cs : List Char, utf8Length (cs.takeWhile (· != '\n')) +
      utf8Length (cs.dropWhile (· != '\n')) = utf8Length cs := by
    intro cs
    rw [← utf8Length_append, List.takeWhile_append_dropWhile]
  fun_induction lexFrom line offset cs with
  | case1 line offset cs text tokens h =>
    have hcs := hcut cs
    rw [h, utf8Length_nil, Nat.add_zero] at hcs
    rw [← hcs]
    exact lexed_line_between line offset text
  | case2 line offset cs text tokens c rest h ih =>
    have hcs := hcut cs
    have hsize := c.utf8Size_pos
    rw [h, utf8Length_cons] at hcs
    change utf8Length text + _ = _ at hcs
    refine (lexed_line_between line offset text).append (ih.mono ?_ ?_) ?_ ?_
    all_goals omega

/-- The tokens of a text are not empty, do not overlap and come in its order. -/
theorem tokenize_between (source : String) :
    TokensBetween 0 (utf8Length source.toList) (tokenize source) := by
  have h := lexFrom_between 1 0 source.toList
  rwa [Nat.zero_add] at h

end ArchDiagram
