import Mathlib.Tactic.IntervalCases
import ArchDiagram.Json
import ArchDiagram.Proofs.Number.Layout

/-! The text of a JSON value determines it. Whatever follows, the text of a value can be cut off in
one way only: its first character tells its kind, a number ends at the first character that no number
has, a string at the first quote that is not escaped, and the items of an array or an object at the
first place without a comma. -/
namespace ArchDiagram

namespace Json

open NumberLayout

/-- What can be shown of arrays and objects from their items holds of every value. -/
@[elab_as_elim]
theorem inductionOn {motive : Json → Prop} (j : Json) (null : motive null)
    (number : ∀ x, motive (number x)) (string : ∀ s, motive (string s))
    (array : ∀ items, (∀ x ∈ items, motive x) → motive (array items))
    (object : ∀ members, (∀ m ∈ members, motive m.2) → motive (object members)) : motive j :=
  match j with
  | .null => null
  | .number x => number x
  | .string s => string s
  | .array items => array items fun x _ => inductionOn x null number string array object
  | .object members => object members fun m _ => inductionOn m.2 null number string array object
termination_by j
decreasing_by
  · decreasing_tactic
  · have : sizeOf m.2 < sizeOf m := by cases m; simp
    have := List.sizeOf_lt_of_mem ‹m ∈ members›
    simp only [Json.object.sizeOf_spec]
    omega

/-- The text does not go on with a part of a number. -/
def Ends (rest : List Char) : Prop :=
  ∀ c ∈ rest.head?, isNumeral c = false

/-- Wherever the text of `x` is followed by what ends it, no other value can be read. -/
def Unambiguous {α : Type} (w : α → List Char) (x : α) : Prop :=
  ∀ y r s, Ends r → Ends s → w x ++ r = w y ++ s → x = y ∧ r = s

def hexValue (c : Char) : ℕ :=
  if Decimal.isDigit c then c.toNat - 0x30 else c.toNat - 0x61 + 10

/-- The character that a letter after a backslash stands for. -/
def unescaped (c : Char) : Char :=
  match c with
  | 'b' => '\x08'
  | 't' => '\t'
  | 'n' => '\n'
  | 'f' => '\x0c'
  | 'r' => '\r'
  | c => c

/-- The first character of a quoted text, and what follows it; `none` at the closing quote. -/
def unescape? : List Char → Option (Char × List Char)
  | [] => none
  | '"' :: _ => none
  | '\\' :: 'u' :: '0' :: '0' :: h :: l :: cs =>
    some (Char.ofNat (16 * hexValue h + hexValue l), cs)
  | '\\' :: c :: cs => some (unescaped c, cs)
  | c :: cs => some (c, cs)

lemma unescape?_escape (c : Char) (rest : List Char) :
    unescape? (escape c ++ rest) = some (c, rest) := by
  obtain hcontrol | hprintable := Nat.lt_or_ge c.toNat 0x20
  · -- The control characters are few enough to be looked at one by one.
    rw [← Char.ofNat_toNat c]
    generalize c.toNat = n at hcontrol
    interval_cases n <;> rfl
  · by_cases hquote : c = '"'
    · subst hquote
      rfl
    by_cases hslash : c = '\\'
    · subst hslash
      rfl
    have hplain : escape c = [c] := by grind [escape]
    rw [hplain]
    simp [unescape?, hslash]

lemma flatMap_escape_unambiguous {cs ds r s : List Char}
    (h : cs.flatMap escape ++ '"' :: r = ds.flatMap escape ++ '"' :: s) : cs = ds ∧ r = s := by
  induction cs generalizing ds with
  | nil =>
    cases ds with
    | nil => exact ⟨rfl, List.tail_eq_of_cons_eq h⟩
    | cons d ds =>
      have hread := congrArg unescape? h
      rw [List.flatMap_cons, List.append_assoc, unescape?_escape] at hread
      cases hread
  | cons c cs ih =>
    have hread := congrArg unescape? h
    rw [List.flatMap_cons, List.append_assoc, unescape?_escape] at hread
    cases ds with
    | nil => cases hread
    | cons d ds =>
      rw [List.flatMap_cons, List.append_assoc, unescape?_escape] at hread
      obtain ⟨rfl, hrest⟩ := Prod.mk.inj (Option.some.inj hread)
      obtain ⟨rfl, hrs⟩ := ih hrest
      exact ⟨rfl, hrs⟩

lemma toList_quote (s : String) : (quote s).toList = '"' :: (s.toList.flatMap escape ++ ['"']) :=
  String.toList_ofList

lemma quote_unambiguous {s t : String} {r r' : List Char}
    (h : (quote s).toList ++ r = (quote t).toList ++ r') : s = t ∧ r = r' := by
  simp only [toList_quote, List.cons_append, List.append_assoc, List.nil_append, List.cons.injEq,
    true_and] at h
  obtain ⟨hst, hr⟩ := flatMap_escape_unambiguous h
  exact ⟨String.toList_inj.mp hst, hr⟩

lemma number_unambiguous (f : NumberLayout) (x : Binary64) :
    Unambiguous (fun x => (f.write x).toList) x := by
  intro y r s hr hs h
  dsimp only at h
  obtain ⟨hx, hr'⟩ := span_append (f.isNumeral_of_mem_write x) hr
  obtain ⟨hy, hs'⟩ := span_append (f.isNumeral_of_mem_write y) hs
  have htext : f.write x = f.write y := by
    rw [← String.toList_inj, ← hx, h, hy]
  refine ⟨f.write_injective htext, ?_⟩
  rw [← hr', h, hs']

/-- The items between brackets, each on a line of its own where the text is spread. -/
def bracketed {α : Type} (sp : Spacing) (depth : ℕ) (left right : Char) (w : α → List Char) :
    List α → List Char
  | [] => [left, right]
  | x :: xs =>
    left :: ((sp.lineBreak (depth + 1)).toList ++ w x ++
      xs.flatMap (fun x => ',' :: ((sp.lineBreak (depth + 1)).toList ++ w x)) ++
        (sp.lineBreak depth).toList ++ [right])

section Items

variable {α : Type} {w : α → List Char} {xs ys : List α} {r s : List Char}

/-- The text goes on with a line break or with a bracket that closes. -/
def Closes (rest : List Char) : Prop :=
  ∃ c ∈ ['\n', ']', '\x7d'], rest.head? = some c

lemma Closes.ends (h : Closes r) : Ends r := by
  obtain ⟨c, hc, hhead⟩ := h
  intro c' hc'
  obtain rfl : c = c' := Option.some.inj (hhead.symm.trans hc')
  simp only [List.mem_cons, List.not_mem_nil, or_false] at hc
  obtain rfl | rfl | rfl := hc <;> rfl

lemma not_closes_comma (rest : List Char) : ¬ Closes (',' :: rest) := by
  rintro ⟨c, hc, hhead⟩
  cases hhead
  revert hc
  decide

lemma closes_lineBreak (sp : Spacing) (depth : ℕ) {right : Char} (hright : right ∈ [']', '\x7d']) :
    Closes ((sp.lineBreak depth).toList ++ right :: r) := by
  cases sp with
  | compact => exact ⟨right, List.mem_cons_of_mem _ hright, rfl⟩
  | indented => exact ⟨'\n', List.mem_cons_self, by simp [Spacing.lineBreak]⟩

lemma ends_items (b : List Char) (hr : Closes r) :
    Ends (xs.flatMap (fun x => ',' :: (b ++ w x)) ++ r) := by
  cases xs with
  | nil => exact hr.ends
  | cons x xs =>
    rintro _ ⟨⟩
    rfl

/-- Items go on for as long as commas come. -/
lemma items_unambiguous (b : List Char) (hw : ∀ x ∈ xs, Unambiguous w x) (hr : Closes r)
    (hs : Closes s)
    (h : xs.flatMap (fun x => ',' :: (b ++ w x)) ++ r =
      ys.flatMap (fun x => ',' :: (b ++ w x)) ++ s) : xs = ys ∧ r = s := by
  induction xs generalizing ys with
  | nil =>
    cases ys with
    | nil => exact ⟨rfl, h⟩
    | cons y ys =>
      rw [List.flatMap_nil, List.nil_append] at h
      exact absurd (h ▸ hr) (not_closes_comma _)
  | cons x xs ih =>
    cases ys with
    | nil =>
      rw [List.flatMap_nil, List.nil_append] at h
      exact absurd (h ▸ hs) (not_closes_comma _)
    | cons y ys =>
      obtain ⟨hx, hxs⟩ := List.forall_mem_cons.mp hw
      simp only [List.flatMap_cons, List.cons_append, List.append_assoc, List.cons.injEq, true_and,
        List.append_cancel_left_eq] at h
      obtain ⟨rfl, hrest⟩ := hx y _ _ (ends_items b hr) (ends_items b hs) h
      obtain ⟨rfl, hrs⟩ := ih hxs hrest
      exact ⟨rfl, hrs⟩

lemma lineBreak_append_ne (sp : Spacing) (depth : ℕ) {c right : Char}
    (hright : right ∈ [']', '\x7d']) (hc : c ≠ right) :
    (sp.lineBreak depth).toList ++ c :: r ≠ right :: s := by
  intro h
  cases sp with
  | compact => exact hc (List.head_eq_of_cons_eq h)
  | indented =>
    have hline : '\n' = right := by
      rw [Spacing.lineBreak, String.toList_ofList] at h
      exact List.head_eq_of_cons_eq h
    subst hline
    revert hright
    decide

lemma bracketed_unambiguous (sp : Spacing) (depth : ℕ) {left right : Char}
    (hright : right ∈ [']', '\x7d']) (hstart : ∀ x, ∃ c t, w x = c :: t ∧ c ≠ right)
    (hw : ∀ x ∈ xs, Unambiguous w x)
    (h : bracketed sp depth left right w xs ++ r = bracketed sp depth left right w ys ++ s) :
    xs = ys ∧ r = s := by
  -- A list without items is told by the bracket that closes it at once.
  cases xs with
  | nil =>
    cases ys with
    | nil => exact ⟨rfl, List.append_cancel_left h⟩
    | cons y ys =>
      obtain ⟨c, t, hy, hc⟩ := hstart y
      simp only [bracketed, hy, List.cons_append, List.append_assoc, List.nil_append,
        List.cons.injEq, true_and] at h
      exact absurd h.symm (lineBreak_append_ne sp _ hright hc)
  | cons x xs =>
    cases ys with
    | nil =>
      obtain ⟨c, t, hx, hc⟩ := hstart x
      simp only [bracketed, hx, List.cons_append, List.append_assoc, List.nil_append,
        List.cons.injEq, true_and] at h
      exact absurd h (lineBreak_append_ne sp _ hright hc)
    | cons y ys =>
      obtain ⟨hx, hxs⟩ := List.forall_mem_cons.mp hw
      have hr := closes_lineBreak (r := r) sp depth hright
      have hs := closes_lineBreak (r := s) sp depth hright
      simp only [bracketed, List.cons_append, List.append_assoc, List.nil_append, List.cons.injEq,
        true_and, List.append_cancel_left_eq] at h
      obtain ⟨rfl, hrest⟩ := hx y _ _ (ends_items _ hr) (ends_items _ hs) h
      obtain ⟨rfl, hclose⟩ := items_unambiguous _ hxs hr hs hrest
      exact ⟨rfl, List.tail_eq_of_cons_eq (List.append_cancel_left hclose)⟩

end Items

/-- A member: its key, the colon and its value. -/
def memberText (sp : Spacing) (depth : ℕ) (m : String × Json) : List Char :=
  (quote m.1).toList ++ sp.colon.toList ++ (write sp depth m.2).toList

variable (sp : Spacing) (depth : ℕ)

lemma toList_writeItems (xs : List Json) :
    (writeItems sp depth xs).toList =
      xs.flatMap fun x => ',' :: ((sp.lineBreak depth).toList ++ (write sp depth x).toList) := by
  induction xs with
  | nil => simp [writeItems]
  | cons x xs ih => simp [writeItems, ih]

lemma toList_writeMembers (ms : List (String × Json)) :
    (writeMembers sp depth ms).toList =
      ms.flatMap fun m => ',' :: ((sp.lineBreak depth).toList ++ memberText sp depth m) := by
  induction ms with
  | nil => simp [writeMembers]
  | cons m ms ih => simp [writeMembers, memberText, ih]

lemma toList_write_array (xs : List Json) :
    (write sp depth (array xs)).toList =
      bracketed sp depth '[' ']' (fun x => (write sp (depth + 1) x).toList) xs := by
  cases xs with
  | nil => simp [write, bracketed]
  | cons x xs => simp [write, bracketed, toList_writeItems]

lemma toList_write_object (ms : List (String × Json)) :
    (write sp depth (object ms)).toList =
      bracketed sp depth '\x7b' '\x7d' (memberText sp (depth + 1)) ms := by
  cases ms with
  | nil => simp [write, bracketed]
  | cons m ms => simp [write, bracketed, toList_writeMembers, memberText]

inductive Kind where
  | null
  | number
  | string
  | array
  | object

/-- The kind of value whose text begins with a character. -/
def Kind.ofFirst? (c : Char) : Option Kind :=
  if isNumeral c then some number
  else if c = 'n' then some null
  else if c = '"' then some string
  else if c = '[' then some array
  else if c = '\x7b' then some object
  else none

def kind : Json → Kind
  | null => .null
  | number _ => .number
  | string _ => .string
  | array _ => .array
  | object _ => .object

lemma exists_bracketed_eq_cons {α : Type} {left right : Char} {w : α → List Char} (xs : List α) :
    ∃ t, bracketed sp depth left right w xs = left :: t := by
  cases xs <;> exact ⟨_, rfl⟩

lemma exists_write_eq_cons (j : Json) :
    ∃ c t, (write sp depth j).toList = c :: t ∧ Kind.ofFirst? c = some j.kind := by
  cases j with
  | null => exact ⟨'n', "ull".toList, by simp [write], rfl⟩
  | number x =>
    obtain ⟨c, t, hct⟩ := List.exists_cons_of_ne_nil (numberLayout.toList_write_ne_nil x)
    have hc : isNumeral c = true :=
      numberLayout.isNumeral_of_mem_write x c (hct ▸ List.mem_cons_self)
    exact ⟨c, t, hct, if_pos hc⟩
  | string s => exact ⟨'"', _, toList_quote s, rfl⟩
  | array xs =>
    obtain ⟨t, ht⟩ := exists_bracketed_eq_cons sp depth xs
    exact ⟨'[', t, (toList_write_array sp depth xs).trans ht, rfl⟩
  | object ms =>
    obtain ⟨t, ht⟩ := exists_bracketed_eq_cons sp depth ms
    exact ⟨'\x7b', t, (toList_write_object sp depth ms).trans ht, rfl⟩

lemma kind_eq_of_write {j j' : Json} {r s : List Char}
    (h : (write sp depth j).toList ++ r = (write sp depth j').toList ++ s) : j.kind = j'.kind := by
  obtain ⟨c, t, hj, hc⟩ := exists_write_eq_cons sp depth j
  obtain ⟨c', t', hj', hc'⟩ := exists_write_eq_cons sp depth j'
  rw [hj, hj'] at h
  obtain rfl : c = c' := List.head_eq_of_cons_eq h
  exact Option.some.inj (hc.symm.trans hc')

lemma memberText_unambiguous {m : String × Json}
    (hm : Unambiguous (fun j => (write sp depth j).toList) m.2) :
    Unambiguous (memberText sp depth) m := by
  intro m' r s hr hs h
  simp only [memberText, List.append_assoc] at h
  obtain ⟨hkey, hrest⟩ := quote_unambiguous h
  obtain ⟨hvalue, hrs⟩ := hm m'.2 r s hr hs (List.append_cancel_left hrest)
  exact ⟨Prod.ext hkey hvalue, hrs⟩

lemma array_unambiguous {xs : List Json}
    (hxs : ∀ x ∈ xs, Unambiguous (fun j => (write sp (depth + 1) j).toList) x) :
    Unambiguous (bracketed sp depth '[' ']' fun x => (write sp (depth + 1) x).toList) xs := by
  have hstart (x : Json) : ∃ c t, (write sp (depth + 1) x).toList = c :: t ∧ c ≠ ']' := by
    obtain ⟨c, t, hx, hc⟩ := exists_write_eq_cons sp (depth + 1) x
    refine ⟨c, t, hx, ?_⟩
    rintro rfl
    cases hc
  intro ys r s _ _ h
  exact bracketed_unambiguous sp depth (by decide) hstart hxs h

lemma object_unambiguous {ms : List (String × Json)}
    (hms : ∀ m ∈ ms, Unambiguous (fun j => (write sp (depth + 1) j).toList) m.2) :
    Unambiguous (bracketed sp depth '\x7b' '\x7d' (memberText sp (depth + 1))) ms := by
  have hstart (m : String × Json) : ∃ c t, memberText sp (depth + 1) m = c :: t ∧ c ≠ '\x7d' := by
    rw [memberText, toList_quote]
    exact ⟨'"', _, rfl, by decide⟩
  intro ms' r s _ _ h
  exact bracketed_unambiguous sp depth (by decide) hstart
    (fun m hm => memberText_unambiguous sp (depth + 1) (hms m hm)) h

/-- The text of a value can be cut off in one way only. -/
theorem write_unambiguous (j : Json) (depth : ℕ) :
    Unambiguous (fun j => (write sp depth j).toList) j := by
  induction j using inductionOn generalizing depth with
  | null =>
    intro j' r s _ _ h
    have hkind := kind_eq_of_write sp depth h
    cases j' with
    | null => exact ⟨rfl, List.append_cancel_left h⟩
    | _ => cases hkind
  | number x =>
    intro j' r s hr hs h
    have hkind := kind_eq_of_write sp depth h
    cases j' with
    | number y =>
      obtain ⟨rfl, hrs⟩ := number_unambiguous numberLayout x y r s hr hs h
      exact ⟨rfl, hrs⟩
    | _ => cases hkind
  | string t =>
    intro j' r s _ _ h
    have hkind := kind_eq_of_write sp depth h
    cases j' with
    | string t' =>
      obtain ⟨rfl, hrs⟩ := quote_unambiguous h
      exact ⟨rfl, hrs⟩
    | _ => cases hkind
  | array xs ih =>
    intro j' r s hr hs h
    have hkind := kind_eq_of_write sp depth h
    cases j' with
    | array ys =>
      dsimp only at h
      rw [toList_write_array, toList_write_array] at h
      obtain ⟨rfl, hrs⟩ :=
        array_unambiguous sp depth (fun x hx => ih x hx (depth + 1)) ys r s hr hs h
      exact ⟨rfl, hrs⟩
    | _ => cases hkind
  | object ms ih =>
    intro j' r s hr hs h
    have hkind := kind_eq_of_write sp depth h
    cases j' with
    | object ms' =>
      dsimp only at h
      rw [toList_write_object, toList_write_object] at h
      obtain ⟨rfl, hrs⟩ :=
        object_unambiguous sp depth (fun m hm => ih m hm (depth + 1)) ms' r s hr hs h
      exact ⟨rfl, hrs⟩
    | _ => cases hkind

theorem text_injective (sp : Spacing) : Function.Injective (text sp) := by
  intro j j' h
  have hends : Ends [] := by rintro _ ⟨⟩
  refine (write_unambiguous sp j 0 j' [] [] hends hends ?_).1
  exact congrArg (fun t => t.toList ++ []) h

end Json

end ArchDiagram
