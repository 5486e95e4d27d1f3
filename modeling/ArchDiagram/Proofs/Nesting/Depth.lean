import ArchDiagram.Proofs.Nesting.Forest
import ArchDiagram.Proofs.Statement.Order
import ArchDiagram.Proofs.Statement.Recognition

/-! How deep containers nest. A document opens only `maxNesting` of them at once, so few stand around
any declaration. But a container that is declared again takes along what it holds, and so a chain
of parents can be that long once more for each of its containers that was declared after the one
below it. -/
namespace ArchDiagram

namespace Phrase

mutual

/-- The number of containers that stand inside each other. -/
def height : Phrase → ℕ
  | .container _ _ body => heights body + 1
  | _ => 0

def heights : List Phrase → ℕ
  | [] => 0
  | s :: ss => max s.height (heights ss)

end

end Phrase

namespace Grammar
open Phrase

mutual

theorem Written.height_le {depth : ℕ} {used : List Token} {s : Phrase} :
    Written depth used s → s.height ≤ maxNesting - depth
  | .container _ room _ _ content => by
    have h := content.heights_le
    rw [height]
    omega
  | .layout .. | .style .. | .relation .. | .labelled .. | .component .. | .note .. =>
    Nat.zero_le _

theorem Content.heights_le {kind : BlockKind} {depth : ℕ} {ts : List Token}
    {ps : List (Field × String)} {body : List Phrase} :
    Content kind depth ts ps body → heights body ≤ maxNesting - depth
  | .close _ => Nat.zero_le _
  | .property _ _ _ _ rest | .stray _ rest => rest.heights_le
  | .statement written _ _ rest => max_le written.height_le rest.heights_le

end

theorem Document.heights_le {ts : List Token} {ss : List Phrase} (h : Document ts ss) :
    heights ss ≤ maxNesting := by
  induction h with
  | nil => exact Nat.zero_le _
  | cons written _ ih => exact max_le written.height_le ih

end Grammar

namespace Statement

mutual

theorem length_within_le (opened : List Id) : ∀ s : Statement, ∀ o ∈ s.occurrences opened,
    o.within.length ≤ opened.length + s.phrase.height
  | .container span id ps body, o, ho => by
    rw [occurrences, List.mem_cons] at ho
    rw [phrase, Phrase.height]
    obtain rfl | ho := ho
    · simp [Occurrence.within]
    · have h := length_within_le_all (id.value :: opened) body o ho
      rw [List.length_cons] at h
      omega
  | .layout .., o, ho | .style .., o, ho | .component .., o, ho | .relation .., o, ho
  | .note .., o, ho => by
    simp only [occurrences, List.mem_singleton] at ho
    subst ho
    exact Nat.le_add_right _ _

theorem length_within_le_all (opened : List Id) : ∀ ss : List Statement,
    ∀ o ∈ occurrencesAll opened ss,
      o.within.length ≤ opened.length + Phrase.heights (phrases ss)
  | [], o, ho => by simp [occurrencesAll] at ho
  | s :: ss, o, ho => by
    rw [phrases, Phrase.heights]
    rw [occurrencesAll, List.mem_append] at ho
    obtain ho | ho := ho
    · have h := length_within_le opened s o ho
      omega
    · have h := length_within_le_all opened ss o ho
      omega

end

end Statement

namespace Occurrence

/-- The container whose block the statement opens. -/
def opens? (o : Occurrence) : Option Id :=
  match o.statement with
  | .container _ id _ _ => some id.value
  | _ => none

lemma within_eq (o : Occurrence) : o.within = o.opens?.toList ++ o.opened := by
  obtain ⟨opened, s⟩ := o
  cases s <;> rfl

lemma length_within {o : Occurrence} {x : Id} (h : o.opens? = some x) :
    o.within.length = o.opened.length + 1 := by
  rw [within_eq, h, Option.toList_some, List.singleton_append, List.length_cons]

def start (o : Occurrence) : ℕ :=
  o.statement.span.start

/-- The last statement that opens a block of a container. -/
def block? (x : Id) (os : List Occurrence) : Option Occurrence :=
  os.reverse.find? fun o => o.opens? = some x

lemma block?_append_singleton (x : Id) (os : List Occurrence) (o : Occurrence) :
    block? x (os ++ [o]) = if o.opens? = some x then some o else block? x os := by
  rw [block?, List.reverse_append, List.reverse_singleton, List.singleton_append, List.find?_cons]
  split_ifs with h
  · rw [decide_eq_true h]
  · rw [decide_eq_false h]
    rfl

lemma block?_eq_some {x : Id} {os : List Occurrence} {o : Occurrence} (h : block? x os = some o) :
    o ∈ os ∧ o.opens? = some x := by
  refine ⟨List.mem_reverse.mp (List.mem_of_find?_eq_some h), ?_⟩
  simpa using List.find?_some h

lemma last?_declarations (x : Id) (os : List Occurrence) :
    Declaration.last? .container x (declarations os) = (block? x os).bind declaration? := by
  induction os using List.reverseRecOn with
  | nil => rfl
  | append_singleton os o ih =>
    rw [declarations_append_singleton, block?_append_singleton]
    obtain ⟨opened, s⟩ := o
    cases s with
    | container span id ps body =>
      simp only [declaration?, Option.toList_some, Declaration.last?_append_singleton, opens?, ih]
      by_cases hx : id.value = x
      · simp [Declaration.declares, hx, declaration?]
      · simp [Declaration.declares, hx]
    | component span id ps =>
      simp [declaration?, Declaration.last?_append_singleton, Declaration.declares, opens?, ih]
    | _ => simp [declaration?, opens?, ih]

/-- What the last blocks of the containers say about a place inside the containers `opened`. -/
structure Blocks (opened : List Id) (os : List Occurrence) : Prop where
  stack : ∀ x outer, x :: outer <:+ opened → ∃ o, block? x os = some o ∧ o.opened = outer
  /-- A container that was not declared again since stands where the one in it found it. -/
  older : ∀ x o p outer o', block? x os = some o → o.opened = p :: outer → block? p os = some o' →
    o'.start < o.start → o'.opened = outer

namespace Blocks

variable {opened outer : List Id} {os : List Occurrence}

lemma nil : Blocks [] [] where
  stack x outer h := by simp at h
  older x o p outer o' h := by simp [block?] at h

lemma suffix (h : Blocks outer os) (hs : opened <:+ outer) : Blocks opened os where
  stack x inner hx := h.stack x inner (hx.trans hs)
  older := h.older

/-- A block opens after all others, and not inside a block of its own container. -/
theorem append {o : Occurrence} (h : Blocks o.opened os)
    (hid : ∀ c, o.opens? = some c → c ∉ o.opened) (hstart : ∀ o' ∈ os, o'.start < o.start) :
    Blocks o.within (os ++ [o]) := by
  have hother : ∀ x ∈ o.opened, block? x (os ++ [o]) = block? x os := by
    intro x hx
    rw [block?_append_singleton, if_neg]
    intro hc
    exact hid x hc hx
  refine ⟨?_, ?_⟩
  · intro x outer hs
    rw [within_eq] at hs
    cases hc : o.opens? with
    | none =>
      rw [hc] at hs
      rw [hother x (hs.subset List.mem_cons_self)]
      exact h.stack x outer hs
    | some c =>
      rw [hc, Option.toList_some, List.singleton_append] at hs
      obtain heq | hs := List.suffix_cons_iff.mp hs
      · obtain ⟨rfl, rfl⟩ := List.cons.inj heq
        exact ⟨o, by rw [block?_append_singleton, if_pos hc], rfl⟩
      · rw [hother x (hs.subset List.mem_cons_self)]
        exact h.stack x outer hs
  · -- the new block is that of `x`, which found `p` on the stack, or of neither: it starts too late
    -- to be that of `p`
    intro x ox p outer op hx hopened hp hlt
    rw [block?_append_singleton] at hx
    split_ifs at hx with hxo
    · obtain rfl := Option.some.inj hx
      rw [hother p (by rw [hopened]; exact List.mem_cons_self)] at hp
      obtain ⟨o', ho', houter⟩ := h.stack p outer (by rw [hopened])
      rw [hp] at ho'
      obtain rfl := Option.some.inj ho'
      exact houter
    · rw [block?_append_singleton] at hp
      split_ifs at hp with hpo
      · obtain rfl := Option.some.inj hp
        have hgt := hstart ox (block?_eq_some hx).1
        omega
      · exact h.older x ox p outer op hx hopened hp hlt

end Blocks

end Occurrence

namespace Draft

open Occurrence

/-- Beside what the declarations say, the blocks of what was placed, as long as it starts in the
order of the text. -/
def Stacks (opened : List Id) (os : List Occurrence) (d : Draft) : Prop :=
  Follows opened os d ∧ ((statementStarts os).Pairwise (· < ·) → Blocks opened os)

lemma stacks_place {d d' : Draft} {o : Occurrence} {os : List Occurrence}
    (hd : Stacks o.opened os d) (h : (o.place d).outcome = .ok d') :
    Stacks o.within (os ++ [o]) d' := by
  obtain ⟨hf, hb⟩ := hd
  refine ⟨follows_place hf h, ?_⟩
  intro hp
  rw [statementStarts, List.map_append, List.pairwise_append] at hp
  refine (hb hp.1).append ?_ ?_
  · intro c hc
    obtain ⟨opened, s⟩ := o
    cases s with
    | container span id ps body =>
      obtain rfl := Option.some.inj hc
      exact (reflects_addContainer hf.1 hf.2 h).1
    | _ => cases hc
  · intro o' ho'
    exact hp.2.2 _ (List.mem_map_of_mem ho') _ (by simp [start])

theorem stacks_placeAll {ss : List Statement} {d : Draft}
    (h : (placeAll [] .empty ss).outcome = .ok d) :
    Stacks [] (Statement.occurrencesAll [] ss) d := by
  refine placeAll_invariant Stacks ?_ stacks_place ⟨⟨reflects_empty, .nil⟩, fun _ => .nil⟩ h
  rintro opened outer os d ⟨⟨hr, hw⟩, hb⟩ hs
  exact ⟨⟨hr, hw.suffix hs⟩, fun hp => (hb hp).suffix hs⟩

end Draft

namespace Diagram

open Declaration Occurrence

/-- Where the last declaration of a container starts. -/
def containerStart (d : Diagram) (x : Id) : ℕ :=
  (d.containers.get? x).elim 0 fun c => c.span.start

/-- How often on the way up a container was declared after the one below it. -/
def reopenings (d : Diagram) : List Id → ℕ
  | x :: p :: xs =>
    d.reopenings (p :: xs) + if d.containerStart p < d.containerStart x then 0 else 1
  | _ => 0

namespace Reflects

variable {d : Diagram} {os : List Occurrence} (h : d.Reflects (declarations os))

include h

/-- A container of a diagram has a last block, which says what the diagram says. -/
lemma exists_block {x : Id} (hx : x ∈ d.containers.keys) :
    ∃ o, block? x os = some o ∧ d.containerStart x = o.start ∧ d.parentOf x = o.opened.head? := by
  obtain ⟨c, hc⟩ := OrderedMap.mem_keys_iff.mp hx
  have hlast := h.last?_container hc
  rw [last?_declarations] at hlast
  obtain ⟨o, ho, hdecl⟩ := Option.bind_eq_some_iff.mp hlast
  refine ⟨o, ho, ?_⟩
  rw [containerStart, parentOf, hc]
  obtain ⟨opened, s⟩ := o
  cases s with
  | container span id ps body =>
    obtain ⟨-, -, hparent, hspan⟩ := Declaration.mk.inj (Option.some.inj hdecl)
    exact ⟨congrArg Span.start hspan.symm, hparent.symm⟩
  | component span id ps => simp [declaration?, Entity.declaration] at hdecl
  | _ => cases hdecl

/-- Going up leads out of the blocks around a declaration one by one, until it comes to a container
that was declared later: there it can start anew at a place inside `limit` containers. -/
theorem length_ascent_le (hw : WellNested [] (declarations os)) (hb : Blocks [] os) {limit : ℕ}
    (hlimit : ∀ o ∈ os, o.within.length ≤ limit) {x : Id} {xs : List Id}
    (hx : x ∈ d.containers.keys) (hup : IsAscent d.parentOf (x :: xs)) :
    ∃ o, block? x os = some o ∧
      (x :: xs).length ≤ (limit - 1) * d.reopenings (x :: xs) + o.opened.length + 1 := by
  induction xs generalizing x with
  | nil =>
    obtain ⟨o, ho, -⟩ := h.exists_block hx
    exact ⟨o, ho, by simp⟩
  | cons p xs ih =>
    obtain ⟨o, ho, hstart, hparent⟩ := h.exists_block hx
    have hp : p ∈ d.containers.keys := h.parentOf_mem hw hup.1
    obtain ⟨o', ho', hle⟩ := ih hp hup.2
    obtain ⟨o'', ho'', hstart', -⟩ := h.exists_block hp
    rw [ho'] at ho''
    obtain rfl := Option.some.inj ho''
    have hhead : o.opened.head? = some p := hparent.symm.trans hup.1
    obtain ⟨outer, hopened⟩ := List.head?_eq_some_iff.mp hhead
    have hlen : o.opened.length = outer.length + 1 := by rw [hopened, List.length_cons]
    refine ⟨o, ho, ?_⟩
    rw [List.length_cons, reopenings, hstart, hstart', hlen]
    split_ifs with hlt
    · have houter := hb.older x o p outer o' ho hopened ho' hlt
      rw [houter] at hle
      simp only [Nat.add_zero]
      omega
    · obtain ⟨hmem, hopens⟩ := block?_eq_some ho'
      have hroom := hlimit o' hmem
      rw [length_within hopens] at hroom
      rw [Nat.mul_add]
      omega

end Reflects

/-- From every container the way up ends, after at most `maxNesting` containers if each of them was
declared before the one below it; every exception to this lets it be longer by `maxNesting - 1`. -/
theorem length_ascent_le_of_parse {source : String} {d : Diagram}
    (h : (parse source).outcome = .ok d) : ∀ c ∈ d.containers.keys,
      (∃ xs, IsAscent d.parentOf (c :: xs)) ∧ ∀ xs, IsAscent d.parentOf (c :: xs) →
        (c :: xs).length ≤ maxNesting + (maxNesting - 1) * d.reopenings (c :: xs) := by
  obtain ⟨ss, hss, e, he, rfl⟩ := parse_eq_ok_iff.mp h
  obtain ⟨⟨hr, hw⟩, hb⟩ := Draft.stacks_placeAll he
  have hlimit : ∀ o ∈ Statement.occurrencesAll [] ss, o.within.length ≤ maxNesting := by
    have hdoc := (parseStatements_eq_ok_iff.mp hss).document
    intro o ho
    have hle := Statement.length_within_le_all [] ss o ho
    rw [List.length_nil, Nat.zero_add] at hle
    exact hle.trans hdoc.heights_le
  intro c hc
  constructor
  · obtain ⟨n, hn⟩ := hw.ends c
    rw [hr.parentOf_eq]
    exact exists_ascent hn
  · intro xs hup
    obtain ⟨o, ho, hle⟩ :=
      hr.length_ascent_le hw (hb (parseStatements_starts hss)) hlimit hc hup
    obtain ⟨hmem, hopens⟩ := block?_eq_some ho
    have hroom := hlimit o hmem
    rw [length_within hopens] at hroom
    omega

/-- The containers `c0`, `c1` and so on, each inside the one before. -/
def tower (i : ℕ) : ℕ → List Char
  | 0 => []
  | n + 1 => "container c".toList ++ Nat.toDigits 10 i ++ " \x7b\n".toList ++ tower (i + 1) n ++
    "\x7d\n".toList

/-- A tower of `maxNesting` containers, the outermost of which is declared again inside `z`. -/
def tallText : List Char :=
  tower 0 maxNesting ++ "container z \x7b\ncontainer c0 \x7b\n\x7d\n\x7d".toList

def tallSource : String :=
  .ofList tallText

/-- The names above the innermost container of the tower. -/
def tallAscent : List Id :=
  ((List.range (maxNesting - 1)).reverse.map fun i => .ofList ('c' :: Nat.toDigits 10 i)) ++ ["z"]

/-- Under `z` the tower has one container more than may be open at once. -/
theorem length_ascent_le_of_tall : ∃ d, (parse tallSource).outcome = .ok d ∧
    "c63" ∈ d.containers.keys ∧ IsAscent d.parentOf ("c63" :: tallAscent) ∧
    maxNesting < ("c63" :: tallAscent).length ∧
    ("c63" :: tallAscent).length ≤
      maxNesting + (maxNesting - 1) * d.reopenings ("c63" :: tallAscent) := by
  have hrun : (parseStatements (lexFrom 1 0 tallText)).outcome.toOption.any (fun ss =>
      (Draft.placeAll [] .empty ss).outcome.toOption.any fun e =>
        "c63" ∈ e.containers.keys ∧ IsAscent e.toDiagram.parentOf ("c63" :: tallAscent)) = true := by
    decide +kernel
  obtain ⟨ss, hss, hplace⟩ := Attempt.exists_eq_ok hrun
  obtain ⟨e, he, hchain⟩ := Attempt.exists_eq_ok hplace
  obtain ⟨hkey, hup⟩ := of_decide_eq_true hchain
  have hparse : (parse tallSource).outcome = .ok e.toDiagram := by
    refine parse_eq_ok_iff.mpr ⟨ss, ?_, e, he, rfl⟩
    rw [tallSource, tokenize, String.toList_ofList, hss]
  refine ⟨e.toDiagram, hparse, hkey, hup, by decide, ?_⟩
  exact (length_ascent_le_of_parse hparse "c63" hkey).2 tallAscent hup

end Diagram

end ArchDiagram
