import ArchDiagram.Proofs.Statement.Occurrence
import ArchDiagram.Proofs.Statement.Recognition

/-! The wording of statements. However deep a statement is nested, the grammar writes it with some
of the tokens of the document, so each text in it is the value of one of these. -/
namespace ArchDiagram

/-- The texts that a statement says itself; what is nested in it has its own. -/
def Phrase.texts : Phrase → List String
  | .layout as => as.flatMap fun a => [a.1, a.2]
  | .style name as => name :: as.flatMap fun a => [a.1, a.2]
  | .component id ps | .container id ps _ | .note id ps => id :: ps.map Prod.snd
  | .relation source target label => source :: target :: label.toList

def Statement.texts (s : Statement) : List String :=
  s.phrase.texts

namespace Grammar

/-- Some of the tokens write the statement. -/
def WrittenIn (ts : List Token) (s : Phrase) : Prop :=
  ∃ depth used, used ⊆ ts ∧ Written depth used s

variable {ts : List Token}

lemma Attributes.texts {as : List (String × String)} (h : Attributes ts as) :
    (as.flatMap fun a => [a.1, a.2]) ⊆ ts.map Token.value := by
  induction h with
  | nil => simp
  | @cons n e v ts as _ _ _ _ ih =>
    rw [List.flatMap_cons]
    simp only [List.map_cons, List.cons_append, List.nil_append]
    grind

/-- Every property of a block has its value from a token that its field admits. -/
lemma Content.property_value {kind : BlockKind} {depth : ℕ} {ts : List Token}
    {ps : List (Field × String)} {body : List Phrase} :
    Content kind depth ts ps body → ∀ p ∈ ps, ∃ v ∈ ts, IsFieldValue p.1 v ∧ v.value = p.2
  | .close _ => by simp
  | .property (v := v) _ _ hvalue _ hc => by
    rw [List.forall_mem_cons]
    refine ⟨⟨v, by simp, hvalue, rfl⟩, ?_⟩
    intro p hp
    obtain ⟨u, hu, hp⟩ := hc.property_value p hp
    exact ⟨u, by simp [hu], hp⟩
  | .statement _ _ _ hc => by
    intro p hp
    obtain ⟨u, hu, hp⟩ := hc.property_value p hp
    exact ⟨u, List.mem_append_right _ hu, hp⟩
  | .stray _ hc => by
    intro p hp
    obtain ⟨u, hu, hp⟩ := hc.property_value p hp
    exact ⟨u, List.mem_cons_of_mem _ hu, hp⟩

lemma Content.values {kind : BlockKind} {depth : ℕ} {ts : List Token} {ps : List (Field × String)}
    {body : List Phrase} (h : Content kind depth ts ps body) :
    ps.map Prod.snd ⊆ ts.map Token.value := by
  intro text htext
  obtain ⟨p, hp, rfl⟩ := List.mem_map.mp htext
  obtain ⟨v, hv, -, hvalue⟩ := h.property_value p hp
  exact List.mem_map.mpr ⟨v, hv, hvalue⟩

lemma WrittenIn.mono {us : List Token} {s : Phrase} (h : WrittenIn ts s) (hsub : ts ⊆ us) :
    WrittenIn us s := by
  obtain ⟨depth, used, hused, hw⟩ := h
  exact ⟨depth, used, List.Subset.trans hused hsub, hw⟩

lemma Content.writtenIn {kind : BlockKind} {depth : ℕ} {ts : List Token}
    {ps : List (Field × String)} {body : List Phrase} :
    Content kind depth ts ps body → ∀ s ∈ body, WrittenIn ts s
  | .close _ => by simp
  | .property _ _ _ _ hc => by
    intro s hs
    exact (hc.writtenIn s hs).mono (List.subset_cons_of_subset _ (List.subset_cons_self _ _))
  | .statement hw _ _ hc => by
    rw [List.forall_mem_cons]
    refine ⟨⟨_, _, List.subset_append_left _ _, hw⟩, ?_⟩
    intro s hs
    exact (hc.writtenIn s hs).mono (List.subset_append_right _ _)
  | .stray _ hc => by
    intro s hs
    exact (hc.writtenIn s hs).mono (List.subset_cons_self _ _)

lemma WrittenIn.body {id : Id} {ps : List (Field × String)} {body : List Phrase}
    (h : WrittenIn ts (.container id ps body)) : ∀ s ∈ body, WrittenIn ts s := by
  obtain ⟨depth, used, hsub, hw⟩ := h
  cases hw with
  | @container _ k n o us _ _ _ _ _ _ hc =>
    intro s hs
    have hus : us ⊆ k :: n :: o :: us := (List.suffix_append [k, n, o] us).subset
    exact (hc.writtenIn s hs).mono (List.Subset.trans hus hsub)

lemma Document.writtenIn {ss : List Phrase} (h : Document ts ss) : ∀ s ∈ ss, WrittenIn ts s := by
  induction h with
  | nil => simp
  | cons hw _ ih =>
    rw [List.forall_mem_cons]
    refine ⟨⟨_, _, List.subset_append_left _ _, hw⟩, ?_⟩
    intro s hs
    exact (ih s hs).mono (List.subset_append_right _ _)

lemma Written.texts {depth : ℕ} {used : List Token} {s : Phrase} (h : Written depth used s) :
    s.texts ⊆ used.map Token.value := by
  cases h with
  | layout _ ha => exact List.subset_cons_of_subset _ ha.texts
  | style _ _ ha =>
    have has := ha.texts
    simp only [Phrase.texts, List.map_cons]
    grind
  | relation => simp [Phrase.texts]
  | labelled => simp [Phrase.texts]
  | component _ _ _ hc | note _ _ _ hc | container _ _ _ _ hc =>
    have hps := hc.values
    simp only [Phrase.texts, List.map_cons]
    grind

lemma WrittenIn.texts {s : Phrase} (h : WrittenIn ts s) : s.texts ⊆ ts.map Token.value := by
  obtain ⟨depth, used, hsub, hw⟩ := h
  exact List.Subset.trans hw.texts (List.map_subset _ hsub)

end Grammar

namespace Statement
open Grammar

variable {ts : List Token}

mutual

lemma writtenIn_occurrences (opened : List Id) : ∀ s : Statement, WrittenIn ts s.phrase →
    ∀ o ∈ s.occurrences opened, WrittenIn ts o.statement.phrase
  | .container span id ps body => by
    intro h
    rw [occurrences, List.forall_mem_cons]
    rw [phrase] at h
    exact ⟨h, writtenIn_occurrencesAll _ body h.body⟩
  | .layout .. | .style .. | .component .. | .relation .. | .note .. => by
    intro h
    simpa [occurrences] using h

/-- With the statements of a document the tokens write all that is nested in them. -/
lemma writtenIn_occurrencesAll (opened : List Id) : ∀ ss : List Statement,
    (∀ p ∈ phrases ss, WrittenIn ts p) →
      ∀ o ∈ occurrencesAll opened ss, WrittenIn ts o.statement.phrase
  | [] => by simp [occurrencesAll]
  | s :: ss => by
    intro h
    rw [phrases, List.forall_mem_cons] at h
    rw [occurrencesAll, List.forall_mem_append]
    exact ⟨writtenIn_occurrences opened s h.1, writtenIn_occurrencesAll opened ss h.2⟩

end

end Statement

theorem parseStatements_texts {ts : List Token} {ss : List Statement}
    (h : (parseStatements ts).outcome = .ok ss) :
    ∀ o ∈ Statement.occurrencesAll [] ss, o.statement.texts ⊆ ts.map Token.value := by
  have hdoc := (parseStatements_eq_ok_iff.mp h).document
  intro o ho
  exact (Statement.writtenIn_occurrencesAll [] ss hdoc.writtenIn o ho).texts

end ArchDiagram
