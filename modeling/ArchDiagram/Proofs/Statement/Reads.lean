import ArchDiagram.Proofs.Statement.Loop

/-! What parsers make of the tokens that they take off the front: one rule for each way to put
parsers together, and for the small parsers that statements are put together from. -/
namespace ArchDiagram
namespace Parser

variable {α β : Type}

/-- If `p` reads something, it takes some tokens off the front and `Q` holds of both. -/
def Reads (p : Parser α) (Q : List Token → α → Prop) : Prop :=
  ∀ ts a rest, (p ts).value = .done a rest → ∃ used, ts = used ++ rest ∧ Q used a

lemma reads_pure {Q : List Token → α → Prop} {a : α} (h : Q [] a) :
    Reads (Pure.pure a : Parser α) Q := by
  rintro ts b rest ⟨⟩
  exact ⟨[], rfl, h⟩

lemma reads_bind {p : Parser α} {f : α → Parser β} {Q : List Token → α → Prop}
    {R : List Token → β → Prop} (hp : Reads p Q)
    (hf : ∀ used a, Q used a → Reads (f a) fun more b => R (used ++ more) b) :
    Reads (p >>= f) R := by
  intro ts b rest h
  change (Parser.bind p f ts).value = _ at h
  rw [Parser.bind] at h
  cases hv : (p ts).value with
  | stop cause rest => simp [hv] at h
  | done a mid =>
    simp only [hv] at h
    obtain ⟨used, rfl, hq⟩ := hp ts a mid hv
    obtain ⟨more, rfl, hr⟩ := hf used a hq mid b rest h
    exact ⟨used ++ more, by rw [List.append_assoc], hr⟩

lemma Reads.mono {p : Parser α} {Q R : List Token → α → Prop} (h : Reads p Q)
    (hi : ∀ used a, Q used a → R used a) : Reads p R := by
  intro ts a rest hd
  obtain ⟨used, hts, hq⟩ := h ts a rest hd
  exact ⟨used, hts, hi used a hq⟩

lemma reads_fail {cause : Cause} {Q : List Token → α → Prop} : Reads (fail cause) Q := by
  rintro ts a rest ⟨⟩

lemma reads_next (what : Expectation) (accept : Token → Option α) :
    Reads (next what accept) fun used a => ∃ t, used = [t] ∧ accept t = some a := by
  intro ts a rest h
  cases ts with
  | nil => cases h
  | cons t ts =>
    rw [next] at h
    cases ht : accept t with
    | none => simp [ht] at h
    | some b =>
      simp only [ht, Outcome.done.injEq] at h
      obtain ⟨rfl, rfl⟩ := h
      exact ⟨[t], rfl, t, rfl, ht⟩

lemma reads_identifier :
    Reads identifier fun used x => ∃ t, used = [t] ∧ t.isName = true ∧ x = t.located := by
  refine (reads_next _ _).mono ?_
  rintro used x ⟨t, rfl, ht⟩
  split_ifs at ht with hn
  exact ⟨t, rfl, hn, (Option.some.inj ht).symm⟩

lemma reads_punctuation (kind : TokenKind) (what : Expectation) :
    Reads (punctuation kind what) fun used x => ∃ t, used = [t] ∧ t.kind = kind ∧ x = t.span := by
  refine (reads_next _ _).mono ?_
  rintro used x ⟨t, rfl, ht⟩
  split_ifs at ht with hk
  exact ⟨t, rfl, hk, (Option.some.inj ht).symm⟩

/-- The values of attributes are tokens that were read. -/
lemma reads_attributes : Reads attributes fun used as =>
    ∀ a ∈ as, ∃ t ∈ used, a.value = t.located := by
  intro ts as rest h
  rw [attributes_eq_done_iff] at h
  induction h with
  | nil => exact ⟨[], rfl, by simp⟩
  | @cons n e v _ _ _ _ _ _ _ ih =>
    obtain ⟨used, rfl, hu⟩ := ih
    refine ⟨n :: e :: v :: used, rfl, ?_⟩
    intro a ha
    obtain rfl | ha := List.mem_cons.mp ha
    · exact ⟨v, by simp, rfl⟩
    · obtain ⟨t, ht, hat⟩ := hu a ha
      exact ⟨t, by simp [ht], hat⟩

/-- A relation label is a token that was read. -/
lemma reads_relationLabel : Reads relationLabel fun used label =>
    ∀ x, label = some x → ∃ t ∈ used, x = t.located := by
  intro ts
  cases ts with
  | nil =>
    rintro label rest ⟨⟩
    exact ⟨[], rfl, by simp⟩
  | cons t ts =>
    intro label rest h
    rw [relationLabel] at h
    split_ifs at h with ht
    · obtain ⟨used, rfl, v, rfl, hv⟩ := reads_next _ _ _ _ _ h
      refine ⟨[t, v], rfl, ?_⟩
      rintro x rfl
      split_ifs at hv with hs
      exact ⟨v, by simp, (Option.some.inj (Option.some.inj hv)).symm⟩
    · obtain ⟨rfl, rfl⟩ := Outcome.done.inj h
      exact ⟨[], rfl, by simp⟩

end Parser
end ArchDiagram
