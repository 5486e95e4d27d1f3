import ArchDiagram.Proofs.Statement.Grammar

/-! Tokens of the grammar as the parser looks at them: what a token is in a block, and how far the
parser has to look ahead to see where a statement ends. -/
namespace ArchDiagram
namespace Grammar

lemma isName_iff {t : Token} : t.isName = true ↔ IsName t := by
  rw [Token.isName, IsName]
  cases t.kind <;> simp

lemma isValueOf_iff {name : String} {t : Token} : t.isValueOf name = true ↔ IsValue name t := by
  rw [Token.isValueOf, IsValue]
  cases t.kind <;> simp

lemma accepts_iff {f : Field} {t : Token} : f.accepts t = true ↔ IsFieldValue f t := by
  cases f <;> simp [Field.accepts, IsFieldValue, isName_iff, isValueOf_iff]

lemma opensBlock_iff {word : Keyword} :
    word.opensBlock = true ↔ word ∈ [Keyword.component, .container, .note] := by
  cases word <;> decide

lemma field_name_eq_text_iff {f : Field} {word : Keyword} :
    f.name = word.text ↔ word = .style ∧ f = .style := by
  cases word <;> cases f <;> decide

lemma field?_eq_some_iff {kind : BlockKind} {name : String} {f : Field} :
    kind.field? name = some f ↔ f ∈ kind.fields ∧ f.name = name := by
  constructor
  · intro h
    exact ⟨List.mem_of_find?_eq_some h, by simpa using List.find?_some h⟩
  · rintro ⟨hf, rfl⟩
    cases kind <;> cases f <;> simp_all [BlockKind.fields] <;> decide

lemma elim_field?_eq_property_iff {kind : BlockKind} {name : String} {f : Field} :
    (kind.field? name).elim ItemRole.skipped .property = .property f ↔
      f ∈ kind.fields ∧ f.name = name := by
  rw [← field?_eq_some_iff]
  cases kind.field? name <;> simp

/-- A keyword opens a statement in a container, but `style` only if attributes follow its name. -/
lemma role_keyword {kind : BlockKind} {t : Token} {word : Keyword} (ht : t.kind = .keyword word)
    (ts : List Token) : kind.role t ts =
      if kind = .container ∧ (word = .style → styleAhead ts = true) then .statement
      else if word.opensBlock then .refused
      else (kind.field? word.text).elim .skipped .property := by
  rw [BlockKind.role, ht]
  cases word <;> simp

lemma role_eq_close_iff {kind : BlockKind} {t : Token} {ts : List Token} :
    kind.role t ts = .close ↔ t.kind = .rightBrace := by
  cases ht : t.kind with
  | keyword word =>
    rw [role_keyword ht]
    split_ifs
    · simp
    · simp
    · cases kind.field? word.text <;> simp
  | property =>
    rw [BlockKind.role, ht]
    cases kind.field? t.value <;> simp
  | _ => simp [BlockKind.role, ht]

lemma role_eq_statement_iff {kind : BlockKind} {t : Token} {ts : List Token} :
    kind.role t ts = .statement ↔ kind = .container ∧
      ∃ word, t.kind = .keyword word ∧ (word = .style → styleAhead ts = true) := by
  cases ht : t.kind with
  | keyword word =>
    rw [role_keyword ht]
    split_ifs with hs
    · simpa using hs
    · simpa using hs
    · cases kind.field? word.text <;> simpa using hs
  | property =>
    rw [BlockKind.role, ht]
    cases kind.field? t.value <;> simp
  | _ => simp [BlockKind.role, ht]

lemma role_eq_refused_iff {kind : BlockKind} {t : Token} {ts : List Token} :
    kind.role t ts = .refused ↔ kind ≠ .container ∧
      ∃ word, t.kind = .keyword word ∧ word.opensBlock = true := by
  cases ht : t.kind with
  | keyword word =>
    rw [role_keyword ht]
    split_ifs with hs hb
    · simp [hs.1]
    · cases word <;> simp_all [Keyword.opensBlock]
    · cases kind.field? word.text <;> simp [hb]
  | property =>
    rw [BlockKind.role, ht]
    cases kind.field? t.value <;> simp
  | _ => simp [BlockKind.role, ht]

lemma role_eq_property_iff {kind : BlockKind} {t : Token} {ts : List Token} {f : Field} :
    kind.role t ts = .property f ↔ f ∈ kind.fields ∧ Names f t ∧
      (kind = .container → t.kind = .keyword .style → styleAhead ts = false) := by
  rw [Names]
  cases ht : t.kind with
  | keyword word =>
    rw [role_keyword ht]
    split_ifs with hs hb
    · cases word <;> simp_all
    · cases word <;> simp_all [Keyword.opensBlock]
    · rw [elim_field?_eq_property_iff, field_name_eq_text_iff]
      cases word <;> simp_all
  | property =>
    rw [BlockKind.role, ht, elim_field?_eq_property_iff]
    simp [eq_comm (a := t.value)]
  | _ => simp [BlockKind.role, ht]

/-- What plays no other role is skipped. -/
lemma role_eq_skipped_iff {kind : BlockKind} {t : Token} {ts : List Token} :
    kind.role t ts = .skipped ↔ IsStray kind t := by
  constructor
  · intro h
    have hclose := mt role_eq_close_iff.mpr (by rw [h]; simp)
    have hstatement := mt role_eq_statement_iff.mpr (by rw [h]; simp)
    have hrefused := mt role_eq_refused_iff.mpr (by rw [h]; simp)
    have hproperty := fun f => mt (role_eq_property_iff (f := f)).mpr (by rw [h]; simp)
    have hkeyword : kind = .container → ∀ word, t.kind ≠ .keyword word := by
      rintro rfl word ht
      by_cases hs : word = .style → styleAhead ts = true
      · exact hstatement ⟨rfl, word, ht, hs⟩
      · obtain ⟨rfl, ha⟩ := Classical.not_imp.mp hs
        exact hproperty .style ⟨by decide, Or.inr ⟨ht, rfl⟩, fun _ _ => by simpa using ha⟩
    refine ⟨hclose, ?_, ?_, ?_⟩
    · intro word hword ht
      by_cases hk : kind = .container
      · exact hkeyword hk word ht
      · exact hrefused ⟨hk, word, ht, opensBlock_iff.mpr hword⟩
    · exact hkeyword
    · intro f hf hn
      apply hproperty f
      refine ⟨hf, hn, ?_⟩
      intro hk ht
      exact absurd ht (hkeyword hk .style)
  · intro h
    cases hr : kind.role t ts with
    | close => exact absurd (role_eq_close_iff.mp hr) h.not_close
    | statement =>
      obtain ⟨hk, word, ht, -⟩ := role_eq_statement_iff.mp hr
      exact absurd ht (h.not_statement hk word)
    | refused =>
      obtain ⟨-, word, ht, hb⟩ := role_eq_refused_iff.mp hr
      exact absurd ht (h.not_block word (opensBlock_iff.mp hb))
    | property f =>
      obtain ⟨hf, hn, -⟩ := role_eq_property_iff.mp hr
      exact absurd hn (h.not_property f hf)
    | skipped => rfl

@[simp] theorem not_attributeAhead_nil : ¬ AttributeAhead [] := by
  simp [AttributeAhead]

@[simp] theorem attributeAhead_cons_cons {n e : Token} {ts : List Token} :
    AttributeAhead (n :: e :: ts) ↔ IsName n ∧ e.kind = .equals := by
  simp [AttributeAhead]

lemma AttributeAhead.isName {t : Token} {ts : List Token} (h : AttributeAhead (t :: ts)) :
    IsName t := by
  obtain ⟨n, e, rest, hts, hn, -⟩ := h
  obtain ⟨rfl, -⟩ := List.cons.inj hts
  exact hn

lemma AttributeAhead.append {ts : List Token} (h : AttributeAhead ts) (more : List Token) :
    AttributeAhead (ts ++ more) := by
  obtain ⟨n, e, rest, rfl, hn, he⟩ := h
  exact ⟨n, e, rest ++ more, rfl, hn, he⟩

@[simp] theorem not_colonAhead_nil : ¬ ColonAhead [] := by
  simp [ColonAhead]

@[simp] theorem colonAhead_cons {c : Token} {ts : List Token} :
    ColonAhead (c :: ts) ↔ c.kind = .colon := by
  simp [ColonAhead]

lemma styleAhead_cons {t : Token} {ts : List Token} :
    styleAhead (t :: ts) = true ↔ IsName t ∧ AttributeAhead ts := by
  match ts with
  | [] => simp [styleAhead]
  | [u] => simp [styleAhead, AttributeAhead]
  | u :: v :: ts => simp [styleAhead, isName_iff, and_assoc]

/-- Where a statement ends depends on what comes first behind it. -/
lemma EndsBefore.mono {ts us : List Token} {s : Phrase} (h : EndsBefore ts s)
    (ha : AttributeAhead us → AttributeAhead ts) (hc : ColonAhead us → ColonAhead ts) :
    EndsBefore us s := by
  match s with
  | .layout _ | .style _ _ => exact mt ha h
  | .relation _ _ none => exact mt hc h
  | .relation _ _ (some _) | .component _ _ | .container _ _ _ | .note _ _ => trivial

lemma EndsBefore.of_append {ts more : List Token} {s : Phrase} (h : EndsBefore (ts ++ more) s) :
    EndsBefore ts s := by
  refine h.mono (fun ha => ha.append more) ?_
  rintro ⟨c, rest, rfl, hc⟩
  exact ⟨c, rest ++ more, rfl, hc⟩

lemma endsBefore_nil (s : Phrase) : EndsBefore [] s := by
  match s with
  | .layout _ | .style _ _ => exact not_attributeAhead_nil
  | .relation _ _ none => exact not_colonAhead_nil
  | .relation _ _ (some _) | .component _ _ | .container _ _ _ | .note _ _ => trivial

lemma endsBefore_cons {t : Token} {ts : List Token} (hname : ¬ IsName t) (hcolon : t.kind ≠ .colon)
    (s : Phrase) : EndsBefore (t :: ts) s :=
  (endsBefore_nil s).mono (fun ha => absurd ha.isName hname)
    (fun hc => absurd (colonAhead_cons.mp hc) hcolon)

/-- In a container the property `style` is not followed by attributes. -/
lemma not_attributeAhead_of_role {kind : BlockKind} {t v : Token} {ts : List Token} {f : Field}
    (hrole : kind.role t (v :: ts) = .property f) (hk : kind = .container)
    (ht : t.kind = .keyword .style) (hv : IsFieldValue f v) : ¬ AttributeAhead ts := by
  intro ha
  obtain ⟨-, hname, hstyle⟩ := role_eq_property_iff.mp hrole
  obtain rfl : f = .style := by simpa [Names, ht] using hname
  have hahead := styleAhead_cons.mpr ⟨by simpa [IsFieldValue] using hv, ha⟩
  simp [hstyle hk ht] at hahead

/-- In a container a statement that starts with `style` has attributes. -/
lemma ne_style_of_role {kind : BlockKind} {t : Token} {ts used rest : List Token} {depth : ℕ}
    {s : Phrase} (hrole : kind.role t ts = .statement) (hts : t :: ts = used ++ rest)
    (hs : Written depth used s) (hends : EndsBefore rest s) (name : Id) : s ≠ .style name [] := by
  rintro rfl
  obtain ⟨-, word, ht, hstyle⟩ := role_eq_statement_iff.mp hrole
  cases hs with
  | @style _ k n _ _ hk hn ha =>
    cases ha
    obtain ⟨rfl, rfl⟩ := List.cons.inj hts
    obtain rfl : word = .style := by simpa [hk, eq_comm] using ht
    exact hends (styleAhead_cons.mp (hstyle rfl)).2

/-- Only containers hold statements. -/
theorem Content.body_eq_nil {kind : BlockKind} {depth : ℕ} {ts : List Token}
    {ps : List (Field × String)} {body : List Phrase} (hk : kind ≠ .container) :
    Content kind depth ts ps body → body = []
  | .close _ => rfl
  | .property _ _ _ _ rest => rest.body_eq_nil hk
  | .statement .. => absurd rfl hk
  | .stray _ rest => rest.body_eq_nil hk

lemma Written.exists_keyword {depth : ℕ} {used : List Token} {s : Phrase}
    (h : Written depth used s) : ∃ k us word, used = k :: us ∧ k.kind = .keyword word := by
  cases h with
  | layout hk | style hk | relation hk | labelled hk | component hk | note hk | container hk =>
    exact ⟨_, _, _, rfl, hk⟩

lemma Written.ne_nil {depth : ℕ} {used : List Token} {s : Phrase} (h : Written depth used s) :
    used ≠ [] := by
  obtain ⟨k, us, word, rfl, -⟩ := h.exists_keyword
  exact List.cons_ne_nil k us

/-- Reading a statement takes a token at least. -/
lemma Written.length_le {depth : ℕ} {used : List Token} {s : Phrase} (h : Written depth used s)
    {t : Token} {ts rest : List Token} (hts : t :: ts = used ++ rest) : rest.length ≤ ts.length := by
  obtain ⟨k, us, word, rfl, -⟩ := h.exists_keyword
  obtain ⟨rfl, rfl⟩ := List.cons.inj hts
  simp

lemma Content.ne_nil {kind : BlockKind} {depth : ℕ} {ts : List Token}
    {ps : List (Field × String)} {body : List Phrase} (h : Content kind depth ts ps body) :
    ts ≠ [] := by
  cases h with
  | statement hw => simp [hw.ne_nil]
  | _ => simp

/-- A closing brace ends what a block looks ahead to. -/
lemma Content.attributeAhead_of_append {kind : BlockKind} {depth : ℕ} {ts : List Token}
    {ps : List (Field × String)} {body : List Phrase} (h : Content kind depth ts ps body)
    {rest : List Token} (ha : AttributeAhead (ts ++ rest)) : AttributeAhead ts := by
  cases h with
  | close ht =>
    have hname := ha.isName
    simp [IsName, ht] at hname
  | property => simpa using ha
  | statement hw =>
    obtain ⟨k, us, word, rfl, hk⟩ := hw.exists_keyword
    have hname := ha.isName
    simp [IsName, hk] at hname
  | stray _ hc =>
    obtain ⟨u, us, rfl⟩ := List.exists_cons_of_ne_nil hc.ne_nil
    simpa using ha

lemma EndsBefore.append_of_content {kind : BlockKind} {depth : ℕ} {ts : List Token}
    {ps : List (Field × String)} {body : List Phrase} (h : Content kind depth ts ps body)
    {s : Phrase} (hs : EndsBefore ts s) (rest : List Token) : EndsBefore (ts ++ rest) s := by
  refine hs.mono h.attributeAhead_of_append ?_
  obtain ⟨t, us, rfl⟩ := List.exists_cons_of_ne_nil h.ne_nil
  intro hc
  simpa using hc

end Grammar

end ArchDiagram
