import ArchDiagram.Proofs.Diagram.Draft

/-! Handles of open containers. A container is known by its position from when it is registered until
its block ends. Statements add containers behind the others and replace them in place, so that
position leads to the same container for as long, and no statement is without the one around it. -/
namespace ArchDiagram

namespace OrderedMap

variable {α β : Type}

lemma keys_isPrefix_insert [DecidableEq α] (m : OrderedMap α β) (k : α) (v : β) :
    m.keys <+: (m.insert k v).keys := by
  rw [keys_insert]
  split_ifs
  · exact List.prefix_rfl
  · exact List.prefix_append _ _

/-- A key stays where it is as long as keys only come behind it. -/
lemma exists_entry_of_isPrefix {m n : OrderedMap α β} (h : m.keys <+: n.keys) {i : ℕ} {e : α × β}
    (he : m.entries[i]? = some e) : ∃ v, n.entries[i]? = some (e.1, v) := by
  have hkey : m.keys[i]? = some e.1 := by simp [keys, he]
  have hn : n.keys[i]? = some e.1 := by
    obtain ⟨rest, hrest⟩ := h
    rw [← hrest, List.getElem?_append_left (List.getElem?_eq_some_iff.mp hkey).1, hkey]
  rw [keys, List.getElem?_map, Option.map_eq_some_iff] at hn
  obtain ⟨⟨k, v⟩, hv, rfl⟩ := hn
  exact ⟨v, hv⟩

lemma entries_position [DecidableEq α] {m : OrderedMap α β} {k : α} (h : k ∈ m.keys) :
    ∃ v, m.entries[m.position k]? = some (k, v) := by
  have hkey : m.keys[m.position k]? = some k := List.getElem?_idxOf h
  rw [keys, List.getElem?_map, Option.map_eq_some_iff] at hkey
  obtain ⟨⟨j, v⟩, hv, rfl⟩ := hkey
  exact ⟨v, hv⟩

end OrderedMap

namespace Draft

/-- Every container is stored under its own id. -/
def Keyed (d : Draft) : Prop :=
  ∀ x c, d.containers.get? x = some c → c.id = x

/-- What becomes of `d`: containers keep their positions, or one of them stands in itself. -/
def Keeps (d : Draft) : Except NestingFault Draft → Prop
  | .ok e => d.containers.keys <+: e.containers.keys ∧ e.Keyed
  | .error fault => ∃ id enclosing, fault = .selfNested id enclosing

variable {d e : Draft} {opened : List Id}

lemma Registers.mono (h : d.Registers opened) (hk : d.containers.keys <+: e.containers.keys)
    (he : e.Keyed) : e.Registers opened := by
  intro p hp
  obtain ⟨c, hc, -⟩ := h p hp
  have hmem := hk.subset (OrderedMap.mem_keys_iff.mpr ⟨c, hc⟩)
  obtain ⟨c', hc'⟩ := OrderedMap.mem_keys_iff.mp hmem
  exact ⟨c', hc', he p c' hc'⟩

lemma Keeps.refl (hd : d.Keyed) : d.Keeps (.ok d) :=
  ⟨List.prefix_rfl, hd⟩

lemma keeps_bind {x : Except NestingFault Draft} {f : Draft → Except NestingFault Draft}
    (hx : d.Keeps x) (hf : ∀ e : Draft, x = .ok e → d.containers.keys <+: e.containers.keys →
      e.Keyed → e.Keeps (f e)) : d.Keeps (x.bind f) := by
  cases x with
  | error fault => exact hx
  | ok e =>
    obtain ⟨hk, he⟩ := hx
    have hfe := hf e rfl hk he
    change d.Keeps (f e)
    cases hr : f e with
    | error fault =>
      rw [hr] at hfe
      exact hfe
    | ok e' =>
      rw [hr] at hfe
      exact ⟨hk.trans hfe.1, hfe.2⟩

lemma keys_regroup (d : Draft) (id : Id) (old new : Option Id) :
    (d.regroup id old new).keys = d.containers.keys := by
  cases old <;> cases new <;> simp [regroup]

lemma keyed_regroup (hd : d.Keyed) {id : Id} {old new : Option Id} {x : Id} {c : Container}
    (h : (d.regroup id old new).get? x = some c) : c.id = x := by
  rw [get?_regroup, Option.map_eq_some_iff] at h
  obtain ⟨k, hk, rfl⟩ := h
  exact hd x k hk

lemma keeps_addComponent (hd : d.Keyed) (ho : d.Registers opened) (id : Id) (ps : List Property)
    (span : Span) : d.Keeps (d.addComponent opened id ps span).outcome := by
  rw [outcome_addComponent ho]
  refine ⟨?_, fun x c hc => keyed_regroup hd hc⟩
  rw [keys_regroup]

lemma keeps_addContainer (hd : d.Keyed) (ho : d.Registers opened) (id : Located Id)
    (ps : List Property) (span : Span) : d.Keeps (d.addContainer opened id ps span).outcome := by
  rw [outcome_addContainer ho]
  cases d.enclosing? opened id.value with
  | some outer => exact ⟨id, outer.span, rfl⟩
  | none =>
    refine ⟨?_, OrderedMap.forall_insert (fun x c hc => keyed_regroup hd hc) rfl⟩
    rw [← keys_regroup d id.value]
    exact OrderedMap.keys_isPrefix_insert _ _ _

lemma keeps_atTop (hd : d.Keyed) {keyword : Keyword} {span : Span} {added : Logged Draft}
    (ha : added.value.containers = d.containers) :
    d.Keeps (d.atTop opened keyword span added).outcome := by
  rw [outcome_atTop]
  split_ifs
  · refine ⟨?_, ?_⟩
    · rw [ha]
    · intro x c hc
      rw [ha] at hc
      exact hd x c hc
  · exact .refl hd

/-- A container is registered before its body. -/
lemma registers_addContainer (hd : d.Keyed) (ho : d.Registers opened) {id : Located Id}
    {ps : List Property} {span : Span} (h : (d.addContainer opened id ps span).outcome = .ok e) :
    e.Registers (id.value :: opened) := by
  have hkeeps := keeps_addContainer hd ho id ps span
  rw [h] at hkeeps
  have hmem : id.value ∈ e.containers.keys := by
    rw [outcome_addContainer ho] at h
    cases he : d.enclosing? opened id.value with
    | some outer => simp [he] at h
    | none =>
      rw [he] at h
      obtain rfl := Except.ok.inj h
      exact OrderedMap.mem_keys_iff.mpr ⟨_, OrderedMap.get?_insert_self _ _ _⟩
  intro p hp
  obtain rfl | hp := List.mem_cons.mp hp
  · obtain ⟨c, hc⟩ := OrderedMap.mem_keys_iff.mp hmem
    exact ⟨c, hc, hkeeps.2 _ c hc⟩
  · exact ho.mono hkeeps.1 hkeeps.2 p hp

mutual

theorem keeps_place {d : Draft} {opened : List Id} (hd : d.Keyed) (ho : d.Registers opened) :
    ∀ s : Statement, d.Keeps (d.place opened s).outcome
  | .component span id ps => by
    rw [place]
    exact keeps_addComponent hd ho id.value ps span
  | .container span id ps body => by
    rw [place, Attempt.outcome_bind]
    refine keeps_bind (keeps_addContainer hd ho id ps span) ?_
    intro e he hk hkeyed
    exact keeps_placeAll hkeyed (registers_addContainer hd ho he) body
  | .layout .. | .style .. | .relation .. | .note .. => by
    rw [place]
    exact keeps_atTop hd rfl

theorem keeps_placeAll {d : Draft} {opened : List Id} (hd : d.Keyed) (ho : d.Registers opened) :
    ∀ ss : List Statement, d.Keeps (placeAll opened d ss).outcome
  | [] => by
    rw [placeAll]
    exact .refl hd
  | s :: ss => by
    rw [placeAll, Attempt.outcome_bind]
    refine keeps_bind (keeps_place hd ho s) ?_
    intro e _ hk hkeyed
    exact keeps_placeAll hkeyed (ho.mono hk hkeyed) ss

end

end Draft

/-- A container whose block is open, and the position that it was given when it was registered. -/
structure OpenBlock where
  id : Id
  handle : ℕ

namespace Draft

/-- Placing `ss` in the draft `d` inside the blocks `stack`, innermost first, comes to a point inside
the blocks of the second stack, where it has made the second draft. -/
inductive Reaches : List OpenBlock → Draft → List Statement → List OpenBlock → Draft → Prop
  | here {stack d ss} : Reaches stack d ss stack d
  | next {stack d s e ss stack' d'}
      (placed : (d.place (stack.map OpenBlock.id) s).outcome = .ok e)
      (rest : Reaches stack e ss stack' d') : Reaches stack d (s :: ss) stack' d'
  | inside {stack d span id ps body e ss stack' d'}
      (added : (d.addContainer (stack.map OpenBlock.id) id ps span).outcome = .ok e)
      (inner : Reaches (⟨id.value, e.containers.position id.value⟩ :: stack) e body stack' d') :
      Reaches stack d (.container span id ps body :: ss) stack' d'

/-- The handle of every open block leads to the container of that block, which its id leads to. -/
def Resolves (d : Draft) (stack : List OpenBlock) : Prop :=
  ∀ b ∈ stack, ∃ c, d.containers.entries[b.handle]? = some (b.id, c) ∧ c.id = b.id ∧
    d.containers.get? b.id = some c

variable {d e : Draft} {stack : List OpenBlock}

lemma resolves_of_entry {b : OpenBlock} (hd : d.Keyed) {c : Container}
    (h : d.containers.entries[b.handle]? = some (b.id, c)) :
    ∃ c, d.containers.entries[b.handle]? = some (b.id, c) ∧ c.id = b.id ∧
      d.containers.get? b.id = some c := by
  have hget := OrderedMap.get?_eq_some_iff.mpr (List.mem_of_getElem? h)
  exact ⟨c, h, hd _ c hget, hget⟩

lemma Resolves.registers (h : d.Resolves stack) : d.Registers (stack.map OpenBlock.id) := by
  intro p hp
  obtain ⟨b, hb, rfl⟩ := List.mem_map.mp hp
  obtain ⟨c, -, hid, hc⟩ := h b hb
  exact ⟨c, hc, hid⟩

lemma Resolves.mono (h : d.Resolves stack) (hk : d.containers.keys <+: e.containers.keys)
    (he : e.Keyed) : e.Resolves stack := by
  intro b hb
  obtain ⟨c, hc, -⟩ := h b hb
  obtain ⟨c', hc'⟩ := OrderedMap.exists_entry_of_isPrefix hk hc
  exact resolves_of_entry he hc'

/-- A block that opens is known by the position of its container. -/
lemma Resolves.push (h : d.Resolves stack) (hd : d.Keyed) {id : Located Id} {ps : List Property}
    {span : Span}
    (ha : (d.addContainer (stack.map OpenBlock.id) id ps span).outcome = .ok e) :
    e.Keyed ∧ e.Resolves (⟨id.value, e.containers.position id.value⟩ :: stack) := by
  have hkeeps := keeps_addContainer hd h.registers id ps span
  rw [ha] at hkeeps
  obtain ⟨hk, he⟩ := hkeeps
  refine ⟨he, ?_⟩
  intro b hb
  obtain rfl | hb := List.mem_cons.mp hb
  · obtain ⟨c, hc, -⟩ := registers_addContainer hd h.registers ha id.value List.mem_cons_self
    obtain ⟨c', hc'⟩ := OrderedMap.entries_position (OrderedMap.mem_keys_iff.mpr ⟨c, hc⟩)
    exact resolves_of_entry he hc'
  · exact h.mono hk he b hb

/-- Wherever building gets, all handles of open blocks are good. -/
theorem Reaches.resolves {ss : List Statement} {stack' : List OpenBlock} {d' : Draft}
    (h : Reaches stack d ss stack' d') (hd : d.Keyed) (hs : d.Resolves stack) :
    d'.Resolves stack' := by
  induction h with
  | here => exact hs
  | @next stack d s e ss stack' d' placed _ ih =>
    have hkeeps := keeps_place hd hs.registers s
    rw [placed] at hkeeps
    exact ih hkeeps.2 (hs.mono hkeeps.1 hkeeps.2)
  | inside added _ ih =>
    obtain ⟨he, hpush⟩ := hs.push hd added
    exact ih he hpush

end Draft

/-- A diagnostic about the text, at the place where the text is wrong. -/
structure Diagnostic.IsSyntactic (d : Diagnostic) : Prop where
  code : ∃ code ∈ [Code.unexpectedToken, .unexpectedEnd, .unknownStatement, .selfNested,
    .nestedTooDeeply], d.code = some code ∧ code.category = .grammar
  label : ∃ label ∈ d.labels.head?, label.primary = true

lemma SyntaxFault.isSyntactic (fault : SyntaxFault) : fault.diagnostic.IsSyntactic := by
  cases fault with
  | unexpected what t => exact ⟨⟨.unexpectedToken, by simp, rfl, rfl⟩, ⟨_, rfl, rfl⟩⟩
  | unknownStatement t => exact ⟨⟨.unknownStatement, by simp, rfl, rfl⟩, ⟨_, rfl, rfl⟩⟩
  | tooDeep t => exact ⟨⟨.nestedTooDeeply, by simp, rfl, rfl⟩, ⟨_, rfl, rfl⟩⟩
  | endOfInput cause last => exact ⟨⟨.unexpectedEnd, by simp, rfl, rfl⟩, ⟨_, rfl, rfl⟩⟩

lemma NestingFault.isSyntactic_selfNested (id : Located Id) (enclosing : Span) :
    (selfNested id enclosing).diagnostic.IsSyntactic :=
  ⟨⟨.selfNested, by simp, rfl, rfl⟩, ⟨_, rfl, rfl⟩⟩

namespace Diagram

/-- A source is refused with one diagnostic about its text, never because an open container is
unknown: wherever building gets, the handles of all open blocks lead to their containers. -/
theorem parse_fails_syntactically (source : String) :
    (∀ f, (parse source).outcome = .error f →
      ∃ diagnostic, f.diagnostics = [diagnostic] ∧ diagnostic.IsSyntactic) ∧
    ∀ ss, (parseStatements (tokenize source)).outcome = .ok ss →
      ∀ stack d, Draft.Reaches [] .empty ss stack d → d.Resolves stack := by
  have hkeyed : Draft.empty.Keyed := by
    intro x c hc
    simp [Draft.empty] at hc
  have hregisters : Draft.empty.Registers [] := by simp [Draft.Registers]
  constructor
  · intro f h
    rw [outcome_parse] at h
    cases hss : (parseStatements (tokenize source)).outcome with
    | error fault =>
      rw [hss] at h
      obtain rfl := Except.error.inj h
      exact ⟨_, rfl, fault.isSyntactic⟩
    | ok ss =>
      have hkeeps := Draft.keeps_placeAll hkeyed hregisters ss
      cases hd : (Draft.placeAll [] .empty ss).outcome with
      | error fault =>
        rw [hd] at hkeeps
        obtain ⟨id, enclosing, rfl⟩ := hkeeps
        simp only [hss, hd] at h
        obtain rfl := Except.error.inj h
        exact ⟨_, rfl, NestingFault.isSyntactic_selfNested id enclosing⟩
      | ok d => simp [hss, hd] at h
  · intro ss _ stack d h
    exact h.resolves hkeyed (by simp [Draft.Resolves])

/-- A container inside itself, two blocks further out. -/
def selfNestedSource : String :=
  "container a { container b { container a { } } }"

theorem fails_syntactically_of_selfNested : ∃ f, (parse selfNestedSource).outcome = .error f ∧
    f.diagnostics.map Diagnostic.code = [some .selfNested] ∧
    ∃ diagnostic, f.diagnostics = [diagnostic] ∧ diagnostic.IsSyntactic := by
  let fault : NestingFault := .selfNested ⟨"a", ⟨38, 39⟩⟩ ⟨0, 47⟩
  have hrun : (parse selfNestedSource).outcome = .error ⟨[fault.diagnostic]⟩ :=
    Attempt.outcome_eq_error (by decide +kernel)
  exact ⟨_, hrun, rfl, (parse_fails_syntactically selfNestedSource).1 _ hrun⟩

end Diagram

end ArchDiagram
