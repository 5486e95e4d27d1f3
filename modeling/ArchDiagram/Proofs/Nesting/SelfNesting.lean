import ArchDiagram.Proofs.Diagram.Draft

/-! Containers inside themselves. A document is refused exactly if one of its container statements
stands inside another one with the same id, and the diagnostic points at the first such statement and
at the one around it. What is decided there rests on the draft, in which a later declaration
replaces an earlier one; but no container is declared again while its block is open, so the draft
holds every open container as the statement around declares it. -/
namespace ArchDiagram

/-- A statement and the container statements around it, innermost first. -/
structure Site where
  around : List Statement
  statement : Statement

namespace Statement

/-- The id of the container that the statement declares. -/
def containerId? : Statement → Option Id
  | .container _ id _ _ => some id.value
  | _ => none

mutual

/-- A statement and all that is nested in it, in the order of the source. -/
def sites (around : List Statement) : Statement → List Site
  | .container span id ps body =>
    ⟨around, .container span id ps body⟩ :: sitesAll (.container span id ps body :: around) body
  | s => [⟨around, s⟩]

def sitesAll (around : List Statement) : List Statement → List Site
  | [] => []
  | s :: ss => s.sites around ++ sitesAll around ss

end

lemma sites_of_containerId? {s : Statement} (hs : s.containerId? = none) (around : List Statement) :
    s.sites around = [⟨around, s⟩] := by
  cases s with
  | container span id ps body => cases hs
  | _ => simp [sites]

mutual

lemma forall_sites {P : Statement → Prop} {around : List Statement} {opened : List Id}
    (ha : ∀ a ∈ around, P a) : ∀ s : Statement, (∀ o ∈ s.occurrences opened, P o.statement) →
      ∀ x ∈ s.sites around, P x.statement ∧ ∀ a ∈ x.around, P a
  | .container span id ps body => by
    intro h
    rw [occurrences, List.forall_mem_cons] at h
    rw [sites, List.forall_mem_cons]
    refine ⟨⟨h.1, ha⟩, forall_sitesAll ?_ body h.2⟩
    rw [List.forall_mem_cons]
    exact ⟨h.1, ha⟩
  | .layout .. | .style .. | .component .. | .relation .. | .note .. => by
    intro h
    simp only [occurrences, sites, List.mem_singleton, forall_eq] at h ⊢
    exact ⟨h, ha⟩

/-- What holds of all statements holds of each one and of those around it. -/
lemma forall_sitesAll {P : Statement → Prop} {around : List Statement} {opened : List Id}
    (ha : ∀ a ∈ around, P a) : ∀ ss : List Statement,
      (∀ o ∈ occurrencesAll opened ss, P o.statement) →
        ∀ x ∈ sitesAll around ss, P x.statement ∧ ∀ a ∈ x.around, P a
  | [] => by
    intro _
    simp [sitesAll]
  | s :: ss => by
    intro h
    rw [occurrencesAll, List.forall_mem_append] at h
    rw [sitesAll, List.forall_mem_append]
    exact ⟨forall_sites ha s h.1, forall_sitesAll ha ss h.2⟩

end

/-- The ids of the containers that some statements open. -/
def containerIds (around : List Statement) : List Id :=
  around.filterMap containerId?

lemma mem_containerIds {around : List Statement} {x : Id} :
    x ∈ containerIds around ↔ ∃ s ∈ around, s.containerId? = some x :=
  List.mem_filterMap

/-- Where ids do not repeat, one statement has a given id. -/
lemma filter_containerId {around : List Statement} (hn : (containerIds around).Nodup)
    {outer : Statement} (ho : outer ∈ around) {x : Id} (hx : outer.containerId? = some x) :
    around.filter (fun s => s.containerId? = some x) = [outer] := by
  induction around with
  | nil => cases ho
  | cons s around ih =>
    by_cases hs : s.containerId? = some x
    · have hsplit : x ∉ containerIds around ∧ (containerIds around).Nodup := by
        rw [containerIds, List.filterMap_cons_some hs, List.nodup_cons] at hn
        exact hn
      have hnone : around.filter (fun s => s.containerId? = some x) = [] := by
        rw [List.filter_eq_nil_iff]
        intro t ht htx
        exact hsplit.1 (mem_containerIds.mpr ⟨t, ht, of_decide_eq_true htx⟩)
      obtain rfl | ho := List.mem_cons.mp ho
      · rw [List.filter_cons_of_pos (by simpa using hs), hnone]
      · exact absurd (mem_containerIds.mpr ⟨outer, ho, hx⟩) hsplit.1
    · have ho : outer ∈ around := by
        obtain rfl | ho := List.mem_cons.mp ho
        · exact absurd hx hs
        · exact ho
      have hn : (containerIds around).Nodup := by
        refine hn.sublist ?_
        exact (List.sublist_cons_self s around).filterMap _
      rw [List.filter_cons_of_neg (by simpa using hs)]
      exact ih hn ho

end Statement

namespace Site
open Statement

/-- The statement declares a container inside one with the same id. -/
def IsSelfNested (x : Site) : Prop :=
  ∃ id, x.statement.containerId? = some id ∧ id ∈ containerIds x.around

/-- The fault names the id of the statement and the only statement around it with that id. -/
def Refused (x : Site) (fault : NestingFault) : Prop :=
  ∃ span id ps body outer, x.statement = .container span id ps body ∧
    x.around.filter (fun s => s.containerId? = some id.value) = [outer] ∧
    fault = .selfNested id outer.span

lemma Refused.isSelfNested {x : Site} {fault : NestingFault} (h : x.Refused fault) :
    x.IsSelfNested := by
  obtain ⟨span, id, ps, body, outer, hs, hfilter, -⟩ := h
  have ho : outer ∈ x.around.filter fun s => s.containerId? = some id.value := by
    rw [hfilter]
    exact List.mem_singleton_self outer
  obtain ⟨ho, hid⟩ := List.mem_filter.mp ho
  refine ⟨id.value, ?_, mem_containerIds.mpr ⟨outer, ho, of_decide_eq_true hid⟩⟩
  rw [hs]
  rfl

/-- The first of the sites that stands in itself is refused. -/
def FirstRefused (xs : List Site) (fault : NestingFault) : Prop :=
  ∃ before x after, xs = before ++ x :: after ∧ (∀ y ∈ before, ¬ y.IsSelfNested) ∧ x.Refused fault

lemma FirstRefused.append {xs : List Site} {fault : NestingFault} (h : FirstRefused xs fault)
    (ys : List Site) : FirstRefused (xs ++ ys) fault := by
  obtain ⟨before, x, after, rfl, hbefore, hx⟩ := h
  exact ⟨before, x, after ++ ys, by simp, hbefore, hx⟩

lemma FirstRefused.prepend {ys : List Site} {fault : NestingFault} (h : FirstRefused ys fault)
    {xs : List Site} (hxs : ∀ x ∈ xs, ¬ x.IsSelfNested) : FirstRefused (xs ++ ys) fault := by
  obtain ⟨before, x, after, rfl, hbefore, hx⟩ := h
  refine ⟨xs ++ before, x, after, by simp, ?_, hx⟩
  intro y hy
  obtain hy | hy := List.mem_append.mp hy
  · exact hxs y hy
  · exact hbefore y hy

end Site

namespace Draft
open Statement Site

/-- The containers that are open have different ids, and the draft holds each of them as its
statement declares it. -/
structure Recalls (d : Draft) (around : List Statement) : Prop where
  nodup : (containerIds around).Nodup
  stored : ∀ s ∈ around, ∀ x, s.containerId? = some x →
    ∃ c, d.containers.get? x = some c ∧ c.id = x ∧ c.span = s.span

/-- How placing the statements `xs` can end: none of them stands in itself, and what is open is
still recalled, or the first that does is refused. -/
def Settles (around : List Statement) (xs : List Site) : Except NestingFault Draft → Prop
  | .ok e => e.Recalls around ∧ ∀ x ∈ xs, ¬ x.IsSelfNested
  | .error fault => FirstRefused xs fault

variable {d e : Draft} {around : List Statement}

lemma Recalls.registers (h : d.Recalls around) : d.Registers (containerIds around) := by
  intro x hx
  obtain ⟨s, hs, hid⟩ := mem_containerIds.mp hx
  obtain ⟨c, hc, hcid, -⟩ := h.stored s hs x hid
  exact ⟨c, hc, hcid⟩

/-- Only the id and the place of open containers matter. -/
lemma Recalls.mono (h : d.Recalls around)
    (he : ∀ x ∈ containerIds around, ∀ c, d.containers.get? x = some c →
      ∃ c', e.containers.get? x = some c' ∧ c'.id = c.id ∧ c'.span = c.span) :
    e.Recalls around where
  nodup := h.nodup
  stored s hs x hx := by
    obtain ⟨c, hc, hid, hspan⟩ := h.stored s hs x hx
    obtain ⟨c', hc', hid', hspan'⟩ := he x (mem_containerIds.mpr ⟨s, hs, hx⟩) c hc
    exact ⟨c', hc', hid'.trans hid, hspan'.trans hspan⟩

/-- The end of a block leaves the containers around it open. -/
lemma Recalls.close {s : Statement} (h : d.Recalls (s :: around)) : d.Recalls around where
  nodup := h.nodup.sublist ((List.sublist_cons_self s around).filterMap _)
  stored t ht := h.stored t (List.mem_cons_of_mem s ht)

lemma Settles.close {s : Statement} {xs : List Site} {r : Except NestingFault Draft}
    (h : Settles (s :: around) xs r) : Settles around xs r := by
  cases r with
  | error fault => exact h
  | ok e => exact ⟨h.1.close, h.2⟩

lemma settles_bind {around' : List Statement} {xs ys : List Site} {r : Except NestingFault Draft}
    {f : Draft → Except NestingFault Draft} (hr : Settles around xs r)
    (hf : ∀ e : Draft, e.Recalls around → Settles around' ys (f e)) :
    Settles around' (xs ++ ys) (r.bind f) := by
  cases r with
  | error fault => exact FirstRefused.append hr ys
  | ok e =>
    obtain ⟨he, hxs⟩ := hr
    have hfe := hf e he
    change Settles around' (xs ++ ys) (f e)
    cases hy : f e with
    | error fault =>
      rw [hy] at hfe
      exact FirstRefused.prepend hfe hxs
    | ok e' =>
      rw [hy] at hfe
      refine ⟨hfe.1, ?_⟩
      intro x hx
      obtain hx | hx := List.mem_append.mp hx
      · exact hxs x hx
      · exact hfe.2 x hx

/-- A statement that is no container does not stand in itself. -/
lemma settles_plain {s : Statement} (hs : s.containerId? = none) (he : e.Recalls around) :
    Settles around (s.sites around) (.ok e) := by
  refine ⟨he, ?_⟩
  intro x hx
  rw [sites_of_containerId? hs] at hx
  obtain rfl := List.mem_singleton.mp hx
  rintro ⟨id, hid, -⟩
  rw [hs] at hid
  cases hid

lemma get?_regroup_kept {x : Id} {c : Container} (hc : d.containers.get? x = some c) (id : Id)
    (old new : Option Id) :
    ∃ c', (d.regroup id old new).get? x = some c' ∧ c'.id = c.id ∧ c'.span = c.span := by
  rw [get?_regroup, hc]
  exact ⟨_, rfl, rfl, rfl⟩

lemma settles_addComponent (h : d.Recalls around) (span : Span) (id : Located Id)
    (ps : List Property) : Settles around (sites around (.component span id ps))
      (d.addComponent (containerIds around) id.value ps span).outcome := by
  rw [outcome_addComponent h.registers]
  refine settles_plain rfl (h.mono ?_)
  intro x _ c hc
  exact get?_regroup_kept hc _ _ _

lemma settles_atTop (h : d.Recalls around) {s : Statement} (hs : s.containerId? = none)
    {keyword : Keyword} {span : Span} {added : Logged Draft}
    (ha : added.value.containers = d.containers) : Settles around (s.sites around)
      (d.atTop (containerIds around) keyword span added).outcome := by
  rw [outcome_atTop]
  refine settles_plain hs (h.mono ?_)
  intro x _ c hc
  split_ifs
  · exact ⟨c, by rw [ha, hc], rfl, rfl⟩
  · exact ⟨c, hc, rfl, rfl⟩

/-- A container is refused inside a namesake, which the draft holds as it stands around; otherwise
it is registered as its statement declares it. -/
lemma settles_addContainer (h : d.Recalls around) (span : Span) (id : Located Id)
    (ps : List Property) (body : List Statement) :
    Settles (.container span id ps body :: around) [⟨around, .container span id ps body⟩]
      (d.addContainer (containerIds around) id ps span).outcome := by
  rw [outcome_addContainer h.registers]
  by_cases hid : id.value ∈ containerIds around
  · obtain ⟨outer, ho, hoid⟩ := mem_containerIds.mp hid
    obtain ⟨c, hc, -, hspan⟩ := h.stored outer ho id.value hoid
    have henclosing : d.enclosing? (containerIds around) id.value = some c := by
      rw [enclosing?, if_pos hid, hc]
    rw [henclosing]
    refine ⟨[], _, [], rfl, by simp, span, id, ps, body, outer, rfl, ?_, ?_⟩
    · exact filter_containerId h.nodup ho hoid
    · rw [hspan]
  · rw [(enclosing?_eq_none_iff h.registers).mpr hid]
    refine ⟨⟨List.nodup_cons.mpr ⟨hid, h.nodup⟩, ?_⟩, ?_⟩
    · intro s hs x hx
      obtain rfl | hs := List.mem_cons.mp hs
      · obtain rfl := Option.some.inj hx
        exact ⟨_, OrderedMap.get?_insert_self _ _ _, rfl, rfl⟩
      · obtain ⟨c, hc, hcid, hspan⟩ := h.stored s hs x hx
        obtain ⟨c', hc', hid', hspan'⟩ := get?_regroup_kept hc id.value
          ((d.containers.get? id.value).bind fun c => c.parent) (containerIds around).head?
        have hne : x ≠ id.value := by
          rintro rfl
          exact hid (mem_containerIds.mpr ⟨s, hs, hx⟩)
        refine ⟨c', ?_, hid'.trans hcid, hspan'.trans hspan⟩
        rw [OrderedMap.get?_insert, if_neg hne, hc']
    · intro x hx
      obtain rfl := List.mem_singleton.mp hx
      rintro ⟨y, hy, hmem⟩
      obtain rfl := Option.some.inj hy
      exact hid hmem

mutual

theorem settles_place {d : Draft} {around : List Statement} (h : d.Recalls around) :
    ∀ s : Statement, Settles around (s.sites around) (d.place (containerIds around) s).outcome
  | .component span id ps => by
    rw [place]
    exact settles_addComponent h span id ps
  | .container span id ps body => by
    rw [place, sites, Attempt.outcome_bind]
    have hbody := settles_bind (settles_addContainer h span id ps body)
      fun e he => settles_placeAll (d := e) he body
    exact hbody.close
  | .layout .. | .style .. | .relation .. | .note .. => by
    rw [place]
    exact settles_atTop h rfl rfl

theorem settles_placeAll {d : Draft} {around : List Statement} (h : d.Recalls around) :
    ∀ ss : List Statement,
      Settles around (sitesAll around ss) (placeAll (containerIds around) d ss).outcome
  | [] => by
    rw [placeAll, sitesAll]
    exact ⟨h, by simp⟩
  | s :: ss => by
    rw [placeAll, sitesAll, Attempt.outcome_bind]
    exact settles_bind (settles_place h s) fun e he => settles_placeAll he ss

end

lemma recalls_empty : Draft.empty.Recalls [] where
  nodup := List.nodup_nil
  stored s hs := by cases hs

end Draft

lemma buildDiagram_eq_error_iff {ss : List Statement} {fault : NestingFault} :
    (buildDiagram ss).outcome = .error fault ↔
      (Draft.placeAll [] .empty ss).outcome = .error fault := by
  simp only [buildDiagram, Attempt.outcome_bind, Attempt.outcome_lift, Attempt.outcome_pure]
  cases (Draft.placeAll [] .empty ss).outcome with
  | error fault => simp [Except.bind]
  | ok d => simp [Except.bind]

/-- The primary label is the id of the statement, and the other one is the only statement around it
with that id. -/
def Site.LabelledBy (x : Site) (d : Diagnostic) : Prop :=
  ∃ span id ps body outer, x.statement = .container span id ps body ∧
    x.around.filter (fun s => s.containerId? = some id.value) = [outer] ∧
    d.labels = [⟨id.span, "nested declaration", true⟩,
      ⟨outer.span, "enclosing container declared here", false⟩]

/-- Building fails exactly if some container statement stands inside one with the same id, and the
diagnostic points at the first such statement. -/
theorem buildDiagram_refuses_selfNested (ss : List Statement) :
    ((∃ fault, (buildDiagram ss).outcome = .error fault) ↔
      ∃ x ∈ Statement.sitesAll [] ss, x.IsSelfNested) ∧
    ∀ fault, (buildDiagram ss).outcome = .error fault →
      fault.diagnostic.code = some .selfNested ∧
      ∃ before x after, Statement.sitesAll [] ss = before ++ x :: after ∧
        (∀ y ∈ before, ¬ y.IsSelfNested) ∧ x.LabelledBy fault.diagnostic := by
  have hsettles := Draft.settles_placeAll Draft.recalls_empty ss
  change Draft.Settles [] _ (Draft.placeAll [] .empty ss).outcome at hsettles
  simp only [buildDiagram_eq_error_iff]
  cases hrun : (Draft.placeAll [] .empty ss).outcome with
  | ok d =>
    rw [hrun] at hsettles
    simpa using hsettles.2
  | error fault =>
    rw [hrun] at hsettles
    obtain ⟨before, x, after, hsites, hbefore, hx⟩ := hsettles
    have hmem : x ∈ Statement.sitesAll [] ss := by
      rw [hsites]
      simp
    refine ⟨⟨fun _ => ⟨x, hmem, hx.isSelfNested⟩, fun _ => ⟨fault, rfl⟩⟩, ?_⟩
    intro fault' hfault
    obtain rfl := Except.error.inj hfault
    obtain ⟨span, id, ps, body, outer, hs, hfilter, rfl⟩ := hx
    exact ⟨rfl, before, x, after, hsites, hbefore, span, id, ps, body, outer, hs, hfilter, rfl⟩

/-- The container `a` is declared at top level, again in `b`, and then inside itself: the second of
its declarations stands around the third. -/
def renestedSource : String :=
  "container a { } container b { container a { container c { container a { } } } }"

theorem refuses_selfNested_of_renested : ∃ ss fault,
    (parseStatements (tokenize renestedSource)).outcome = .ok ss ∧
    (buildDiagram ss).outcome = .error fault ∧
    fault.diagnostic.labels.map Label.span = [⟨68, 69⟩, ⟨30, 77⟩] ∧
    ∃ before x after, Statement.sitesAll [] ss = before ++ x :: after ∧
      (∀ y ∈ before, ¬ y.IsSelfNested) ∧ x.LabelledBy fault.diagnostic := by
  have hrun : (parseStatements (tokenize renestedSource)).outcome.toOption.any (fun ss =>
      (buildDiagram ss).outcome.map (fun _ => ()) =
        .error (.selfNested ⟨"a", ⟨68, 69⟩⟩ ⟨30, 77⟩)) = true := by
    decide +kernel
  obtain ⟨ss, hss, hbuild⟩ := Attempt.exists_eq_ok hrun
  have hfault := Attempt.outcome_eq_error (of_decide_eq_true hbuild)
  exact ⟨ss, _, hss, hfault, rfl, ((buildDiagram_refuses_selfNested ss).2 _ hfault).2⟩

end ArchDiagram
