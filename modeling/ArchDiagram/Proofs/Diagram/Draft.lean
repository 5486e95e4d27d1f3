import ArchDiagram.Proofs.OrderedMap
import ArchDiagram.Proofs.Statement.Occurrence

/-! What adding an entity does to a draft, as an equation. The containers that are open are taken
to be registered under their own ids, as they are wherever a document leads. -/
namespace ArchDiagram

@[simp] theorem Attempt.outcome_liftExcept {ε α : Type} (x : Except ε α) :
    (liftExcept x : Attempt ε α).outcome = x := by
  cases x <;> rfl

namespace Draft

/-- Every open container is stored under its own id. -/
def Registers (d : Draft) (opened : List Id) : Prop :=
  ∀ p ∈ opened, ∃ c, d.containers.get? p = some c ∧ c.id = p

/-- The containers after an entity moved from the list of one to the end of the list of another. -/
def regroup (d : Draft) (id : Id) (old new : Option Id) : OrderedMap Id Container :=
  let left := old.elim d.containers fun p => d.containers.modify p (·.remove id)
  new.elim left fun p => left.modify p (·.push id)

/-- The children of a container after an entity left and joined it. -/
def relist (id : Id) (leaves joins : Bool) (children : List Id) : List Id :=
  (if leaves then children.filter (· != id) else children) ++ (if joins then [id] else [])

lemma get?_elim_modify (m : OrderedMap Id Container) (k : Option Id) (f : Container → Container)
    (c : Id) : (k.elim m fun p => m.modify p f).get? c =
      (m.get? c).map fun v => if k = some c then f v else v := by
  cases k with
  | none => simp
  | some p => simp [OrderedMap.get?_modify, eq_comm]

theorem get?_regroup (d : Draft) (id : Id) (old new : Option Id) (c : Id) :
    (d.regroup id old new).get? c = (d.containers.get? c).map fun k =>
      { k with children := relist id (old = some c) (new = some c) k.children } := by
  rw [regroup, get?_elim_modify, get?_elim_modify, Option.map_map]
  congr 1
  funext k
  by_cases ho : old = some c <;> by_cases hn : new = some c <;>
    simp [ho, hn, relist, Container.push, Container.remove]

theorem get?_regroup_of_ne {d : Draft} {id : Id} {old new : Option Id} {c : Id}
    (ho : old ≠ some c) (hn : new ≠ some c) :
    (d.regroup id old new).get? c = d.containers.get? c := by
  rw [get?_regroup]
  simp [ho, hn, relist]

theorem value_detach (d : Draft) (id : Id) (parent : Option Id) :
    (d.detach id parent).value =
      { d with containers := d.regroup id parent none } := by
  cases parent <;> rfl

theorem attach_regroup {d : Draft} {opened : List Id} (h : d.Registers opened) (id : Id)
    (old : Option Id) (span : Span) :
    attach { d with containers := d.regroup id old none } opened id span =
      .ok ({ d with containers := d.regroup id old opened.head? }, opened.head?) := by
  cases opened with
  | nil => rfl
  | cons p opened =>
    obtain ⟨c, hc, hid⟩ := h p (by simp)
    have hp : (d.regroup id old none).get? p =
        some { c with children := relist id (old = some p) false c.children } := by
      rw [get?_regroup, hc]
      rfl
    simp only [attach, hp, List.head?_cons]
    rw [hid]
    rfl

theorem outcome_addComponent {d : Draft} {opened : List Id} (h : d.Registers opened) (id : Id)
    (ps : List Property) (span : Span) :
    (d.addComponent opened id ps span).outcome = .ok { d with
      components := d.components.insert id
        ⟨(Traits.ofProperties .component ps).value.toEntity id opened.head? span⟩
      containers := d.regroup id ((d.components.get? id).bind fun c => c.parent) opened.head? } := by
  simp only [addComponent, Attempt.outcome_bind, Attempt.outcome_lift, value_detach,
    Attempt.outcome_liftExcept, Except.bind, attach_regroup h, Attempt.outcome_pure]

/-- Inside containers that are registered, only a container around itself is refused. -/
theorem outcome_addContainer {d : Draft} {opened : List Id} (h : d.Registers opened)
    (id : Located Id) (ps : List Property) (span : Span) :
    (d.addContainer opened id ps span).outcome =
      match d.enclosing? opened id.value with
      | some outer => .error (.selfNested id outer.span)
      | none => .ok { d with
          containers := (d.regroup id.value ((d.containers.get? id.value).bind fun c => c.parent)
            opened.head?).insert id.value
            ⟨(Traits.ofProperties .container ps).value.toEntity id.value opened.head? span,
              (d.containers.get? id.value).elim [] Container.children⟩ } := by
  rw [addContainer]
  cases d.enclosing? opened id.value with
  | some outer => rfl
  | none =>
    simp only [Attempt.outcome_bind, Attempt.outcome_lift, value_detach,
      Attempt.outcome_liftExcept, Except.bind, attach_regroup h, Attempt.outcome_pure]

/-- An id is refused exactly inside a container that has it. -/
theorem enclosing?_eq_none_iff {d : Draft} {opened : List Id} (h : d.Registers opened) {id : Id} :
    d.enclosing? opened id = none ↔ id ∉ opened := by
  rw [enclosing?]
  split_ifs with hid
  · obtain ⟨c, hc, -⟩ := h id hid
    simp [hc, hid]
  · simp [hid]

theorem outcome_atTop (d : Draft) (opened : List Id) (keyword : Keyword) (span : Span)
    (added : Logged Draft) :
    (d.atTop opened keyword span added).outcome =
      .ok (if opened.isEmpty then added.value else d) := by
  rw [atTop]
  split_ifs
  · rfl
  · rfl

end Draft

theorem Style.name_set (s : Style) (a : Attribute) : (s.set a).value.name = s.name := by
  simp only [Style.set]
  split_ifs
  · rfl
  · rfl
  · rfl
  · cases Shape.ofName? a.value.value <;> rfl
  · rfl

theorem Style.name_foldlM_set (s : Style) (as : List Attribute) :
    (as.foldlM Style.set s).value.name = s.name := by
  induction as generalizing s with
  | nil => rfl
  | cons a as ih => rw [List.foldlM_cons, Logged.value_bind, ih, name_set]

theorem Note.target_set (n : Note) (p : Property) : (n.set p).target = n.target := by
  rw [Note.set]
  cases p.field.value <;> rfl

theorem Note.target_foldl_set (n : Note) (ps : List Property) :
    (ps.foldl Note.set n).target = n.target := by
  induction ps generalizing n with
  | nil => rfl
  | cons p ps ih => rw [List.foldl_cons, ih, target_set]

end ArchDiagram
