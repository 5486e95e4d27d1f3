import ArchDiagram.Workbench
import ArchDiagram.Proofs.Json
import ArchDiagram.Proofs.Diagram.Unplaced

/-! What the JSON text of a diagram tells of it: everything but the places of its declarations. Each
part is compared on its own, as a JSON value; the texts follow, since a text determines its value. -/
namespace ArchDiagram

@[simp] lemma Direction.name_inj {a b : Direction} : a.name = b.name ↔ a = b := by
  refine ⟨fun h => Option.some.inj ?_, congrArg name⟩
  rw [← ofName?_name a, h, ofName?_name]

@[simp] lemma Shape.name_inj {a b : Shape} : a.name = b.name ↔ a = b := by
  refine ⟨fun h => Option.some.inj ?_, congrArg name⟩
  rw [← ofName?_name a, h, ofName?_name]

@[simp] lemma Json.ofOption_inj {a b : Option String} : ofOption a = ofOption b ↔ a = b := by
  cases a <;> cases b <;> simp [ofOption]

@[simp] lemma Size.toJson_inj {a b : Size} : a.toJson = b.toJson ↔ a = b := by
  cases a
  cases b
  simp [toJson]

@[simp] lemma Layout.toJson_inj {a b : Layout} : a.toJson = b.toJson ↔ a = b := by
  cases a
  cases b
  simp [toJson]

lemma OrderedMap.toJson_inj {β : Type} {f : β → Json} (hf : ∀ {a b}, f a = f b ↔ a = b)
    {m n : OrderedMap Id β} : m.toJson f = n.toJson f ↔ m = n := by
  have hentry (a b : Id × β) : (a.1, f a.2) = (b.1, f b.2) → a = b := by
    rw [Prod.mk.injEq, hf]
    exact fun h => Prod.ext h.1 h.2
  rw [toJson, toJson, Json.object.injEq, List.map_inj_right hentry, OrderedMap.ext_iff]

@[simp] lemma Style.toJson_inj {a b : Style} : a.toJson = b.toJson ↔ a = b := by
  cases a
  cases b
  simp [toJson, OrderedMap.toJson_inj]

/-- Parts with places leave the place out and nothing else. -/
lemma Component.toJson_eq_iff (a b : Component) : a.toJson = b.toJson ↔ a.unplaced = b.unplaced := by
  simp [toJson, unplaced, Entity.unplaced]

lemma Container.toJson_eq_iff (a b : Container) : a.toJson = b.toJson ↔ a.unplaced = b.unplaced := by
  have hchildren : a.children.map Json.string = b.children.map Json.string ↔
      a.children = b.children :=
    List.map_inj_right fun _ _ => Json.string.inj
  simp [toJson, unplaced, Entity.unplaced, hchildren, and_comm, and_left_comm]

lemma Relation.toJson_eq_iff (a b : Relation) : a.toJson = b.toJson ↔ a.unplaced = b.unplaced := by
  simp [toJson, unplaced]

lemma Note.toJson_eq_iff (a b : Note) : a.toJson = b.toJson ↔ a.unplaced = b.unplaced := by
  simp [toJson, unplaced]

/-- Lists compare alike under functions that compare alike. -/
lemma map_eq_map_iff_of_iff {α β γ : Type} {f : α → β} {g : α → γ}
    (h : ∀ a b, f a = f b ↔ g a = g b) (xs ys : List α) :
    xs.map f = ys.map f ↔ xs.map g = ys.map g := by
  induction xs generalizing ys with
  | nil => cases ys <;> simp
  | cons x xs ih => cases ys <;> simp [h, ih]

lemma OrderedMap.toJson_eq_iff {β γ : Type} {f : β → Json} {g : β → γ}
    (h : ∀ a b, f a = f b ↔ g a = g b) (m n : OrderedMap Id β) :
    m.toJson f = n.toJson f ↔ m.map g = n.map g := by
  rw [toJson, toJson, Json.object.injEq, OrderedMap.ext_iff]
  exact map_eq_map_iff_of_iff (fun a b => by simp [h]) m.entries n.entries

lemma Diagram.toJson_eq_iff (d e : Diagram) : d.toJson = e.toJson ↔ d.unplaced = e.unplaced := by
  simp [toJson, unplaced, OrderedMap.toJson_inj, OrderedMap.toJson_eq_iff Component.toJson_eq_iff,
    OrderedMap.toJson_eq_iff Container.toJson_eq_iff, OrderedMap.toJson_eq_iff Note.toJson_eq_iff,
    map_eq_map_iff_of_iff Relation.toJson_eq_iff]

/-- Two diagrams have the same text, spread over lines or not, exactly when they agree in everything
but the places of their declarations; the order of their maps counts. -/
theorem Workbench.toJson_eq_toJson_iff (w : Workbench) (d e : Diagram) :
    w.toJson d = w.toJson e ↔ d.unplaced = e.unplaced := by
  rw [← Diagram.toJson_eq_iff]
  exact (Json.text_injective _).eq_iff

end ArchDiagram
