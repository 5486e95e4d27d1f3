import ArchDiagram.FileTree
import ArchDiagram.Proofs.OrderedMap

/-! Files after one of them was written. The path that was written leads to the new content, because
the directories on its way are still there, and no other file changes. -/
namespace ArchDiagram
namespace FileTree

/-- The place of the file that a path names. -/
def target (t : FileTree) (path : String) : Except FileFault Location := do
  let r ← Route.ofPath path
  let place ← t.directory r
  match r.target with
  | none => .error .isDirectory
  | some name => if r.closed then .error .isDirectory else .ok (place ++ [name])

/-- The tree with a file put at a place. -/
def put (t : FileTree) (place : Location) (f : File) : FileTree :=
  ⟨t.entries.insert place (.file f)⟩

lemma get?_put (t : FileTree) (place : Location) (f : File) (other : Location) :
    (t.put place f).entries.get? other =
      if other = place then some (.file f) else t.entries.get? other :=
  OrderedMap.get?_insert _ _ _ _

/-- What a name leads to: whether it can stand for anything, for a file, or for a directory. -/
lemma find_eq_directory_iff {t : FileTree} {place : Location} {name : String} :
    t.find place name = .directory ↔ Route.isLong name = false ∧
      (t.entries.get? (place ++ [name]) = some .directory ∨
        t.entries.get? (place ++ [name]) = none ∧ t.isOccupied (place ++ [name]) = true) := by
  rw [find]
  by_cases hlong : Route.isLong name = true
  · simp [hlong]
  · cases t.entries.get? (place ++ [name]) with
    | some entry => cases entry <;> simp [hlong, Entry.found]
    | none => by_cases hd : t.isOccupied (place ++ [name]) = true <;> simp [hlong, hd]

lemma isOccupied_put {t : FileTree} {place : Location} (f : File) {p : Location}
    (h : t.isOccupied p = true) : (t.put place f).isOccupied p = true := by
  rw [isOccupied, Bool.or_eq_true, List.any_eq_true] at h ⊢
  obtain h | ⟨key, hkey, h⟩ := h
  · exact .inl h
  · refine .inr ⟨key, ?_, h⟩
    rw [put, OrderedMap.keys_insert]
    split_ifs
    · exact hkey
    · exact List.mem_append_left _ hkey

section Put

variable {t : FileTree} {place : Location} {name : String} (f : File)
  (hfree : t.find place name ≠ .directory)

include hfree

/-- A file takes the place of no directory. -/
lemma find_put_of_directory {p : Location} {n : String} (h : t.find p n = .directory) :
    (t.put (place ++ [name]) f).find p n = .directory := by
  have hne : p ++ [n] ≠ place ++ [name] := by
    intro heq
    obtain ⟨rfl, hn⟩ := List.append_inj' heq rfl
    obtain rfl : n = name := List.cons.inj hn |>.1
    exact hfree h
  rw [find_eq_directory_iff] at h ⊢
  rw [get?_put, if_neg hne]
  exact ⟨h.1, h.2.imp_right fun hd => ⟨hd.1, isOccupied_put f hd.2⟩⟩

/-- What could be reached through directories still can. -/
lemma follow_put {p q : Location} {names : List String} (h : t.follow p names = .ok q) :
    (t.put (place ++ [name]) f).follow p names = .ok q := by
  induction names generalizing p with
  | nil => exact h
  | cons n names ih =>
    rw [follow] at h ⊢
    split_ifs at h ⊢ with hdots
    · exact ih h
    · cases hfind : t.find p n with
      | file c =>
        rw [hfind] at h
        cases h
      | absent fault =>
        rw [hfind] at h
        cases h
      | directory =>
        rw [hfind] at h
        rw [find_put_of_directory f hfree hfind]
        exact ih h

end Put

/-- A file that is written holds what was written. -/
lemma content_of_rewrite {l : Lookup} {content : ByteArray} {f : File}
    (h : l.rewrite content = .ok f) : f.content = content := by
  cases l with
  | absent fault =>
    cases fault <;> cases h
    rfl
  | directory => cases h
  | file g =>
    rw [Lookup.rewrite, File.rewrite] at h
    split at h
    · cases h
    · exact (Except.ok.inj h) ▸ rfl

/-- A file is written in a directory that is there, and takes the place of no directory. -/
lemma write_eq_ok {t t' : FileTree} {path : String} {content : ByteArray}
    (h : t.write path content = .ok t') : ∃ r place name f, Route.ofPath path = .ok r ∧
      t.directory r = .ok place ∧ r.target = some name ∧ r.closed = false ∧
      (t.find place name).rewrite content = .ok f ∧ t' = t.put (place ++ [name]) f := by
  rw [write] at h
  cases hr : Route.ofPath path with
  | error fault =>
    rw [hr] at h
    cases h
  | ok r =>
    cases hplace : t.directory r with
    | error fault =>
      simp only [hr, bind, Except.bind, hplace] at h
      cases h
    | ok place =>
      simp only [hr, bind, Except.bind, hplace] at h
      cases hname : r.target with
      | none =>
        rw [hname] at h
        cases h
      | some name =>
        simp only [hname] at h
        split_ifs at h with hclosed
        cases hf : (t.find place name).rewrite content with
        | error fault =>
          rw [hf] at h
          cases h
        | ok f =>
          rw [hf] at h
          exact ⟨r, place, name, f, rfl, hplace, hname, by simpa using hclosed, hf,
            (Except.ok.inj h).symm⟩

/-- A path that is written leads to the file that was written in place of what it led to. -/
theorem lookup_of_write {t t' : FileTree} {path : String} {content : ByteArray}
    (h : t.write path content = .ok t') : ∃ place f, t.target path = .ok place ∧
      (t.lookup path).rewrite content = .ok f ∧ t' = t.put place f ∧ t'.lookup path = .file f := by
  obtain ⟨r, place, name, f, hr, hplace, hname, hclosed, hf, rfl⟩ := write_eq_ok h
  have hfree : t.find place name ≠ .directory := by
    intro hd
    rw [hd] at hf
    cases hf
  have hlong : Route.isLong name = false := by
    rw [Bool.eq_false_iff]
    intro hlong
    rw [find, if_pos hlong] at hf
    cases hf
  have hplace' : (t.put (place ++ [name]) f).directory r = .ok place := follow_put f hfree hplace
  have hfind : (t.put (place ++ [name]) f).find place name = .file f := by
    simp [find, hlong, get?_put, Entry.found]
  refine ⟨place ++ [name], f, ?_, ?_, rfl, ?_⟩
  · simp only [target, hr, bind, Except.bind, hplace, hname, hclosed]
    rfl
  · rw [← hf]
    simp only [lookup, hr, bind, Except.bind, hplace, hname, hclosed]
    cases t.find place name <;> rfl
  · simp only [lookup, hr, bind, Except.bind, hplace', hname, hfind, hclosed]
    rfl

end FileTree
end ArchDiagram
