/-
A frame is a table from names to values.  Its entries are kept in the byte order of
their names, each name once, so two frames with the same bindings are equal however
the bindings came about.
-/
import Stepwise.Value

namespace Stepwise

structure Frame where
  entries : List (Text × Value)
  sorted : entries.Pairwise fun a b => a.1 < b.1

namespace Frame

/-- Puts a binding in its place, in the stead of an older one for the same name. -/
def insertEntry (name : Text) (v : Value) : List (Text × Value) → List (Text × Value)
  | [] => [(name, v)]
  | (k, w) :: rest =>
    if name < k then (name, v) :: (k, w) :: rest
    else if name = k then (name, v) :: rest
    else (k, w) :: insertEntry name v rest

theorem mem_insertEntry {name : Text} {v : Value} {entries : List (Text × Value)}
    {e : Text × Value} (h : e ∈ insertEntry name v entries) : e = (name, v) ∨ e ∈ entries := by
  induction entries with
  | nil => simpa [insertEntry] using h
  | cons kw rest ih =>
    obtain ⟨k, w⟩ := kw
    simp only [insertEntry] at h
    split at h
    · simpa using h
    · split at h
      · rcases List.mem_cons.1 h with h | h
        · exact .inl h
        · exact .inr (List.mem_cons_of_mem _ h)
      · rcases List.mem_cons.1 h with h | h
        · exact .inr (by simp [h])
        · exact (ih h).imp_right (List.mem_cons_of_mem _)

theorem insertEntry_sorted (name : Text) (v : Value) {entries : List (Text × Value)}
    (h : entries.Pairwise fun a b => a.1 < b.1) :
    (insertEntry name v entries).Pairwise fun a b => a.1 < b.1 := by
  induction entries with
  | nil => simp [insertEntry]
  | cons kw rest ih =>
    obtain ⟨k, w⟩ := kw
    obtain ⟨hk, hrest⟩ := List.pairwise_cons.1 h
    simp only [insertEntry]
    split
    · rename_i hlt
      refine List.pairwise_cons.2 ⟨fun e he => ?_, h⟩
      rcases List.mem_cons.1 he with rfl | he
      · exact hlt
      · exact List.lt_trans hlt (hk e he)
    · split
      · rename_i heq
        subst heq
        exact List.pairwise_cons.2 ⟨hk, hrest⟩
      · rename_i hlt hne
        refine List.pairwise_cons.2 ⟨fun e he => ?_, ih hrest⟩
        rcases mem_insertEntry he with rfl | he
        · exact (List.le_iff_lt_or_eq.1 (List.not_lt.1 hlt)).resolve_right (Ne.symm hne)
        · exact hk e he

def empty : Frame := { entries := [], sorted := .nil }

def set (f : Frame) (name : Text) (v : Value) : Frame :=
  { entries := insertEntry name v f.entries, sorted := insertEntry_sorted name v f.sorted }

def single (name : Text) (v : Value) : Frame := empty.set name v

/-- The value bound to a name. -/
def get? (f : Frame) (name : Text) : Option Value := f.entries.lookup name

/-- The bindings in braces, in the order of their names. -/
def text (f : Frame) : Text :=
  let bindings := f.entries.map fun (name, v) => name ++ ": " ++ v.text
  "\x7b" ++ Text.join ", " bindings ++ "\x7d"

end Frame
end Stepwise
