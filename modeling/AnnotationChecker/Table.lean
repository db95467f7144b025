/-!
# Tables with ascending keys

A table maps names to values and lists its entries by ascending name. Inserting changes what is found
under one name and nothing else (`get?_insert`).
-/

namespace AnnotationChecker

/-- A finite map from names, listed by ascending name. -/
structure Table (α : Type) where
  entries : List (String × α)
  ascending : entries.Pairwise fun a b => a.1 < b.1

namespace Table

variable {α : Type}

/-- No entries. -/
def empty : Table α := ⟨[], .nil⟩

/-- The value of a name. -/
def get? (t : Table α) (k : String) : Option α := (t.entries.find? fun e => e.1 == k).map (·.2)

/-- The names of a table, in ascending order. -/
def keys (t : Table α) : List String := t.entries.map (·.1)

/-- Puts an entry where it belongs in an ascending list. -/
def insertEntry (k : String) (v : α) : List (String × α) → List (String × α)
  | [] => [(k, v)]
  | e :: es =>
    if k < e.1 then (k, v) :: e :: es
    else if k = e.1 then (k, v) :: es
    else e :: insertEntry k v es

theorem fst_mem_of_mem_insertEntry {k : String} {v : α} {es : List (String × α)} {e : String × α}
    (h : e ∈ insertEntry k v es) : e.1 = k ∨ e ∈ es := by
  induction es with
  | nil => simp_all [insertEntry]
  | cons x es ih =>
    rw [insertEntry] at h
    split at h
    · simp only [List.mem_cons] at h ⊢
      rcases h with rfl | h <;> simp_all
    · split at h
      · simp only [List.mem_cons] at h ⊢
        rcases h with rfl | h <;> simp_all
      · simp only [List.mem_cons] at h ⊢
        rcases h with rfl | h
        · simp
        · rcases ih h with h | h <;> simp_all

theorem ascending_insertEntry {k : String} {v : α} {es : List (String × α)}
    (h : es.Pairwise fun a b => a.1 < b.1) : (insertEntry k v es).Pairwise fun a b => a.1 < b.1 := by
  induction es with
  | nil => simp [insertEntry]
  | cons x es ih =>
    have hx := List.pairwise_cons.1 h
    rw [insertEntry]
    split
    · next hlt =>
      refine List.pairwise_cons.2 ⟨fun e he => ?_, h⟩
      rcases List.mem_cons.1 he with rfl | he
      · exact hlt
      · exact String.lt_trans hlt (hx.1 e he)
    · next hlt =>
      split
      · next heq =>
        refine List.pairwise_cons.2 ⟨fun e he => ?_, hx.2⟩
        simpa [heq] using hx.1 e he
      · next hne =>
        refine List.pairwise_cons.2 ⟨fun e he => ?_, ih hx.2⟩
        rcases fst_mem_of_mem_insertEntry he with he | he
        · rw [he]
          apply String.not_le.1
          exact fun hle => hne (String.le_antisymm hle (String.not_lt.1 hlt))
        · exact hx.1 e he

/-- Maps a name to a value. -/
def insert (t : Table α) (k : String) (v : α) : Table α :=
  ⟨insertEntry k v t.entries, ascending_insertEntry t.ascending⟩

/-- The table of a list of entries; the last one of a name counts. -/
def ofList (es : List (String × α)) : Table α := es.foldl (fun t e => t.insert e.1 e.2) empty

@[simp] theorem get?_empty (k : String) : (empty : Table α).get? k = none := rfl

theorem find?_insertEntry (k name : String) (v : α) (es : List (String × α)) :
    ((insertEntry k v es).find? fun e => e.1 == name).map (·.2) =
      if k = name then some v else (es.find? fun e => e.1 == name).map (·.2) := by
  induction es with
  | nil => by_cases h : k = name <;> simp [insertEntry, h]
  | cons x es ih =>
    rw [insertEntry]
    split
    · by_cases h : k = name <;> simp [h]
    · split
      · next h => subst h; by_cases h : x.1 = name <;> simp [h]
      · next h =>
        by_cases hx : x.1 = name
        · subst hx; simp [h]
        · simp only [beq_iff_eq, hx, not_false_eq_true, List.find?_cons_of_neg, ih]

theorem get?_insert (t : Table α) (k name : String) (v : α) :
    (t.insert k v).get? name = if k = name then some v else t.get? name :=
  find?_insertEntry k name v t.entries

end Table

end AnnotationChecker
