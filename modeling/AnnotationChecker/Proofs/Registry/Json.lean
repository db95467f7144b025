import AnnotationChecker.Registry.Json
import AnnotationChecker.Proofs.Json.Decoded
import AnnotationChecker.Proofs.Json.Written
/-!
# Registries are read back from their texts

The text of a registry, on one line or over several, describes that registry and no other, whatever is declared in it;
so it is loaded just when the registry is valid, and refused with its fault otherwise (`Registry.load_written`).
-/

namespace AnnotationChecker

open Json (Plain)

/-! ## Tables -/

namespace Table

variable {α : Type}

/-- An entry behind all others goes to the end. -/
theorem insertEntry_last {k : String} {v : α} {es : List (String × α)} (h : ∀ e ∈ es, e.1 < k) :
    insertEntry k v es = es ++ [(k, v)] := by
  induction es with
  | nil => rfl
  | cons e es ih =>
    have he : e.1 < k := h e (by simp)
    have hlt : ¬ k < e.1 := fun hk => String.lt_irrefl _ (String.lt_trans he hk)
    have hne : k ≠ e.1 := fun hk => String.lt_irrefl _ (hk ▸ he)
    rw [insertEntry, if_neg hlt, if_neg hne, ih fun x hx => h x (List.mem_cons_of_mem _ hx), List.cons_append]

theorem entries_insertAll {t : Table α} {es : List (String × α)}
    (h : (t.entries ++ es).Pairwise fun a b => a.1 < b.1) :
    (es.foldl (fun t e => t.insert e.1 e.2) t).entries = t.entries ++ es := by
  induction es generalizing t with
  | nil => simp
  | cons e es ih =>
    have hlast : (t.insert e.1 e.2).entries = t.entries ++ [e] :=
      insertEntry_last fun x hx => (List.pairwise_append.1 h).2.2 x hx e (by simp)
    rw [List.foldl_cons, ih (by rw [hlast, List.append_assoc]; exact h), hlast, List.append_assoc]
    rfl

/-- A table is the table of its entries. -/
theorem ofList_entries (t : Table α) : ofList t.entries = t := by
  obtain ⟨es, hes⟩ := t
  have h : (ofList es).entries = es := entries_insertAll (t := empty) hes
  cases hl : ofList es
  simp_all

variable {write : α → Json} {read : Json → Option α} {t : Table α}

/-- A table is decoded when its values are. -/
theorem ofJson?_toJson (h : ∀ e ∈ t.entries, read (write e.2) = some e.2) : ofJson? read (t.toJson write) = some t := by
  have hentries : (t.entries.map fun e => (e.1, write e.2)).mapM (fun m => (read m.2).map (m.1, ·)) = some t.entries :=
    Json.mapM_written fun e he => by simp [h e he]
  unfold ofJson? toJson
  simp [Json.object?, hentries, ofList_entries]

theorem plain_toJson {room : Nat} (h : ∀ e ∈ t.entries, Plain room (write e.2)) : Plain (room + 1) (t.toJson write) := by
  refine .object fun m hm => ?_
  obtain ⟨e, he, rfl⟩ := List.mem_map.1 hm
  exact h e he

end Table

/-! ## Specifications -/

theorem Json.strings?_strings (list : List String) : (Json.strings list).strings? = some list := by
  have h : (list.map Json.string).mapM Json.string? = some list := Json.mapM_written fun _ _ => rfl
  simp [Json.strings?, Json.strings, Json.array?, h]

theorem Variance.ofJson?_text (v : Variance) : ofJson? (.string v.text) = some v := by
  cases v <;> decide

namespace ContainerSpec

variable (s : ContainerSpec)

theorem ofJson?_toJson : ofJson? s.toJson = some s := by
  unfold ofJson? toJson
  simp [Json.closedRecord?, Json.object?, Json.keys, Json.occurOnce, Json.memberOr, Variance.ofJson?_text,
    Json.strings?_strings]

theorem plain_toJson (room : Nat) : Plain (room + 2) s.toJson := by
  refine .object fun m hm => ?_
  simp only [List.mem_cons, List.not_mem_nil, or_false] at hm
  obtain rfl | rfl := hm
  · exact .string _
  · refine .array fun v hv => ?_
    obtain ⟨b, -, rfl⟩ := List.mem_map.1 hv
    exact .string b

end ContainerSpec

/-! ## Registries -/

namespace Registry

variable (r : Registry)

/-- A registry is decoded from what is written for it: all fields are there, so none is that of the built-in one. -/
theorem ofJson?_toJson : ofJson? r.toJson = some r := by
  have hcontainers : Table.ofJson? ContainerSpec.ofJson? (r.containers.toJson ContainerSpec.toJson) = some r.containers :=
    Table.ofJson?_toJson fun e _ => ContainerSpec.ofJson?_toJson e.2
  have haliases : Table.ofJson? Json.string? (r.aliases.toJson .string) = some r.aliases :=
    Table.ofJson?_toJson fun _ _ => rfl
  unfold ofJson? toJson
  simp [Json.closedRecord?, Json.object?, Json.keys, Json.occurOnce, ofFields?, hcontainers, haliases, Json.string?]

theorem plain_toJson (room : Nat) : Plain (room + 4) r.toJson := by
  refine .object fun m hm => ?_
  simp only [List.mem_cons, List.not_mem_nil, or_false] at hm
  obtain rfl | rfl | rfl := hm
  · exact Table.plain_toJson fun e _ => ContainerSpec.plain_toJson e.2 room
  · exact Table.plain_toJson fun e _ => .string e.2
  · exact .string _

/-- **A registry survives its text.** The text of a registry, in either layout, describes just that registry; loading it
gives the registry when it is valid, and the fault that makes it invalid otherwise. -/
theorem load_written (l : Json.Layout) :
    parse? (String.ofList (r.toJson.write l 0)) = some r ∧
      load (String.ofList (r.toJson.write l 0)) =
        match r.validate with
        | .ok _ => .ok r
        | .error f => .error (.invalid f) := by
  have hplain : Plain Json.maxNesting r.toJson := r.plain_toJson 123
  have htext : Json.parse? (String.ofList (r.toJson.write l 0)) = some r.toJson := Json.whole?_written (hplain.reads 0)
  have hparse : parse? (String.ofList (r.toJson.write l 0)) = some r := by
    unfold parse?
    rw [htext]
    exact r.ofJson?_toJson
  refine ⟨hparse, ?_⟩
  cases hvalid : r.validate with
  | ok _ => simp only [load, hparse, hvalid]
  | error f => simp only [load, hparse, hvalid]

end Registry

end AnnotationChecker
