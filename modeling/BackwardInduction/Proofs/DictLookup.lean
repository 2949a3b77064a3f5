import Mathlib.Data.List.Nodup
import BackwardInduction.Dict

/-!
What look-up finds in a finite map. Keys are distinct, so that an entry and the
look-up of its key say the same; a map that is written from a list of distinct
keys has the entries of the list, in their order.
-/

namespace BackwardInduction
namespace Dict

variable {κ ν μ : Type}

theorem mem_keys (d : Dict κ ν) (k : κ) : k ∈ d.keys ↔ ∃ v, (k, v) ∈ d.entries := by
  simp [keys]

theorem nodup_keys (d : Dict κ ν) : d.keys.Nodup :=
  d.nodup

@[simp]
theorem entries_empty : (∅ : Dict κ ν).entries = [] :=
  rfl

@[simp]
theorem entries_mapValues (f : κ → ν → μ) (d : Dict κ ν) :
    (d.mapValues f).entries = d.entries.map fun e => (e.1, f e.1 e.2) :=
  rfl

section Search

variable [DecidableEq κ]

theorem lookup_cons_eq_ite (k k' : κ) (v : ν) (es : List (κ × ν)) :
    ((k', v) :: es).lookup k = if k = k' then some v else es.lookup k := by
  rw [List.lookup_cons]
  by_cases h : k = k'
  · simp [h]
  · simp [h, beq_eq_false_iff_ne.mpr h]

theorem lookup_eq_some_iff {es : List (κ × ν)} (h : (es.map Prod.fst).Nodup) (k : κ) (v : ν) :
    es.lookup k = some v ↔ (k, v) ∈ es := by
  induction es with
  | nil => simp
  | cons e es ih =>
      obtain ⟨k', v'⟩ := e
      simp only [List.map_cons, List.nodup_cons] at h
      rw [lookup_cons_eq_ite, List.mem_cons, Prod.mk.injEq]
      by_cases hk : k = k'
      · subst hk
        have absent : (k, v) ∉ es := fun hm => h.1 (List.mem_map_of_mem hm)
        simp [absent, eq_comm]
      · simp [hk, ih h.2]

theorem get?_eq_some_iff (d : Dict κ ν) (k : κ) (v : ν) :
    d.get? k = some v ↔ (k, v) ∈ d.entries :=
  lookup_eq_some_iff d.nodup k v

/-- The order of the entries makes no difference to a look-up. -/
theorem get?_of_perm {d e : Dict κ ν} (h : d.entries.Perm e.entries) (k : κ) :
    d.get? k = e.get? k := by
  refine Option.ext fun v => ?_
  rw [get?_eq_some_iff, get?_eq_some_iff, h.mem_iff]

theorem getD_of_mem {d : Dict κ ν} {k : κ} {v : ν} (h : (k, v) ∈ d.entries) (default : ν) :
    d.getD k default = v := by
  rw [getD, (d.get?_eq_some_iff k v).mpr h, Option.getD_some]

/-- A look-up with a default finds a value of the map, or falls back on the default. -/
theorem getD_cases (d : Dict κ ν) (k : κ) (default : ν) :
    (k, d.getD k default) ∈ d.entries ∨ d.getD k default = default := by
  cases h : d.get? k with
  | none => exact .inr (by rw [getD, h, Option.getD_none])
  | some v =>
      have hm := (d.get?_eq_some_iff k v).mp h
      exact .inl (by rwa [getD_of_mem hm])

theorem getD_of_not_mem {d : Dict κ ν} {k : κ} (h : k ∉ d.keys) (default : ν) :
    d.getD k default = default :=
  (d.getD_cases k default).resolve_left fun hm => h (List.mem_map_of_mem hm)

theorem contains_iff (d : Dict κ ν) (k : κ) : d.contains k = true ↔ k ∈ d.keys := by
  simp [contains]

theorem lookup_write (k k' : κ) (v : ν) (es : List (κ × ν)) :
    (write k v es).lookup k' = if k' = k then some v else es.lookup k' := by
  induction es with
  | nil => rw [write, lookup_cons_eq_ite]
  | cons e es ih =>
      obtain ⟨k₀, v₀⟩ := e
      by_cases h₀ : k₀ = k
      · subst h₀
        simp only [write, if_true, lookup_cons_eq_ite]
        split <;> rfl
      · simp only [write, h₀, if_false, lookup_cons_eq_ite, ih]
        by_cases h : k' = k
        · subst h
          simp [Ne.symm h₀]
        · simp [h]

theorem get?_insert (d : Dict κ ν) (k k' : κ) (v : ν) :
    (d.insert k v).get? k' = if k' = k then some v else d.get? k' :=
  lookup_write k k' v d.entries

theorem write_of_not_mem {k : κ} {es : List (κ × ν)} (h : k ∉ es.map Prod.fst) (v : ν) :
    write k v es = es ++ [(k, v)] := by
  induction es with
  | nil => rfl
  | cons e es ih =>
      simp only [List.map_cons, List.mem_cons, not_or] at h
      rw [write, if_neg (Ne.symm h.1), ih h.2, List.cons_append]

theorem entries_insert_of_not_mem {d : Dict κ ν} {k : κ} (h : k ∉ d.keys) (v : ν) :
    (d.insert k v).entries = d.entries ++ [(k, v)] :=
  write_of_not_mem h v

theorem keys_insert_of_not_mem {d : Dict κ ν} {k : κ} (h : k ∉ d.keys) (v : ν) :
    (d.insert k v).keys = d.keys ++ [k] := by
  rw [keys, entries_insert_of_not_mem h, List.map_append]
  rfl

theorem mem_keys_insert (d : Dict κ ν) (k k' : κ) (v : ν) :
    k' ∈ (d.insert k v).keys ↔ k' ∈ d.keys ∨ k' = k := by
  rw [keys, insert, keys_write]
  split
  · rename_i hk
    exact ⟨.inl, fun h => h.elim id fun heq => heq ▸ hk⟩
  · rw [List.mem_append, List.mem_singleton]
    rfl

theorem mem_keys_ofList (es : List (κ × ν)) (k : κ) :
    k ∈ (ofList es).keys ↔ k ∈ es.map Prod.fst := by
  have written (d : Dict κ ν) : k ∈ (es.foldl (fun d e => d.insert e.1 e.2) d).keys ↔
      k ∈ d.keys ∨ k ∈ es.map Prod.fst := by
    induction es generalizing d with
    | nil => simp
    | cons e es ih => rw [List.foldl_cons, ih, mem_keys_insert, List.map_cons, List.mem_cons, or_assoc]
  exact (written ∅).trans (or_iff_right List.not_mem_nil)

theorem entries_foldl_insert {es : List (κ × ν)} (d : Dict κ ν)
    (h : (d.keys ++ es.map Prod.fst).Nodup) :
    (es.foldl (fun d e => d.insert e.1 e.2) d).entries = d.entries ++ es := by
  induction es generalizing d with
  | nil => simp
  | cons e es ih =>
      have fresh : e.1 ∉ d.keys := fun hk =>
        (List.nodup_append.mp h).2.2 _ hk _ (by simp) rfl
      rw [List.foldl_cons, ih, entries_insert_of_not_mem fresh, List.append_assoc,
        List.singleton_append]
      rw [keys_insert_of_not_mem fresh, List.append_assoc, List.singleton_append]
      exact h

theorem entries_ofList {es : List (κ × ν)} (h : (es.map Prod.fst).Nodup) :
    (ofList es).entries = es := by
  have fresh : ((∅ : Dict κ ν).keys ++ es.map Prod.fst).Nodup := by simpa [Dict.keys] using h
  simpa [ofList] using entries_foldl_insert ∅ fresh

theorem entries_update {d e : Dict κ ν} (h : ∀ k ∈ d.keys, k ∉ e.keys) :
    (d.update e).entries = d.entries ++ e.entries :=
  entries_foldl_insert d <| List.nodup_append.mpr
    ⟨d.nodup, e.nodup, fun a ha _ hb hab => h a ha (hab ▸ hb)⟩

theorem ofList_entries (d : Dict κ ν) : ofList d.entries = d :=
  ext (entries_ofList d.nodup)

theorem entries_ofKeys {ks : List κ} (h : ks.Nodup) (f : κ → ν) :
    (ofKeys ks f).entries = ks.map fun k => (k, f k) :=
  entries_ofList (by simpa [List.map_map, Function.comp_def] using h)

theorem get?_foldl_insert (ks : List κ) (f : κ → ν) (d : Dict κ ν) (k : κ) :
    ((ks.map fun k => (k, f k)).foldl (fun d e => d.insert e.1 e.2) d).get? k =
      if k ∈ ks then some (f k) else d.get? k := by
  induction ks generalizing d with
  | nil => simp
  | cons k₀ ks ih =>
      rw [List.map_cons, List.foldl_cons, ih, get?_insert]
      by_cases hk : k = k₀
      · subst hk
        simp
      · simp [hk]

theorem get?_ofKeys (ks : List κ) (f : κ → ν) (k : κ) :
    (ofKeys ks f).get? k = if k ∈ ks then some (f k) else none :=
  get?_foldl_insert ks f ∅ k

theorem getD_ofKeys_of_mem {ks : List κ} {k : κ} (h : k ∈ ks) (f : κ → ν) (default : ν) :
    (ofKeys ks f).getD k default = f k := by
  rw [getD, get?_ofKeys, if_pos h, Option.getD_some]

theorem keys_ofKeys {ks : List κ} (h : ks.Nodup) (f : κ → ν) : (ofKeys ks f).keys = ks := by
  simp [keys, entries_ofKeys h, Function.comp_def]

end Search

end Dict
end BackwardInduction
