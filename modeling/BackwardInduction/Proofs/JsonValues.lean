import BackwardInduction.Proofs.CellInvariants

/-!
The values that JSON texts have: no marked models, and mappings with distinct texts
for their keys. In such a mapping an entry is found and written by its name alone.
-/

namespace BackwardInduction

variable {α : Type}

/-- The entries of a map as those of a raw value. -/
def Dict.toEntries (d : Dict String (Value α)) : Entries α :=
  d.entries.map fun e => (.text e.1, e.2)

theorem Dict.forall_toEntries {P : Value α → Prop} {d : Dict String (Value α)}
    (h : ∀ e ∈ d.entries, P e.2) : ∀ e ∈ d.toEntries, P e.2 := by
  intro e he
  obtain ⟨e', he', rfl⟩ := List.mem_map.mp he
  exact h e' he'

theorem Dict.toValue_eq {ν : Type} (f : ν → Value α) (d : Dict String ν) :
    Dict.toValue f d = .map (d.mapValues fun _ v => f v).toEntries := by
  simp [Dict.toValue, Dict.toEntries]

/-- Values as they come out of JSON texts. -/
inductive Value.Decoded : Value α → Prop
  | null : Decoded .null
  | bool (b : Bool) : Decoded (.bool b)
  | number (n : Number α) : Decoded (.number n)
  | text (s : String) : Decoded (.text s)
  | list {items : List (Value α)} (h : ∀ v ∈ items, Decoded v) : Decoded (.list items)
  | map {d : Dict String (Value α)} (h : ∀ e ∈ d.entries, Decoded e.2) :
      Decoded (.map d.toEntries)

theorem Value.Decoded.forall_entries {entries : Entries α} (h : (Value.map entries).Decoded) :
    ∀ e ∈ entries, e.2.Decoded := by
  cases h with
  | map hd => exact Dict.forall_toEntries hd

theorem Value.decoded_ofList {es : List (String × Value α)} (h : ∀ e ∈ es, e.2.Decoded) :
    (Value.map (Dict.ofList es).toEntries).Decoded :=
  .map (Dict.all_ofList h)

theorem Value.decoded_single (key : String) {v : Value α} (hv : v.Decoded) :
    (Value.map (Dict.toEntries (.ofList [(key, v)]))).Decoded :=
  decoded_ofList (List.forall_mem_singleton.mpr hv)

theorem Value.decoded_pair (key key' : String) {v w : Value α} (hv : v.Decoded)
    (hw : w.Decoded) : (Value.map (Dict.toEntries (.ofList [(key, v), (key', w)]))).Decoded :=
  decoded_ofList (List.forall_mem_cons.mpr ⟨hv, List.forall_mem_singleton.mpr hw⟩)

theorem Value.decoded_toValue {ν : Type} {f : ν → Value α} (h : ∀ v, (f v).Decoded)
    (d : Dict String ν) : (Dict.toValue f d).Decoded := by
  rw [Dict.toValue_eq]
  exact .map (Dict.all_mapValues fun e _ => h e.2)

theorem Value.decoded_scalarValue (x : α) : (scalarValue x).Decoded :=
  .number _

section Entries

variable [Scalar α]

theorem Key.same_text (s t : String) : (Key.text s : Key α).same (.text t) = (s == t) :=
  rfl

/-- Only the text itself names the entry of a text. -/
theorem Key.same_text_iff (k : Key α) (name : String) :
    k.same (.text name) = true ↔ k = .text name := by
  cases k with
  | text s => simp [Key.same_text]
  | null | bool _ => simp [Key.same, Key.whole?]
  | number n =>
      cases n with
      | whole i => simp [Key.same, Key.whole?]
      | real x => cases hx : Scalar.toInt? x <;> simp [Key.same, Key.whole?, hx]

theorem Entries.get?_cons (e : Key α × Value α) (es : Entries α) (name : String) :
    Entries.get? (e :: es) name =
      if e.1.same (.text name) then some e.2 else Entries.get? es name := by
  rw [Entries.get?, List.find?_cons]
  cases e.1.same (.text name) <;> rfl

theorem Entries.mem_of_get? {es : Entries α} {name : String} {v : Value α}
    (h : es.get? name = some v) : (.text name, v) ∈ es := by
  induction es with
  | nil => cases h
  | cons e es ih =>
      rw [Entries.get?_cons] at h
      split at h
      · rename_i he
        cases h
        rw [← (Key.same_text_iff _ _).mp he]
        exact List.mem_cons_self
      · exact List.mem_cons_of_mem _ (ih h)

theorem Entries.forall_set {P : Value α → Prop} {es : Entries α} (h : ∀ e ∈ es, P e.2)
    (name : String) {v : Value α} (hv : P v) : ∀ e ∈ es.set name v, P e.2 := by
  have written : ∀ e ∈ Entries.write (.text name) v es, P e.2 := by
    induction es with
    | nil => simpa [Entries.write] using hv
    | cons e es ih =>
        rw [Entries.write]
        split
        · exact List.forall_mem_cons.mpr ⟨hv, (List.forall_mem_cons.mp h).2⟩
        · exact List.forall_mem_cons.mpr
            ⟨(List.forall_mem_cons.mp h).1, ih (List.forall_mem_cons.mp h).2⟩
  exact written

theorem Entries.get?_set (es : Entries α) (name other : String) (v : Value α) :
    (es.set name v).get? other = if name = other then some v else es.get? other := by
  have written : Entries.get? (Entries.write (.text name) v es) other =
      if name = other then some v else es.get? other := by
    induction es with
    | nil =>
        rw [Entries.write, Entries.get?_cons, Key.same_text]
        by_cases h : name = other <;> simp [h]
    | cons e es ih =>
        rw [Entries.write]
        split
        · rename_i h
          have he := (Key.same_text_iff _ _).mp h
          rw [Entries.get?_cons, Entries.get?_cons, he, Key.same_text]
          by_cases hn : name = other <;> simp [hn]
        · rename_i h
          rw [Entries.get?_cons, ih, Entries.get?_cons]
          by_cases hn : name = other
          · subst hn
            simp [h]
          · simp [hn]
  exact written

theorem Entries.get?_erase (es : Entries α) {name other : String} (h : name ≠ other) :
    (es.erase name).get? other = es.get? other := by
  induction es with
  | nil => rfl
  | cons e es ih =>
      rw [Entries.erase, List.filter_cons]
      split
      · rw [Entries.get?_cons, Entries.get?_cons, ← ih]
        rfl
      · rename_i hsame
        have he : e.1 = .text name := (Key.same_text_iff _ _).mp (by simpa using hsame)
        have hne : (name == other) = false := beq_eq_false_iff_ne.mpr h
        rw [Entries.get?_cons, he, Key.same_text, hne]
        exact ih

theorem Entries.get?_erase_self (es : Entries α) (name : String) :
    (es.erase name).get? name = none := by
  rw [Entries.get?, Option.map_eq_none_iff, List.find?_eq_none]
  intro e he
  simpa using (List.mem_filter.mp he).2

theorem Entries.set_toEntries (d : Dict String (Value α)) (name : String) (v : Value α) :
    Entries.set d.toEntries name v = (d.insert name v).toEntries := by
  have written (es : List (String × Value α)) :
      Entries.write (.text name) v (es.map fun e => (Key.text e.1, e.2)) =
        (Dict.write name v es).map fun e => (Key.text e.1, e.2) := by
    induction es with
    | nil => rfl
    | cons e es ih =>
        obtain ⟨k, w⟩ := e
        rw [List.map_cons, Entries.write, Dict.write, Key.same_text]
        by_cases h : k = name
        · simp [h]
        · simp only [beq_eq_false_iff_ne.mpr h, if_neg h, Bool.false_eq_true, if_false, ih,
            List.map_cons]
  exact written d.entries

end Entries

end BackwardInduction
