import BackwardInduction.Model.Reading
import BackwardInduction.Proofs.DictLookup
import BackwardInduction.Proofs.Outcomes

/-!
How a model is read, as a relation: which form the raw value has, how its top-level
entries are parted into stages and others, and which tables come of the parts.
-/

namespace BackwardInduction

variable {α β : Type} [Scalar α]

section Numbers

/-- The number a raw value denotes: null is zero, and a text denotes its numeral. -/
inductive Value.Denotes : Value α → α → Prop
  | null : Denotes .null 0
  | real (x : α) : Denotes (.number (.real x)) x
  | whole {i : Int} {x : α} (h : Scalar.ofInt? i = some x) : Denotes (.number (.whole i)) x
  | text {s : String} {x : α} (h : Scalar.ofText? s = some x) : Denotes (.text s) x

theorem readNumber_eq_ok_iff (place : Place) (v : Value α) (x : α) :
    readNumber place v = .ok x ↔ v.Denotes x ∧ Scalar.isFinite x = true := by
  have finite (y : α) :
      (if Scalar.isFinite y then pure y else throw (.notFinite place) : Except Fault α) = .ok x ↔
        y = x ∧ Scalar.isFinite x = true := by
    rw [ite_pure_eq_ok_iff, and_comm]
    exact and_congr_right fun h => by rw [h]
  constructor
  · intro h
    simp only [readNumber] at h
    split at h
    · obtain ⟨rfl, hx⟩ := (finite _).mp h
      exact ⟨.null, hx⟩
    · cases h
    · obtain ⟨rfl, hx⟩ := (finite _).mp h
      exact ⟨.real _, hx⟩
    · split at h
      · rename_i hi
        obtain ⟨rfl, hx⟩ := (finite _).mp h
        exact ⟨.whole hi, hx⟩
      · cases h
    · split at h
      · rename_i hs
        obtain ⟨rfl, hx⟩ := (finite _).mp h
        exact ⟨.text hs, hx⟩
      · cases h
    · cases h
  · intro ⟨hv, hx⟩
    cases hv with
    | null | real => exact (finite _).mpr ⟨rfl, hx⟩
    | whole hi =>
        simp only [readNumber, hi]
        exact (finite _).mpr ⟨rfl, hx⟩
    | text hs =>
        simp only [readNumber, hs]
        exact (finite _).mpr ⟨rfl, hx⟩

theorem readWeight_eq_ok_iff (place : Place) (v : Value α) (x : α) :
    readWeight place v = .ok x ↔ v.Denotes x ∧ Scalar.isFinite x = true ∧ ¬x < 0 := by
  simp only [readWeight, bind_eq_ok_iff, readNumber_eq_ok_iff, ite_throw_eq_ok_iff]
  constructor
  · intro ⟨y, ⟨hv, hy⟩, nonneg, heq⟩
    cases heq
    exact ⟨hv, hy, nonneg⟩
  · intro ⟨hv, hx, nonneg⟩
    exact ⟨x, ⟨hv, hx⟩, nonneg, rfl⟩

end Numbers

section Entries

omit [Scalar α] in
theorem entriesOf_eq_ok_iff (place : Place) (v : Value α) (entries : Entries α) :
    entriesOf place v = .ok entries ↔ v = .map entries := by
  unfold entriesOf
  split
  · simp
  · rename_i v hv
    constructor
    · rintro ⟨⟩
    · rintro rfl
      exact absurd rfl (hv entries)

variable {item : Place → Value α → Except Fault β} {place : Place}

/-- The entry is under the text of the raw key, and its value is what is read of the raw one. -/
def ReadsEntry (item : Place → Value α → Except Fault β) (place : Place) (e : Key α × Value α)
    (e' : String × β) : Prop :=
  e.1.display = e'.1 ∧ item (place.under e.1) e.2 = .ok e'.2

theorem readEntry_eq_ok_iff (d d' : Dict String β) (e : Key α × Value α) :
    readEntry item place d e = .ok d' ↔
      ∃ e', ReadsEntry item place e e' ∧ d' = d.insert e'.1 e'.2 := by
  rw [readEntry, bind_eq_ok_iff]
  constructor
  · rintro ⟨b, hb, ⟨⟩⟩
    exact ⟨(e.1.display, b), ⟨rfl, hb⟩, rfl⟩
  · rintro ⟨⟨_, b⟩, ⟨rfl, hb⟩, rfl⟩
    exact ⟨b, hb, rfl⟩

theorem foldlM_readEntry_eq_ok_iff (entries : Entries α) (d d' : Dict String β) :
    entries.foldlM (readEntry item place) d = .ok d' ↔
      ∃ es, List.Forall₂ (ReadsEntry item place) entries es ∧
        d' = es.foldl (fun d e => d.insert e.1 e.2) d := by
  induction entries generalizing d with
  | nil =>
      constructor
      · rintro ⟨⟩
        exact ⟨[], .nil, rfl⟩
      · rintro ⟨_, ⟨⟩, rfl⟩
        rfl
  | cons e entries ih =>
      simp only [List.foldlM_cons, bind_eq_ok_iff, readEntry_eq_ok_iff, ih]
      constructor
      · rintro ⟨_, ⟨e', he, rfl⟩, es, hes, hd⟩
        exact ⟨e' :: es, .cons he hes, hd⟩
      · rintro ⟨_, h, hd⟩
        cases h with
        | @cons _ e' _ es he hes => exact ⟨_, ⟨e', he, rfl⟩, es, hes, hd⟩

/-- A mapping is read entry by entry, each written over those before. -/
theorem readDict_eq_ok_iff (item : Place → Value α → Except Fault β) (place : Place)
    (v : Value α) (d : Dict String β) :
    readDict item place v = .ok d ↔
      ∃ entries, v = .map entries ∧
        ∃ es, List.Forall₂ (ReadsEntry item place) entries es ∧ d = Dict.ofList es := by
  simp only [readDict, bind_eq_ok_iff, entriesOf_eq_ok_iff, foldlM_readEntry_eq_ok_iff]
  rfl

theorem texts_of_readsEntry {entries : Entries α} {es : List (String × β)}
    (h : List.Forall₂ (ReadsEntry item place) entries es) :
    es.map Prod.fst = entries.map fun e => e.1.display := by
  induction h with
  | nil => rfl
  | cons he _ ih => rw [List.map_cons, List.map_cons, ih, he.1]

theorem mem_keys_of_readDict {entries : Entries α} {d : Dict String β}
    (h : readDict item place (.map entries) = .ok d) (k : String) :
    k ∈ d.keys ↔ ∃ e ∈ entries, e.1.display = k := by
  obtain ⟨_, ⟨⟩, es, hes, rfl⟩ := (readDict_eq_ok_iff item place _ d).mp h
  rw [Dict.mem_keys_ofList, texts_of_readsEntry hes, List.mem_map]

end Entries

/-- A plain value and its entries; null has none. -/
inductive PlainEntries : Value α → Entries α → Prop
  | null : PlainEntries .null []
  | map (entries : Entries α) : PlainEntries (.map entries) entries

omit [Scalar α] in
theorem PlainEntries.unique {v : Value α} {entries entries' : Entries α}
    (h : PlainEntries v entries) (h' : PlainEntries v entries') : entries = entries' := by
  cases h <;> cases h' <;> rfl

namespace CellReader

variable (r : CellReader α β)

/-- How a model comes of a raw value under a layout. -/
inductive Reads (states : List String) (layout : Layout) : Value α → Model β → Prop
  | stationary {raw : Value α} {table : Table β} (h : r.table r.place raw = .ok table) :
      Reads states layout (.stationary raw) (.stationary table)
  | timeVarying {stages fallback : Value α} {layers : Dict Nat (Value α)}
      {tables : Dict Nat (Table β)} {table : Table β}
      (hlayers : r.markedLayers stages = .ok layers)
      (htables : r.stageTables layers = .ok tables)
      (htable : r.table r.place fallback = .ok table) :
      Reads states layout (.timeVarying stages fallback) (.timeVarying tables table)
  | whole {v : Value α} {entries : Entries α} {table : Table β} (hv : PlainEntries v entries)
      (hlayers : (r.layers? entries states layout).result = .ok none)
      (htable : r.table r.place (.map entries) = .ok table) :
      Reads states layout v (.stationary table)
  | parted {v : Value α} {entries others : Entries α} {layers : Dict Nat (Value α)}
      {tables : Dict Nat (Table β)} {table : Table β} (hv : PlainEntries v entries)
      (hlayers : (r.layers? entries states layout).result = .ok (some (layers, others)))
      (htables : r.stageTables layers = .ok tables)
      (htable : r.table r.place (.map others) = .ok table) :
      Reads states layout v (.timeVarying tables table)

/-- What becomes of the entries of a plain value once they are parted. -/
def ofLayers (entries : Entries α) :
    Option (Dict Nat (Value α) × Entries α) → Except Fault (Model β)
  | none => do return .stationary (← r.table r.place (.map entries))
  | some (layers, others) => do
      let tables ← r.stageTables layers
      return .timeVarying tables (← r.table r.place (.map others))

theorem result_model_plain {v : Value α} {entries : Entries α} (hv : PlainEntries v entries)
    (states : List String) (layout : Layout) :
    (r.model v states layout).result =
      (r.layers? entries states layout).result >>= r.ofLayers entries := by
  have plain (parts : Option (Dict Nat (Value α) × Entries α)) :
      (match parts with
        | none => do return .stationary (← r.table r.place (.map entries))
        | some (layers, others) => do
            let tables ← r.stageTables layers
            return .timeVarying tables (← r.table r.place (.map others)) :
        Traced α (Model β)).result = r.ofLayers entries parts := by
    cases parts with
    | none => simp only [ofLayers, Traced.result_bind, Traced.result_liftM, Traced.result_pure]; rfl
    | some parts =>
        simp only [ofLayers, Traced.result_bind, Traced.result_liftM, Traced.result_pure]; rfl
  cases hv <;>
    · simp only [model, entriesOf, Traced.result_bind, Traced.result_liftM]
      exact congrArg _ (funext plain)

theorem result_model_stationary (raw : Value α) (states : List String) (layout : Layout) :
    (r.model (.stationary raw) states layout).result =
      r.table r.place raw >>= fun table => .ok (.stationary table) := by
  simp only [model, Traced.result_bind, Traced.result_liftM, Traced.result_pure]

theorem result_model_timeVarying (stages fallback : Value α) (states : List String)
    (layout : Layout) :
    (r.model (.timeVarying stages fallback) states layout).result =
      r.markedLayers stages >>= fun layers => r.stageTables layers >>= fun tables =>
        r.table r.place fallback >>= fun table => .ok (.timeVarying tables table) := by
  simp only [model, Traced.result_bind, Traced.result_liftM, Traced.result_pure]

theorem reads_of_ofLayers {v : Value α} {entries : Entries α} (hv : PlainEntries v entries)
    {states : List String} {layout : Layout} {m : Model β}
    (h : (r.model v states layout).result = .ok m) : r.Reads states layout v m := by
  rw [r.result_model_plain hv, bind_eq_ok_iff] at h
  obtain ⟨parts, hlayers, hm⟩ := h
  cases parts with
  | none =>
      obtain ⟨table, htable, heq⟩ := bind_eq_ok_iff.mp hm
      cases heq
      exact .whole hv hlayers htable
  | some parts =>
      obtain ⟨tables, htables, hm⟩ := bind_eq_ok_iff.mp hm
      obtain ⟨table, htable, heq⟩ := bind_eq_ok_iff.mp hm
      cases heq
      exact .parted hv hlayers htables htable

theorem model_eq_ok_iff (v : Value α) (states : List String) (layout : Layout)
    (m : Model β) :
    (r.model v states layout).result = .ok m ↔ r.Reads states layout v m := by
  constructor
  · intro h
    cases v with
    | null => exact r.reads_of_ofLayers .null h
    | map entries => exact r.reads_of_ofLayers (.map entries) h
    | stationary raw =>
        rw [result_model_stationary] at h
        obtain ⟨table, htable, heq⟩ := bind_eq_ok_iff.mp h
        cases heq
        exact .stationary htable
    | timeVarying stages fallback =>
        rw [result_model_timeVarying] at h
        obtain ⟨layers, hlayers, h⟩ := bind_eq_ok_iff.mp h
        obtain ⟨tables, htables, h⟩ := bind_eq_ok_iff.mp h
        obtain ⟨table, htable, heq⟩ := bind_eq_ok_iff.mp h
        cases heq
        exact .timeVarying hlayers htables htable
    | bool _ | number _ | text _ | list _ => cases h
  · intro h
    cases h with
    | stationary htable => rw [result_model_stationary, htable]; rfl
    | timeVarying hlayers htables htable =>
        rw [result_model_timeVarying, hlayers]
        simp only [bind, Except.bind, htables, htable]
    | whole hv hlayers htable =>
        rw [r.result_model_plain hv, hlayers]
        simp only [bind, Except.bind, ofLayers, htable, pure, Except.pure]
    | parted hv hlayers htables htable =>
        rw [r.result_model_plain hv, hlayers]
        simp only [bind, Except.bind, ofLayers, htables, htable, pure, Except.pure]

end CellReader

end BackwardInduction
