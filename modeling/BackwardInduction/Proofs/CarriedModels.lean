import BackwardInduction.Proofs.MarkedTables
import BackwardInduction.Proofs.NormalizationOrder

/-!
Models of related values. A reader carries a relation of raw values over to what it reads of
them; then so does the reader of mappings to such values, entry by entry, whatever the keys are.
As the keys alone say how a model is parted, models whose entries are related are parted alike
and read alike.
-/

namespace BackwardInduction

variable {α β γ κ ν μ : Type}

theorem Dict.Matches.insert [DecidableEq κ] {S : ν → μ → Prop} {d : Dict κ ν} {e : Dict κ μ}
    (h : d.Matches S e) (k : κ) {v : ν} {w : μ} (hvw : S v w) :
    (d.insert k v).Matches S (e.insert k w) := by
  have entries {es : List (κ × ν)} {fs : List (κ × μ)} (h : List.Forall₂ (Pairs S) es fs) :
      List.Forall₂ (Pairs S) (write k v es) (write k w fs) := by
    induction h with
    | nil => exact .cons ⟨rfl, hvw⟩ .nil
    | @cons x y _ _ hxy htail ih =>
        rw [write, write, hxy.1]
        split
        · exact .cons ⟨rfl, hvw⟩ htail
        · exact .cons hxy ih
  exact entries h

theorem Dict.matches_ofList [DecidableEq κ] {S : ν → μ → Prop} {es : List (κ × ν)}
    {fs : List (κ × μ)} (h : List.Forall₂ (Pairs S) es fs) : (ofList es).Matches S (ofList fs) := by
  have written {d : Dict κ ν} {e : Dict κ μ} (hde : d.Matches S e) :
      (es.foldl (fun d e => d.insert e.1 e.2) d).Matches S
        (fs.foldl (fun d e => d.insert e.1 e.2) e) := by
    induction h generalizing d e with
    | nil => exact hde
    | @cons x y _ _ hxy _ ih =>
        have head := hde.insert x.1 hxy.2
        rw [List.foldl_cons, List.foldl_cons, ← hxy.1]
        exact ih head
  exact written List.Forall₂.nil

/-- Of the second of two related values something is read as well, and it corresponds to what
is read of the first. -/
def Carries (R : Value α → Value α → Prop) (item : Place → Value α → Except Fault β)
    (S : β → β → Prop) : Prop :=
  ∀ place v w b, R v w → item place v = .ok b → ∃ c, item place w = .ok c ∧ S b c

section Mappings

variable [Scalar α] {R : Value α → Value α → Prop} {item : Place → Value α → Except Fault β}
  {S : β → β → Prop}

theorem Carries.exists_entries (h : Carries R item S) {place : Place} {es fs : Entries α}
    (hes : List.Forall₂ (Dict.Pairs R) es fs) {ds : List (String × β)}
    (hds : List.Forall₂ (ReadsEntry item place) es ds) :
    ∃ cs, List.Forall₂ (ReadsEntry item place) fs cs ∧ List.Forall₂ (Dict.Pairs S) ds cs := by
  induction hes generalizing ds with
  | nil =>
      cases hds
      exact ⟨[], .nil, .nil⟩
  | @cons x y _ _ hxy _ ih =>
      cases hds with
      | @cons _ e _ ds he hds =>
          obtain ⟨c, hc, hbc⟩ := h _ _ _ _ hxy.2 he.2
          obtain ⟨cs, hcs, related⟩ := ih hds
          rw [hxy.1] at hc
          exact ⟨(e.1, c) :: cs, .cons ⟨hxy.1 ▸ he.1, hc⟩ hcs, .cons ⟨rfl, hbc⟩ related⟩

/-- Mappings with the same keys over related values are read alike. -/
theorem Carries.exists_dict (h : Carries R item S) {place : Place} {es fs : Entries α}
    (hes : List.Forall₂ (Dict.Pairs R) es fs) {d : Dict String β}
    (hd : readDict item place (.map es) = .ok d) :
    ∃ e, readDict item place (.map fs) = .ok e ∧ d.Matches S e := by
  obtain ⟨_, ⟨⟩, ds, hds, rfl⟩ := (readDict_eq_ok_iff item place _ d).mp hd
  obtain ⟨cs, hcs, related⟩ := h.exists_entries hes hds
  exact ⟨_, (readDict_eq_ok_iff item place _ _).mpr ⟨fs, rfl, cs, hcs, rfl⟩,
    Dict.matches_ofList related⟩

end Mappings

namespace CellReader

section Parting

variable {R : Value α → Value α → Prop} {es fs : Entries α}
  {keyed keyed' : List (Option Nat × Key α × Value α)}

/-- Entries under the same keys name the same stages. -/
theorem Keyed.exists_related (h : Keyed es keyed) (hes : List.Forall₂ (Dict.Pairs R) es fs) :
    ∃ keyed', Keyed fs keyed' ∧
      List.Forall₂ (Dict.Pairs (Dict.Pairs R)) keyed keyed' := by
  have entries := hes
  rw [← h.entries_eq, List.forall₂_map_left_iff] at entries
  have stages := (List.forall₂_and_left keyed fs).mpr ⟨h.stage_eq, entries⟩
  clear h hes entries
  induction stages with
  | nil => exact ⟨[], ⟨rfl, nofun⟩, .nil⟩
  | @cons x y _ _ hxy _ ih =>
      obtain ⟨keyed', rest, related⟩ := ih
      obtain ⟨hstage, hkey, hvalue⟩ := hxy
      refine ⟨(x.1, y) :: keyed', ⟨?_, ?_⟩, .cons ⟨rfl, hkey, hvalue⟩ related⟩
      · rw [List.map_cons, rest.entries_eq]
      · exact List.forall_mem_cons.mpr ⟨hkey ▸ hstage, rest.stage_eq⟩

theorem staged_related (h : List.Forall₂ (Dict.Pairs (Dict.Pairs R)) keyed keyed') :
    List.Forall₂ (Dict.Pairs (Dict.Pairs R)) (staged keyed) (staged keyed') := by
  refine List.rel_filterMap (fun x y hxy => ?_) h
  obtain ⟨stage?, e⟩ := x
  obtain ⟨_, e'⟩ := y
  obtain ⟨rfl, hentry⟩ := hxy
  cases stage? with
  | none => exact .none
  | some stage => exact .some ⟨rfl, hentry⟩

theorem others_related (h : List.Forall₂ (Dict.Pairs (Dict.Pairs R)) keyed keyed') :
    List.Forall₂ (Dict.Pairs R) (others keyed) (others keyed') := by
  refine List.rel_filterMap (fun x y hxy => ?_) h
  obtain ⟨stage?, e⟩ := x
  obtain ⟨_, e'⟩ := y
  obtain ⟨rfl, hentry⟩ := hxy
  cases stage? with
  | none => exact .some hentry
  | some stage => exact .none

theorem eq_nil_iff_of_forall₂ {R : β → γ → Prop} {xs : List β} {ys : List γ}
    (h : List.Forall₂ R xs ys) : xs = [] ↔ ys = [] := by
  rw [← List.length_eq_zero_iff, h.length_eq, List.length_eq_zero_iff]

variable [Scalar α]

theorem clashes_related (states : List String)
    (h : List.Forall₂ (Dict.Pairs (Dict.Pairs R)) keyed keyed') :
    List.Forall₂ (Dict.Pairs (Dict.Pairs R)) (clashes states keyed) (clashes states keyed') :=
  List.rel_filter (fun _ _ hxy => by dsimp only; rw [hxy.2.1]) (staged_related h)

/-- Related parts: neither is parted, or both are, with the same stages. -/
def RelatedParts (R : Value α → Value α → Prop) :
    Option (Dict Nat (Value α) × Entries α) → Option (Dict Nat (Value α) × Entries α) → Prop :=
  Option.Rel fun parts parts' =>
    parts.1.Matches R parts'.1 ∧ List.Forall₂ (Dict.Pairs R) parts.2 parts'.2

/-- Entries under the same keys are parted alike. -/
theorem Parts.exists_related {states : List String} {layout : Layout}
    {parts : Option (Dict Nat (Value α) × Entries α)} (h : Parts states layout es parts)
    (hes : List.Forall₂ (Dict.Pairs R) es fs) :
    ∃ parts', Parts states layout fs parts' ∧ RelatedParts R parts parts' := by
  cases h with
  | stationary => exact ⟨none, .stationary fs, .none⟩
  | whole hlayout hkeyed hothers hstaged =>
      obtain ⟨keyed', hkeyed', related⟩ := hkeyed.exists_related hes
      refine ⟨none, .whole hlayout hkeyed' (fun h => ?_) ?_, .none⟩
      · exact (eq_nil_iff_of_forall₂ (others_related related)).mp (hothers h)
      · exact (eq_nil_iff_of_forall₂ (staged_related related)).mp hstaged
  | @parted _ _ keyed layers hlayout hkeyed hothers hstaged hclash hlayers =>
      obtain ⟨keyed', hkeyed', related⟩ := hkeyed.exists_related hes
      have stages : List.Forall₂ (Dict.Pairs R) layers.entries
          ((staged keyed').map fun e => (e.1, e.2.2)) := by
        rw [hlayers, List.forall₂_map_left_iff, List.forall₂_map_right_iff]
        exact (staged_related related).imp fun _ _ hxy => ⟨hxy.1, hxy.2.2⟩
      let layers' : Dict Nat (Value α) := ⟨_, (Dict.keys_of_pairs stages).symm ▸ layers.nodup⟩
      refine ⟨some (layers', others keyed'),
        .parted hlayout hkeyed' (fun h => ?_) ?_ (fun h => ?_) rfl,
        .some ⟨stages, others_related related⟩⟩
      · exact (eq_nil_iff_of_forall₂ (others_related related)).mp (hothers h)
      · exact (eq_nil_iff_of_forall₂ (staged_related related)).not.mp hstaged
      · exact (eq_nil_iff_of_forall₂ (clashes_related states related)).mp (hclash h)

end Parting

section Models

variable [Scalar α] {r : CellReader α β} {R : Value α → Value α → Prop} {S : β → β → Prop}

/-- Tables of related values at the same stages are read alike. -/
theorem exists_stageTables (ht : Carries R r.table (Dict.Matches (Dict.Matches S)))
    {layers layers' : Dict Nat (Value α)} (h : layers.Matches R layers')
    {tables : Dict Nat (Table β)} (htables : r.stageTables layers = .ok tables) :
    ∃ tables', r.stageTables layers' = .ok tables' ∧
      tables.Matches (Dict.Matches (Dict.Matches S)) tables' := by
  have read := (Dict.traverse_eq_ok_iff _ _ _).mp htables
  have entries {es fs : List (Nat × Value α)} {ts : List (Nat × Table β)}
      (h : List.Forall₂ (Dict.Pairs R) es fs)
      (hts : List.Forall₂ (Dict.Yields fun stage v => r.table (r.place.stage stage) v) es ts) :
      ∃ ts', List.Forall₂ (Dict.Yields fun stage v => r.table (r.place.stage stage) v) fs ts' ∧
        List.Forall₂ (Dict.Pairs (Dict.Matches (Dict.Matches S))) ts ts' := by
    induction h generalizing ts with
    | nil =>
        cases hts
        exact ⟨[], .nil, .nil⟩
    | @cons x y _ _ hxy _ ih =>
        cases hts with
        | @cons _ t _ _ ht' hts =>
            obtain ⟨u, hu, htu⟩ := ht _ _ _ _ hxy.2 ht'.2
            obtain ⟨us, hus, related⟩ := ih hts
            exact ⟨(y.1, u) :: us, .cons ⟨rfl, hxy.1 ▸ hu⟩ hus,
              .cons ⟨ht'.1.symm.trans hxy.1, htu⟩ related⟩
  obtain ⟨ts, hts, related⟩ := entries h read
  have nodup : (ts.map Prod.fst).Nodup := Dict.keys_of_yields hts ▸ layers'.nodup
  exact ⟨⟨ts, nodup⟩, (Dict.traverse_eq_ok_iff _ _ ⟨ts, nodup⟩).mpr hts, related⟩

variable (hc : Carries R (readDict r.read) (Dict.Matches S))
  (ht : Carries R r.table (Dict.Matches (Dict.Matches S)))
include hc ht

/-- Plain models whose entries are related are read alike. -/
theorem exists_model_of_entries {v w : Value α} {es fs : Entries α} (hv : PlainEntries v es)
    (hw : PlainEntries w fs) (h : List.Forall₂ (Dict.Pairs R) es fs) {states : List String}
    {layout : Layout} {m : Model β} (hm : (r.model v states layout).result = .ok m) :
    ∃ m', (r.model w states layout).result = .ok m' ∧ m.Matches S m' := by
  cases (r.model_eq_ok_iff v states layout m).mp hm with
  | stationary | timeVarying => cases hv
  | whole hv' hlayers htable =>
      cases hv.unique hv'
      obtain ⟨parts', hparts', related⟩ :=
        ((r.layers?_eq_ok_iff _ _ _ _).mp hlayers).exists_related h
      cases related
      obtain ⟨t', ht', matched⟩ := hc.exists_dict h htable
      exact ⟨_, (r.model_eq_ok_iff _ _ _ _).mpr
        (.whole hw ((r.layers?_eq_ok_iff _ _ _ _).mpr hparts') ht'), .stationary matched⟩
  | parted hv' hlayers htables htable =>
      cases hv.unique hv'
      obtain ⟨parts', hparts', related⟩ :=
        ((r.layers?_eq_ok_iff _ _ _ _).mp hlayers).exists_related h
      cases related with
      | some related =>
          obtain ⟨tables', htables', stages⟩ := exists_stageTables ht related.1 htables
          obtain ⟨t', ht', matched⟩ := hc.exists_dict related.2 htable
          exact ⟨_, (r.model_eq_ok_iff _ _ _ _).mpr
            (.parted hw ((r.layers?_eq_ok_iff _ _ _ _).mpr hparts') htables' ht'),
            .timeVarying stages matched⟩

end Models

end CellReader

end BackwardInduction
