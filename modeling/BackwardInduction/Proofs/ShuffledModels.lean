import BackwardInduction.Proofs.ModelGrammar
import BackwardInduction.Proofs.NormalizedModels
import BackwardInduction.Proofs.ShuffledValues

/-!
Models of shuffled values. The entries of a plain mapping name the same stages in any order,
and so do those of a marked model; from one order to another the tables are rearranged with
the values they were read of. So what is read in one order is read in any other, and what is
looked up in the models that are read corresponds.
-/

namespace BackwardInduction

variable {α β γ : Type}

section Models

/-- Models of the same form, with the same stages, states and actions in some order, and with
cells that correspond. -/
inductive Model.Alike (S : β → γ → Prop) : Model β → Model γ → Prop
  | stationary {t : Table β} {t' : Table γ} (h : Dict.Alike (Dict.Alike S) t t') :
      Alike S (.stationary t) (.stationary t')
  | timeVarying {stages : Dict Nat (Table β)} {stages' : Dict Nat (Table γ)}
      {fallback : Table β} {fallback' : Table γ}
      (hs : stages.Alike (Dict.Alike (Dict.Alike S)) stages')
      (hf : Dict.Alike (Dict.Alike S) fallback fallback') :
      Alike S (.timeVarying stages fallback) (.timeVarying stages' fallback')

namespace Model.Alike

variable {S : β → γ → Prop} {m : Model β} {m' : Model γ} (h : m.Alike S m')
include h

theorem present? (stage : Nat) (state action : String) :
    Option.Rel S (m.present? stage state action) (m'.present? stage state action) := by
  refine rel_present? (T := Dict.Alike (Dict.Alike S))
    (fun _ _ ht => Table.rel_cell? Dict.Alike.get? ht.get? state action) ?_ ?_
  · cases h with
    | stationary => exact .none
    | timeVarying hs _ => exact hs.get? stage
  · cases h with
    | stationary ht => exact ht
    | timeVarying _ hf => exact hf

theorem all {P : β → Prop} {Q : γ → Prop} (hPQ : ∀ b c, P b → S b c → Q c) (hm : m.All P) :
    m'.All Q := by
  have table {t : Table β} {t' : Table γ} (ht : t.All P) (h : Dict.Alike (Dict.Alike S) t t') :
      t'.All Q :=
    h.all (fun _ _ hcells h => h.all hPQ hcells) ht
  cases h with
  | stationary ht => exact table hm ht
  | timeVarying hs hf => exact ⟨hs.all (fun _ _ => table) hm.1, table hm.2 hf⟩

end Model.Alike

end Models

section Plain

variable {layout : Layout} {raw raw' : Dict String (Value α)}
  (h : raw.Alike Value.Shuffles raw')
include h

theorem KeysWithin.of_alike (hwithin : KeysWithin raw) : KeysWithin raw' :=
  fun key hkey => hwithin key ((h.mem_keys_iff key).mp hkey)

theorem Layout.Allows.of_alike {states states' : List String} (hstates : states.Perm states')
    (hallows : layout.Allows raw states) : layout.Allows raw' states' where
  known := hallows.known
  staged hlayout key hkey := hallows.staged hlayout key ((h.mem_keys_iff key).mp hkey)
  apart hlayout key hkey hstage hstate :=
    hallows.apart hlayout key ((h.mem_keys_iff key).mp hkey) hstage
      (hstates.mem_iff.mpr hstate)

theorem stagedValues_rearranged :
    Rearranges (Dict.Pairs Value.Shuffles) (stagedValues layout raw)
      (stagedValues layout raw') := by
  refine Rearranges.filterMap h fun x y hxy => ?_
  rw [hxy.1]
  cases layout.stage? y.1 with
  | none => exact .none
  | some stage => exact .some ⟨rfl, hxy.2⟩

theorem unstagedValues_alike :
    (unstagedValues layout raw).Alike Value.Shuffles (unstagedValues layout raw') :=
  Rearranges.filter h fun x y hxy => by rw [hxy.1]

/-- What a mapping says is rearranged with it. -/
theorem Contents.exists_alike {R : Value α → β → Prop} {S : β → β → Prop} (ht : Transfers R S)
    {m : Model β} (hm : Contents layout raw R m) :
    ∃ m', Contents layout raw' R m' ∧ m.Alike S m' := by
  cases hm with
  | whole hnone htable =>
      obtain ⟨table', htable', alike⟩ := ht.holds.exists_pairs h htable
      exact ⟨_, .whole (fun key hkey => hnone key ((h.mem_keys_iff key).mp hkey)) htable',
        .stationary alike⟩
  | layered hsome hstages hfallback =>
      obtain ⟨key, hkey, hstage⟩ := hsome
      obtain ⟨stages', hstages', stages⟩ :=
        ht.holds.holds.exists_pairs (stagedValues_rearranged h) hstages
      obtain ⟨fallback', hfallback', fallback⟩ :=
        ht.holds.exists_pairs (unstagedValues_alike h) hfallback
      exact ⟨_, .layered ⟨key, (h.mem_keys_iff key).mpr hkey, hstage⟩ hstages' hfallback',
        .timeVarying stages fallback⟩

end Plain

/-- A plain mapping under texts, or a marked model whose tables are such; the stages of a
marked model may be under keys of any kind. -/
inductive Value.TextKeyed : Value α → Prop
  | plain {v : Value α} (h : v.Decoded) : TextKeyed v
  | stationary {table : Value α} (h : table.Decoded) : TextKeyed (.stationary table)
  | timeVarying {stages fallback : Value α}
      (hs : ∀ entries, stages = .map entries → ∀ e ∈ entries, e.2.Decoded)
      (hf : fallback.Decoded) : TextKeyed (.timeVarying stages fallback)

theorem Value.TextKeyed.of_shuffles {v w : Value α} (hv : v.TextKeyed) (h : v.Shuffles w) :
    w.TextKeyed := by
  cases hv with
  | plain hv => exact .plain (hv.of_shuffles h)
  | stationary hv =>
      obtain ⟨_, rfl, htable⟩ := h.exists_stationary
      exact .stationary (hv.of_shuffles htable)
  | @timeVarying stages _ hs hf =>
      obtain ⟨stages', _, rfl, hstages, hfallback⟩ := h.exists_timeVarying
      refine .timeVarying ?_ (hf.of_shuffles hfallback)
      rintro fs rfl y hy
      obtain ⟨es, rfl, hes⟩ := hstages.symm.exists_map
      obtain ⟨fs', heq, hfs⟩ := hstages.exists_map
      cases heq
      obtain ⟨x, hx, _, hxy⟩ := hfs.exists_of_mem hy
      exact (hs es rfl x hx).of_shuffles hxy

theorem PlainEntries.exists_shuffled {raw : Dict String (Value α)} {v w : Value α}
    (hv : PlainEntries v raw.toEntries) (h : v.Shuffles w) :
    ∃ raw' : Dict String (Value α), PlainEntries w raw'.toEntries ∧
      raw.Alike Value.Shuffles raw' := by
  generalize hentries : raw.toEntries = entries at hv
  cases hv with
  | null =>
      cases h.reordered
      exact ⟨raw, hentries ▸ .null, .of_perm Value.pairs_shuffles_refl (.refl _)⟩
  | map =>
      subst hentries
      obtain ⟨raw', rfl, alike⟩ := h.exists_dict
      exact ⟨raw', .map _, alike⟩

namespace CellReader

variable [Scalar α] {r : CellReader α β} {R : Value α → β → Prop} {S : β → β → Prop}
  {states states' : List String} {layout : Layout} {v w : Value α} {m : Model β}

theorem keysWithin_of_model {raw : Dict String (Value α)} (hv : PlainEntries v raw.toEntries)
    (hm : (r.model v states layout).result = .ok m) :
    layout = .stationary ∨ KeysWithin raw := by
  have parts : ∃ parts, Parts states layout raw.toEntries parts := by
    cases (r.model_eq_ok_iff v states layout m).mp hm with
    | stationary | timeVarying => cases hv
    | whole hv' hlayers | parted hv' hlayers =>
        cases hv.unique hv'
        exact ⟨_, (r.layers?_eq_ok_iff _ _ _ _).mp hlayers⟩
  obtain ⟨_, parts⟩ := parts
  generalize hentries : raw.toEntries = entries at parts
  cases parts with
  | stationary => exact .inl rfl
  | whole _ hkeyed | parted _ hkeyed => exact .inr (keysWithin_of_keyed (hentries ▸ hkeyed))

variable (hr : ReadsAs r.read R) (ht : Transfers R S)
include hr ht

/-- A plain model is read in any order of its entries and of the states. -/
theorem exists_model_of_plain (hv : v.Decoded) (h : v.Shuffles w) (hstates : states.Perm states')
    (hm : (r.model v states layout).result = .ok m) :
    ∃ m', (r.model w states' layout).result = .ok m' ∧ m.Alike S m' := by
  obtain ⟨raw, hentries, hraw⟩ := exists_entries_of_model hv hm
  obtain ⟨raw', hentries', alike⟩ := hentries.exists_shuffled h
  obtain ⟨hallows, contents⟩ := contents_of_model hentries hraw hr hm
  obtain ⟨m', contents', hmm'⟩ := contents.exists_alike alike ht
  have hraw' : raw'.All Value.Decoded := alike.all (fun _ _ => Value.Decoded.of_shuffles) hraw
  have within := (keysWithin_of_model hentries hm).imp_right (KeysWithin.of_alike alike)
  exact ⟨m', model_of_contents hentries' hraw' hr within (hallows.of_alike alike hstates) contents',
    hmm'⟩

theorem exists_table_of_shuffles (hv : v.Decoded) (h : v.Shuffles w) {place : Place}
    {t : Table β} (htable : r.table place v = .ok t) :
    ∃ t', r.table place w = .ok t' ∧ Dict.Alike (Dict.Alike S) t t' := by
  rw [readsAs_table hr place v t hv] at htable
  obtain ⟨t', htable', alike⟩ := ht.holds.holds v w t h htable
  exact ⟨t', (readsAs_table hr place w t' (hv.of_shuffles h)).mpr htable', alike⟩

/-- A model is read in any order of its entries and of the states, and the models that are read
correspond. -/
theorem exists_model_of_shuffles (hp : Placeless r.read) (hv : v.TextKeyed) (h : v.Shuffles w)
    (hstates : states.Perm states') (hm : (r.model v states layout).result = .ok m) :
    ∃ m', (r.model w states' layout).result = .ok m' ∧ m.Alike S m' := by
  cases hv with
  | plain hv => exact exists_model_of_plain hr ht hv h hstates hm
  | stationary hv =>
      obtain ⟨w, rfl, hw⟩ := h.exists_stationary
      cases (r.model_eq_ok_iff _ states layout m).mp hm with
      | stationary htable =>
          obtain ⟨t', htable', alike⟩ := exists_table_of_shuffles hr ht hv hw htable
          exact ⟨_, (r.model_eq_ok_iff _ states' layout _).mpr (.stationary htable'),
            .stationary alike⟩
      | whole hentries | parted hentries => cases hentries
  | timeVarying hs hf =>
      obtain ⟨stages', fallback', rfl, hstages, hfallback⟩ := h.exists_timeVarying
      obtain ⟨es, tables, t, rfl, hes, htable, rfl⟩ :=
        (model_timeVarying_eq_ok_iff hp _ _ states layout m).mp hm
      -- the keys of the stages need not be texts, so the entries are followed one by one
      obtain ⟨fs, rfl, hfs⟩ := hstages.exists_map
      obtain ⟨t', htable', fallback⟩ := exists_table_of_shuffles hr ht hf hfallback htable
      have decoded := (List.forall₂_and_left es tables.entries).mpr ⟨hs es rfl, hes⟩
      obtain ⟨ts, hts, alike⟩ := hfs.transfer (U := r.ReadsStage)
        (B := Dict.Pairs (Dict.Alike (Dict.Alike S)))
        (fun x y stage hxy ⟨hx, hstage, hread⟩ => by
          obtain ⟨u, hu, hread'⟩ := exists_table_of_shuffles hr ht hx hxy.2 hread
          exact ⟨(stage.1, u), ⟨hxy.1 ▸ hstage, hu⟩, rfl, hread'⟩) decoded
      have nodup : (ts.map Prod.fst).Nodup :=
        (Dict.perm_keys_of_rearranges alike).nodup_iff.mp tables.nodup
      exact ⟨.timeVarying ⟨ts, nodup⟩ t',
        (model_timeVarying_eq_ok_iff hp _ _ states' layout _).mpr
          ⟨fs, ⟨ts, nodup⟩, t', rfl, hts, htable', rfl⟩, .timeVarying alike fallback⟩

end CellReader

/-- Terminal values are read in any order. -/
theorem exists_salvage_of_shuffles [Scalar α] {v w : Value α} (hv : v.Decoded)
    (h : v.Shuffles w) {salvage : Dict String α} (hsalvage : readSalvage v = .ok salvage) :
    ∃ salvage', readSalvage w = .ok salvage' ∧ salvage.Alike Eq salvage' := by
  have read (v : Value α) (hne : v ≠ .null) :
      readSalvage v = readDict readNumber (Place.ofRoot "salvage") v := by
    unfold readSalvage
    split
    · exact absurd rfl hne
    · rfl
  by_cases hnull : v = .null
  · subst hnull
    cases h.reordered
    exact ⟨salvage, hsalvage, .of_perm (fun _ => ⟨rfl, rfl⟩) (.refl _)⟩
  · rw [read v hnull, readsAs_dict readsAs_number _ v salvage hv] at hsalvage
    obtain ⟨salvage', hsalvage', alike⟩ := transfers_amount.holds v w salvage h hsalvage
    obtain ⟨raw', rfl, _⟩ := id hsalvage'
    have given : Value.map raw'.toEntries ≠ .null := nofun
    refine ⟨salvage', ?_, alike⟩
    rw [read _ given, readsAs_dict readsAs_number _ _ salvage' (hv.of_shuffles h)]
    exact hsalvage'

end BackwardInduction
