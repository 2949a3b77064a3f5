import Mathlib.Data.List.Perm.Basic
import BackwardInduction.Proofs.DecodedTables
import BackwardInduction.Proofs.MarkedTables

/-!
Values whose mappings have their entries in another order, at any level. A list is
rearranged if its items are replaced by items that correspond and then put in another
order; a shuffled mapping has its entries rearranged, each keeping its key over a shuffled
value. What is read of decoded values is rearranged in the same way.
-/

namespace BackwardInduction

section Lists

variable {β γ δ ε : Type}

/-- The items correspond to those of the other list, in some order. -/
def Rearranges (A : β → γ → Prop) (xs : List β) (ys : List γ) : Prop :=
  ∃ zs, List.Forall₂ A xs zs ∧ zs.Perm ys

namespace Rearranges

variable {A : β → γ → Prop} {xs : List β} {ys : List γ}

theorem of_perm {A : β → β → Prop} (hA : ∀ x, A x x) {xs ys : List β} (h : xs.Perm ys) :
    Rearranges A xs ys :=
  ⟨xs, List.forall₂_same.mpr fun x _ => hA x, h⟩

theorem exists_of_mem (h : Rearranges A xs ys) {y : γ} (hy : y ∈ ys) : ∃ x ∈ xs, A x y := by
  obtain ⟨zs, hzs, perm⟩ := h
  exact exists_of_forall₂ hzs (perm.mem_iff.mpr hy)

/-- What corresponds to the items of the one list has a counterpart for those of the other. -/
theorem transfer {T : β → δ → Prop} {U : γ → ε → Prop} {B : δ → ε → Prop}
    (h : Rearranges A xs ys) (hTU : ∀ x y d, A x y → T x d → ∃ e, U y e ∧ B d e)
    {ds : List δ} (hds : List.Forall₂ T xs ds) :
    ∃ es, List.Forall₂ U ys es ∧ Rearranges B ds es := by
  obtain ⟨zs, hzs, perm⟩ := h
  -- first in the order of the one list, then in that of the other
  have paired : ∃ es, List.Forall₂ U zs es ∧ List.Forall₂ B ds es := by
    clear perm
    induction hzs generalizing ds with
    | nil =>
        cases hds
        exact ⟨[], .nil, .nil⟩
    | cons hxy _ ih =>
        cases hds with
        | cons hx hds =>
            obtain ⟨e, hy, he⟩ := hTU _ _ _ hxy hx
            obtain ⟨es, hes, hde⟩ := ih hds
            exact ⟨e :: es, .cons hy hes, .cons he hde⟩
  obtain ⟨es, hes, hde⟩ := paired
  obtain ⟨es', hes', perm'⟩ := List.perm_comp_forall₂ perm.symm hes
  exact ⟨es', hes', es, hde, perm'.symm⟩

theorem trans {B : γ → δ → Prop} {C : β → δ → Prop} (hC : ∀ x y z, A x y → B y z → C x z)
    {zs : List δ} (h : Rearranges A xs ys) (h' : Rearranges B ys zs) : Rearranges C xs zs := by
  obtain ⟨us, hus, perm⟩ := h
  obtain ⟨vs, hvs, perm'⟩ := h'
  obtain ⟨ws, hws, perm''⟩ := List.perm_comp_forall₂ perm hvs
  have through : List.Forall₂ C xs ws :=
    (exists_between_iff.mp ⟨us, hus, hws⟩).imp fun x z ⟨y, hxy, hyz⟩ => hC x y z hxy hyz
  exact ⟨ws, through, perm''.trans perm'⟩

theorem filterMap {B : δ → ε → Prop} {f : β → Option δ} {g : γ → Option ε}
    (h : Rearranges A xs ys) (hfg : ∀ x y, A x y → Option.Rel B (f x) (g y)) :
    Rearranges B (xs.filterMap f) (ys.filterMap g) := by
  obtain ⟨zs, hzs, perm⟩ := h
  exact ⟨zs.filterMap g, List.rel_filterMap (fun x z => hfg x z) hzs, perm.filterMap g⟩

theorem filter {p : β → Bool} {q : γ → Bool} (h : Rearranges A xs ys)
    (hpq : ∀ x y, A x y → p x = q y) : Rearranges A (xs.filter p) (ys.filter q) := by
  obtain ⟨zs, hzs, perm⟩ := h
  refine ⟨zs.filter q, List.rel_filter (fun x z hxz => ?_) hzs, perm.filter q⟩
  exact Bool.eq_iff_iff.mp (hpq x z hxz)

end Rearranges

end Lists

namespace Dict

variable {κ ν μ : Type}

theorem perm_keys_of_rearranges {S : ν → μ → Prop} {es : List (κ × ν)} {fs : List (κ × μ)}
    (h : Rearranges (Pairs S) es fs) : (es.map Prod.fst).Perm (fs.map Prod.fst) := by
  obtain ⟨zs, hzs, perm⟩ := h
  rw [← keys_of_pairs hzs]
  exact perm.map Prod.fst

/-- The same keys, in some order, over values that correspond. -/
def Alike (S : ν → μ → Prop) (d : Dict κ ν) (e : Dict κ μ) : Prop :=
  Rearranges (Pairs S) d.entries e.entries

namespace Alike

variable {S : ν → μ → Prop} {d : Dict κ ν} {e : Dict κ μ}

theorem mem_keys_iff (h : d.Alike S e) (k : κ) : k ∈ e.keys ↔ k ∈ d.keys :=
  (perm_keys_of_rearranges h).symm.mem_iff

theorem get? [DecidableEq κ] (h : d.Alike S e) (k : κ) : Option.Rel S (d.get? k) (e.get? k) := by
  obtain ⟨zs, hzs, perm⟩ := h
  let between : Dict κ μ := ⟨zs, (keys_of_pairs hzs).symm ▸ d.nodup⟩
  have found : between.get? k = e.get? k := get?_of_perm perm k
  rw [← found]
  exact lookup_of_pairs hzs k

theorem all {P : ν → Prop} {Q : μ → Prop} (hPQ : ∀ v w, P v → S v w → Q w) (h : d.Alike S e)
    (hd : d.All P) : e.All Q := by
  intro y hy
  obtain ⟨x, hx, _, hxy⟩ := h.exists_of_mem hy
  exact hPQ _ _ (hd x hx) hxy

/-- With equal values the entries are the same, in some order. -/
theorem perm {d e : Dict κ ν} (h : d.Alike Eq e) : d.entries.Perm e.entries := by
  obtain ⟨zs, hzs, perm⟩ := h
  have same : List.Forall₂ Eq d.entries zs := hzs.imp fun x y hxy => Prod.ext hxy.1 hxy.2
  rw [List.forall₂_eq_eq_eq] at same
  rwa [same]

end Alike

end Dict

namespace Value

variable {α : Type}

/-- The entries of mappings are put in another order, at any level. -/
inductive Shuffles : Value α → Value α → Prop
  | refl (v : Value α) : Shuffles v v
  | trans {u v w : Value α} (h : Shuffles u v) (h' : Shuffles v w) : Shuffles u w
  | perm {es fs : Entries α} (h : es.Perm fs) : Shuffles (.map es) (.map fs)
  | inside {v w : Value α} (es fs : Entries α) (k : Key α) (h : Shuffles v w) :
      Shuffles (.map (es ++ (k, v) :: fs)) (.map (es ++ (k, w) :: fs))
  | stationary {v w : Value α} (h : Shuffles v w) : Shuffles (.stationary v) (.stationary w)
  | stages {v w : Value α} (fallback : Value α) (h : Shuffles v w) :
      Shuffles (.timeVarying v fallback) (.timeVarying w fallback)
  | fallback {v w : Value α} (stages : Value α) (h : Shuffles v w) :
      Shuffles (.timeVarying stages v) (.timeVarying stages w)

theorem Shuffles.symm {v w : Value α} (h : v.Shuffles w) : w.Shuffles v := by
  induction h with
  | refl v => exact .refl v
  | trans _ _ ih ih' => exact ih'.trans ih
  | perm h => exact .perm h.symm
  | inside es fs k _ ih => exact .inside es fs k ih
  | stationary _ ih => exact .stationary ih
  | stages fallback _ ih => exact .stages fallback ih
  | fallback stages _ ih => exact .fallback stages ih

/-- What a value is shuffled to, by its form: mappings and models stay what they are, and all
else stays the same. -/
inductive Reordered : Value α → Value α → Prop
  | same (v : Value α) : Reordered v v
  | map {es fs : Entries α} (h : Rearranges (Dict.Pairs Shuffles) es fs) :
      Reordered (.map es) (.map fs)
  | stationary {v w : Value α} (h : v.Shuffles w) : Reordered (.stationary v) (.stationary w)
  | timeVarying {s s' f f' : Value α} (hs : s.Shuffles s') (hf : f.Shuffles f') :
      Reordered (.timeVarying s f) (.timeVarying s' f')

theorem pairs_shuffles_refl {κ : Type} (e : κ × Value α) : Dict.Pairs Shuffles e e :=
  ⟨rfl, .refl e.2⟩

theorem Reordered.trans {u v w : Value α} (h : Reordered u v) (h' : Reordered v w) :
    Reordered u w := by
  cases h with
  | same => exact h'
  | map h =>
      cases h' with
      | same => exact .map h
      | map h' =>
          exact .map (h.trans (fun _ _ _ hxy hyz => ⟨hxy.1.trans hyz.1, hxy.2.trans hyz.2⟩) h')
  | stationary h =>
      cases h' with
      | same => exact .stationary h
      | stationary h' => exact .stationary (h.trans h')
  | timeVarying hs hf =>
      cases h' with
      | same => exact .timeVarying hs hf
      | timeVarying hs' hf' => exact .timeVarying (hs.trans hs') (hf.trans hf')

theorem Shuffles.reordered {v w : Value α} (h : v.Shuffles w) : Reordered v w := by
  induction h with
  | refl v => exact .same v
  | trans _ _ ih ih' => exact ih.trans ih'
  | perm h => exact .map (.of_perm pairs_shuffles_refl h)
  | @inside v w es fs k h _ =>
      have others (es : Entries α) : List.Forall₂ (Dict.Pairs Shuffles) es es :=
        List.forall₂_same.mpr fun e _ => pairs_shuffles_refl e
      have here : Dict.Pairs Shuffles (k, v) (k, w) := ⟨rfl, h⟩
      exact .map ⟨_, List.rel_append (others es) (.cons here (others fs)), .refl _⟩
  | stationary h _ => exact .stationary h
  | stages fallback h _ => exact .timeVarying h (.refl fallback)
  | fallback stages h _ => exact .timeVarying (.refl stages) h

theorem Shuffles.exists_map {es : Entries α} {w : Value α} (h : (Value.map es).Shuffles w) :
    ∃ fs, w = .map fs ∧ Rearranges (Dict.Pairs Shuffles) es fs := by
  cases h.reordered with
  | same => exact ⟨es, rfl, .of_perm pairs_shuffles_refl (.refl es)⟩
  | map hfs => exact ⟨_, rfl, hfs⟩

theorem Shuffles.exists_stationary {v w : Value α} (h : (Value.stationary v).Shuffles w) :
    ∃ v', w = .stationary v' ∧ v.Shuffles v' := by
  cases h.reordered with
  | same => exact ⟨v, rfl, .refl v⟩
  | stationary hv => exact ⟨_, rfl, hv⟩

theorem Shuffles.exists_timeVarying {stages fallback w : Value α}
    (h : (Value.timeVarying stages fallback).Shuffles w) :
    ∃ stages' fallback', w = .timeVarying stages' fallback' ∧ stages.Shuffles stages' ∧
      fallback.Shuffles fallback' := by
  cases h.reordered with
  | same => exact ⟨stages, fallback, rfl, .refl stages, .refl fallback⟩
  | timeVarying hs hf => exact ⟨_, _, rfl, hs, hf⟩

/-- A mapping under texts is shuffled to one. -/
theorem Shuffles.exists_dict {raw : Dict String (Value α)} {w : Value α}
    (h : (Value.map raw.toEntries).Shuffles w) :
    ∃ raw' : Dict String (Value α), w = .map raw'.toEntries ∧ raw.Alike Shuffles raw' := by
  obtain ⟨fs, rfl, hfs⟩ := h.exists_map
  -- the texts of the keys go along with the entries
  have texts : List.Forall₂ (fun x e => x = (Key.text e.1, e.2)) raw.toEntries raw.entries := by
    rw [Dict.toEntries, List.forall₂_map_left_iff, List.forall₂_same]
    exact fun _ _ => rfl
  obtain ⟨es, hes, alike⟩ := hfs.transfer (U := fun y e => y = (Key.text e.1, e.2))
    (B := Dict.Pairs Shuffles)
    (by
      rintro _ y e ⟨hkey, hvalue⟩ rfl
      exact ⟨(e.1, y.2), Prod.ext hkey.symm rfl, rfl, hvalue⟩) texts
  have entries : fs = es.map fun e => (Key.text e.1, e.2) := by
    rw [← List.forall₂_eq_eq_eq, List.forall₂_map_right_iff]
    exact hes
  have nodup : (es.map Prod.fst).Nodup :=
    (Dict.perm_keys_of_rearranges alike).nodup_iff.mp raw.nodup
  exact ⟨⟨es, nodup⟩, congrArg Value.map entries, alike⟩

theorem Decoded.of_shuffles {v w : Value α} (hv : v.Decoded) (h : v.Shuffles w) : w.Decoded := by
  induction hv generalizing w with
  | map _ ih =>
      obtain ⟨raw', rfl, alike⟩ := h.exists_dict
      refine .map fun y hy => ?_
      obtain ⟨x, hx, _, hxy⟩ := alike.exists_of_mem hy
      exact ih x hx hxy
  | null =>
      cases h.reordered
      exact .null
  | bool b =>
      cases h.reordered
      exact .bool b
  | number n =>
      cases h.reordered
      exact .number n
  | text s =>
      cases h.reordered
      exact .text s
  | list items =>
      cases h.reordered
      exact .list items

end Value

section Reading

variable {α β κ : Type} {R : Value α → β → Prop} {S : β → β → Prop}

/-- Of a shuffled value there is something as well, and it corresponds. -/
def Transfers (R : Value α → β → Prop) (S : β → β → Prop) : Prop :=
  ∀ v w b, v.Shuffles w → R v b → ∃ c, R w c ∧ S b c

/-- What is under the keys of the one list has a counterpart under those of the other. -/
theorem Transfers.exists_pairs (ht : Transfers R S) {es fs : List (κ × Value α)}
    (h : Rearranges (Dict.Pairs Value.Shuffles) es fs) {d : Dict κ β}
    (hd : List.Forall₂ (Dict.Pairs R) es d.entries) :
    ∃ e : Dict κ β, List.Forall₂ (Dict.Pairs R) fs e.entries ∧ d.Alike S e := by
  obtain ⟨bs, hbs, alike⟩ := h.transfer (U := Dict.Pairs R) (B := Dict.Pairs S)
    (fun x y b hxy hb => by
      obtain ⟨c, hc, hbc⟩ := ht _ _ _ hxy.2 hb.2
      exact ⟨(y.1, c), ⟨rfl, hc⟩, hb.1.symm.trans hxy.1, hbc⟩) hd
  have nodup : (bs.map Prod.fst).Nodup :=
    (Dict.perm_keys_of_rearranges alike).nodup_iff.mp d.nodup
  exact ⟨⟨bs, nodup⟩, hbs, alike⟩

theorem Transfers.holds (ht : Transfers R S) : Transfers (Value.Holds R) (Dict.Alike S) := by
  rintro _ w d h ⟨raw, rfl, hd⟩
  obtain ⟨raw', rfl, alike⟩ := h.exists_dict
  obtain ⟨e, he, hde⟩ := ht.exists_pairs alike hd
  exact ⟨e, ⟨raw', rfl, he⟩, hde⟩

variable [Scalar α]

/-- What denotes a number has no entries to shuffle. -/
theorem Value.Denotes.eq_of_shuffles {v w : Value α} {x : α} (hv : v.Denotes x)
    (h : v.Shuffles w) : w = v := by
  cases hv <;>
    · cases h.reordered
      rfl

theorem transfers_amount : Transfers (α := α) Value.Amount Eq := by
  intro v w x h hx
  rw [hx.1.eq_of_shuffles h]
  exact ⟨x, hx, rfl⟩

theorem transfers_weight : Transfers (α := α) Value.Weight Eq := by
  intro v w x h hx
  rw [hx.1.eq_of_shuffles h]
  exact ⟨x, hx, rfl⟩

end Reading

end BackwardInduction
