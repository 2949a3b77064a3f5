import BackwardInduction.Proofs.InstanceRequirements
import BackwardInduction.Proofs.KeptEntries
import BackwardInduction.Proofs.StageGrammar

/-!
Stages are told apart. The layers of a raw model are those of the keys that name a stage, one
for each of them and in their order, and two keys for one stage, however they are written, are
refused. The keys of a plain model are all read before they are compared, so that a key beyond
the digit limit is reported instead, wherever it stands; those of a marked model are read and
compared one after another.
-/

namespace BackwardInduction

variable {α β γ : Type}

section Statement

/-- The layers are the values of the keys that name a stage, in their order, and each of them is
that of one key alone. -/
structure Layered (entries : Entries α) (layers : Dict Nat (Value α)) : Prop where
  in_order : List.Forall₂ (fun e layer => e.1.IsStage layer.1 ∧ e.2 = layer.2)
    (entries.filter fun e => ∃ n, e.1.IsStage n) layers.entries
  one_key : ∀ layer ∈ layers.entries, ∃! e, e ∈ entries ∧ e.1.IsStage layer.1

/-- The key of the entry names the stage of one that stands in front of it. -/
def RepeatsStage (front : Entries α) (e : Key α × Value α) : Prop :=
  ∃ e' ∈ front, ∃ n, e'.1.IsStage n ∧ e.1.IsStage n

/-- No key is a whole number beyond the digit limit: such a number has no text, so that no
message can name it and it cannot be compared with the states. -/
def Entries.NumbersWithin (entries : Entries α) : Prop :=
  ∀ e ∈ entries, ∀ i, e.1 = .number (.whole i) → i.natAbs < stageBound

/-- The fault tells of a key among the entries that is a stage beyond the digit limit. -/
def Fault.IsOverlongIn (entries : Entries α) (fault : Fault) : Prop :=
  ∃ s v digits, (.text s, v) ∈ entries ∧ Text.IsLongStage s digits ∧
    fault = .tooManyDigits digits

/-- The outcome is a fault of one of the kinds, or else that of a key beyond the digit limit. -/
def Refuses (kinds : List Fault.Kind) (entries : Entries α) (outcome : Except Fault γ) : Prop :=
  ∃ fault, outcome = .error fault ∧ (fault.kind ∈ kinds ∨ fault.IsOverlongIn entries)

end Statement

theorem isOverlongIn_of_stage_error {entries : Entries α} {e : Key α × Value α}
    (he : e ∈ entries) {fault : Fault} (h : e.1.stage = .error fault) :
    fault.IsOverlongIn entries := by
  obtain ⟨key, v⟩ := e
  obtain ⟨s, digits, rfl, hfault, hlong⟩ := Key.stage_error h
  exact ⟨s, v, digits, he, hlong, hfault⟩

namespace CellReader

section Layers

/-- Every key is read, and the layers are named by those that name a stage. -/
structure NamesLayers (entries : Entries α) (layers : Dict Nat (Value α)) : Prop where
  read : ∀ e ∈ entries, ∃ stage?, e.1.stage = .ok stage?
  names : List.Forall₂ NamesLayer (entries.filter fun e => ∃ n, e.1.IsStage n) layers.entries

variable {entries : Entries α} {layers : Dict Nat (Value α)}

theorem NamesLayers.isStage_iff (h : NamesLayers entries layers) {e : Key α × Value α}
    (he : e ∈ entries) (n : Nat) : e.1.IsStage n ↔ e.1.stage = .ok (some n) := by
  obtain ⟨stage?, hstage⟩ := h.read e he
  rw [Key.isStage_iff_of_ok hstage, hstage, Except.ok.injEq]

theorem NamesLayers.nodup (h : NamesLayers entries layers) :
    ((entries.filter fun e => ∃ n, e.1.IsStage n).map fun e => e.1.stage).Nodup :=
  nodup_stages (h.names.imp fun _ _ h => h.1) layers.nodup

theorem NamesLayers.layered (h : NamesLayers entries layers) : Layered entries layers where
  in_order := h.names.imp fun _ _ hname =>
    ⟨(Key.isStage_iff_of_ok hname.1 _).mpr rfl, hname.2.symm⟩
  one_key := by
    intro layer hlayer
    obtain ⟨e, he, hname⟩ := exists_of_forall₂ h.names hlayer
    have mem := List.mem_of_mem_filter he
    have named := (h.isStage_iff mem layer.1).mpr hname.1
    refine ⟨e, ⟨mem, named⟩, fun e' ⟨mem', named'⟩ => ?_⟩
    have he' : e' ∈ entries.filter fun e => ∃ n, e.1.IsStage n :=
      List.mem_filter.mpr ⟨mem', decide_eq_true ⟨_, named'⟩⟩
    have same := ((h.isStage_iff mem' layer.1).mp named').trans hname.1.symm
    exact List.inj_on_of_nodup_map h.nodup he' he same

/-- Where layers are named, no key names the stage of another. -/
theorem NamesLayers.not_repeatsStage {front back : Entries α} {e : Key α × Value α}
    (h : NamesLayers (front ++ e :: back) layers) : ¬RepeatsStage front e := by
  rintro ⟨e', he', n, hn', hn⟩
  have mem' : e' ∈ front ++ e :: back := List.mem_append_left _ he'
  have mem : e ∈ front ++ e :: back := by simp
  have same := ((h.isStage_iff mem' n).mp hn').trans ((h.isStage_iff mem n).mp hn).symm
  have nodup := h.nodup
  rw [List.filter_append, List.map_append, List.nodup_append] at nodup
  have before : e' ∈ front.filter fun e => ∃ n, e.1.IsStage n :=
    List.mem_filter.mpr ⟨he', decide_eq_true ⟨n, hn'⟩⟩
  have behind : e ∈ (e :: back).filter fun e => ∃ n, e.1.IsStage n :=
    List.mem_filter.mpr ⟨List.mem_cons_self, decide_eq_true ⟨n, hn⟩⟩
  exact nodup.2.2 _ (List.mem_map_of_mem before) _ (List.mem_map_of_mem behind) same

variable [Scalar α] {r : CellReader α β}

theorem namesLayers_of_markedLayers (h : r.markedLayers (.map entries) = .ok layers) :
    (∀ e ∈ entries, ∃ n, e.1.IsStage n) ∧ NamesLayers entries layers := by
  rw [markedLayers_map, addMarkeds_eq_ok_iff] at h
  obtain ⟨es, hes, heq⟩ := h
  rw [Dict.entries_empty, List.nil_append] at heq
  rw [← heq] at hes
  have named (e : Key α × Value α) (he : e ∈ entries) : ∃ n, e.1.stage = .ok (some n) := by
    obtain ⟨layer, hlayer⟩ := (exists_forall₂_iff entries).mp ⟨_, hes⟩ e he
    exact ⟨layer.1, hlayer.1⟩
  have stages (e : Key α × Value α) (he : e ∈ entries) : ∃ n, e.1.IsStage n :=
    (named e he).imp fun n hn => (Key.isStage_iff_of_ok hn n).mpr rfl
  have all : entries.filter (fun e => ∃ n, e.1.IsStage n) = entries :=
    List.filter_eq_self.mpr fun e he => decide_eq_true (stages e he)
  refine ⟨stages, fun e he => (named e he).imp' some fun _ => id, ?_⟩
  rw [all]
  exact hes

theorem namesLayers_of_layers? {states : List String} {layout : Layout} {others : Entries α}
    (h : (r.layers? entries states layout).result = .ok (some (layers, others))) :
    NamesLayers entries layers := by
  have parts := (r.layers?_eq_ok_iff entries states layout _).mp h
  cases parts with
  | @parted _ _ keyed _ hlayout hkeyed _ _ _ hlayers =>
      have read (e : Key α × Value α) (he : e ∈ entries) : ∃ stage?, e.1.stage = .ok stage? :=
        (hkeyed.exists_stage he).imp fun _ => And.right
      refine ⟨read, ?_⟩
      have fixed : layout ≠ .stationary := by rcases hlayout with rfl | rfl <;> nofun
      have stages : (staged keyed).map Prod.snd = entries.filter fun e => ∃ n, e.1.IsStage n := by
        rw [filter_namesStage fixed hkeyed]
        refine List.filter_congr fun e he => ?_
        obtain ⟨stage?, hstage⟩ := read e he
        rw [namesStage_eq_isSome fixed hstage, Bool.eq_iff_iff, decide_eq_true_iff,
          Option.isSome_iff_exists]
        exact exists_congr fun n => (Key.isStage_iff_of_ok hstage n).symm
      rw [← stages, hlayers, List.forall₂_map_left_iff, List.forall₂_map_right_iff,
        List.forall₂_same]
      exact fun e he => ⟨(stage_of_mem_staged hkeyed he).2, rfl⟩

end Layers

section Refusal

variable [Scalar α] (r : CellReader α β) (states : List String)

/-- A plain model with a key beyond the digit limit is refused for such a key. -/
theorem refuses_overlong {entries : Entries α} {layout : Layout}
    (hlayout : layout = .auto ∨ layout = .timeVarying) {s : String} {v : Value α} {digits : Nat}
    (hentry : (.text s, v) ∈ entries) (hlong : Text.IsLongStage s digits) :
    Refuses [] entries (r.layers? entries states layout).result := by
  cases hstages : stagesOf entries with
  | ok keyed =>
      have hkeyed := (stagesOf_eq_ok_iff entries keyed).mp hstages
      obtain ⟨stage?, _, hstage⟩ := hkeyed.exists_stage hentry
      have read : stageOfText s = .ok stage? := hstage
      rw [stageOfText_of_isLongStage hlong] at read
      cases read
  | error fault =>
      obtain ⟨entry, he, hstage⟩ := exists_stage_error_of_stagesOf hstages
      refine ⟨fault, ?_, .inr (isOverlongIn_of_stage_error he hstage)⟩
      rcases hlayout with rfl | rfl
      · rw [result_layers?_auto, hstages]
        rfl
      · rw [result_layers?_timeVarying, hstages]
        rfl

variable {front : Entries α} {e : Key α × Value α} (h : RepeatsStage front e) (back : Entries α)
include h

theorem refuses_layers? {layout : Layout} (hlayout : layout = .auto ∨ layout = .timeVarying)
    {kinds : List Fault.Kind} (hmodel : .model ∈ kinds)
    (hambiguity : layout = .auto → .ambiguity ∈ kinds) :
    Refuses kinds (front ++ e :: back) (r.layers? (front ++ e :: back) states layout).result := by
  have known : layout.isKnown = true := by rcases hlayout with rfl | rfl <;> rfl
  have ends := ends_layers? (r := r) (front ++ e :: back) states known
  cases hread : (r.layers? (front ++ e :: back) states layout).result with
  | ok parts =>
      exfalso
      cases parts with
      | some parts => exact (namesLayers_of_layers? hread).not_repeatsStage h
      | none =>
          cases (r.layers?_eq_ok_iff _ states layout _).mp hread with
          | stationary => simp at hlayout
          | whole _ hkeyed _ hstaged =>
              obtain ⟨_, _, n, _, hn⟩ := h
              have unnamed := stage_of_staged_eq_nil hkeyed hstaged (e := e) (by simp)
              cases (Key.isStage_iff_of_ok unnamed n).mp hn
  | error fault =>
      rw [hread] at ends
      refine ⟨fault, rfl, ?_⟩
      cases ends with
      | malformed hkind => exact .inl (hkind ▸ hmodel)
      | ambiguous hauto _ _ hkind => exact .inl (hkind ▸ hambiguity hauto)
      | stage hentry hstage => exact .inr (isOverlongIn_of_stage_error hentry hstage)

theorem refuses_markedLayers :
    Refuses [.model] (front ++ [e]) (r.markedLayers (.map (front ++ e :: back))) := by
  have ends := ends_markedLayers (r := r) (front ++ [e])
  cases hread : r.markedLayers (.map (front ++ [e])) with
  | ok layers => exact absurd h (namesLayers_of_markedLayers hread).2.not_repeatsStage
  | error fault =>
      rw [hread] at ends
      refine ⟨fault, ?_, ?_⟩
      · rw [markedLayers_map] at hread ⊢
        rw [List.append_cons, List.foldlM_append, hread]
        rfl
      · rcases ends with hkind | ⟨entry, hentry, hstage⟩
        · exact .inl (List.mem_singleton.mpr hkind)
        · exact .inr (isOverlongIn_of_stage_error hentry hstage)

end Refusal

/-- Stage keys are told apart. A text within the digit limit is read as a stage exactly if it
spells it, as the decimal digits of a number do. The layers of a model are those of its stage
keys, one for each of them in their order, and the keys of a marked model are all stage keys. Two
keys for one stage are refused: as malformed or, with no layout given, maybe as ambiguous, unless
a key that is read before is a stage beyond the digit limit; and a plain model with such a key is
always refused for it. How the two are refused is said of keys that have a text, which whole
numbers beyond the digit limit do not. -/
theorem stages_told_apart [Scalar α] (r : CellReader α β) :
    (∀ s n, (Text.trim s).length ≤ Numeral.digitLimit →
      ((Key.text s : Key α).stage = .ok (some n) ↔ Text.SpellsStage s n)) ∧
    (∀ n : Nat, (toString n).length ≤ Numeral.digitLimit →
      (Key.text (toString n) : Key α).stage = .ok (some n)) ∧
    (∀ entries states layout layers others,
      (r.layers? entries states layout).result = .ok (some (layers, others)) →
        Layered entries layers) ∧
    (∀ entries layers, r.markedLayers (.map entries) = .ok layers →
      (∀ e ∈ entries, ∃ n, e.1.IsStage n) ∧ Layered entries layers) ∧
    (∀ front e back, RepeatsStage front e →
      (Entries.NumbersWithin (front ++ e :: back) → ∀ states,
        Refuses [.model, .ambiguity] (front ++ e :: back)
          (r.layers? (front ++ e :: back) states .auto).result ∧
        Refuses [.model] (front ++ e :: back)
          (r.layers? (front ++ e :: back) states .timeVarying).result) ∧
      (Entries.NumbersWithin (front ++ [e]) →
        Refuses [.model] (front ++ [e]) (r.markedLayers (.map (front ++ e :: back))))) ∧
    ∀ entries states layout, layout = .auto ∨ layout = .timeVarying →
      ∀ s v digits, (.text s, v) ∈ entries → Text.IsLongStage s digits →
        Refuses [] entries (r.layers? entries states layout).result := by
  have spelled (s : String) (n : Nat) (h : (Text.trim s).length ≤ Numeral.digitLimit) :
      (Key.text s : Key α).stage = .ok (some n) ↔ Text.SpellsStage s n := by
    obtain ⟨stage?, hstage⟩ := stageOfText_of_length_le h
    rw [spellsStage_iff_of_ok hstage, Key.stage, hstage, Except.ok.injEq]
  refine ⟨spelled, fun n hn => ?_, fun _ _ _ _ _ h => (namesLayers_of_layers? h).layered,
    fun _ _ h => (namesLayers_of_markedLayers h).imp_right NamesLayers.layered,
    fun _ _ back h =>
      ⟨fun _ states => ⟨r.refuses_layers? states h back (.inl rfl) (by simp) (by simp),
        r.refuses_layers? states h back (.inr rfl) (by simp) (by simp)⟩,
      fun _ => r.refuses_markedLayers h back⟩,
    fun _ states _ hlayout _ _ _ => r.refuses_overlong states hlayout⟩
  rw [spelled _ n (by rwa [trim_toString])]
  exact Text.spellsStage_toString n

/-- Stages under keys of two kinds, not in their order. -/
def spacedStages : Entries Float :=
  [(.text " 01\t", .null), (.number (.whole 0), .bool true)]

/-- The stage that is there already, under another key. -/
def repeatedStage : Key Float × Value Float :=
  (.number (.whole 1), .null)

/-- The ones that are just beyond the digit limit. -/
def longStage : String :=
  String.ofList (List.replicate (Numeral.digitLimit + 1) '1')

theorem isLongStage_longStage : Text.IsLongStage longStage (Numeral.digitLimit + 1) := by
  have ones : ∀ c ∈ longStage.toList, c = '1' := fun c hc => by
    rw [longStage, String.toList_ofList] at hc
    exact List.eq_of_mem_replicate hc
  have core : Text.strip Text.isBlank longStage.toList = longStage.toList :=
    Text.strip_eq_self fun c hc => by rw [ones c hc]; rfl
  refine ⟨?_, ?_, Nat.lt_succ_self _⟩
  · rw [core, longStage, String.toList_ofList, List.length_replicate]
  · intro c hc
    rw [core] at hc
    rw [ones c hc]
    rfl

theorem spacedStages_told_apart :
    ((Text.trim " 01\t").length ≤ Numeral.digitLimit ∧ Text.SpellsStage " 01\t" 1) ∧
    ((toString 12).length ≤ Numeral.digitLimit ∧
      (Key.text (toString 12) : Key Float).stage = .ok (some 12)) ∧
    (∃ layers others,
      (costCells.layers? (spacedStages ++ [(.text "A", .map [])]) ["A", "2"] .auto).result =
        .ok (some (layers, others)) ∧
      Layered (spacedStages ++ [(.text "A", .map [])]) layers ∧ layers.keys = [1, 0]) ∧
    (∃ layers, costCells.markedLayers (.map spacedStages) = .ok layers ∧
      Layered spacedStages layers ∧ layers.keys = [1, 0]) ∧
    (RepeatsStage spacedStages repeatedStage ∧
      Entries.NumbersWithin (spacedStages ++ [repeatedStage]) ∧
      Refuses [.model] (spacedStages ++ [repeatedStage])
        (costCells.layers? (spacedStages ++ [repeatedStage]) [] .timeVarying).result ∧
      Refuses [.model] (spacedStages ++ [repeatedStage])
        (costCells.markedLayers (.map (spacedStages ++ [repeatedStage])))) ∧
    Refuses [] (spacedStages ++ [repeatedStage, (.text longStage, .null)])
      (costCells.layers? (spacedStages ++ [repeatedStage, (.text longStage, .null)]) []
        .auto).result := by
  obtain ⟨spelled, written, layered, marked, repeated, overlong⟩ :=
    stages_told_apart (costCells (α := Float))
  have short : (Text.trim " 01\t").length ≤ Numeral.digitLimit := by decide +kernel
  have spaced : Text.SpellsStage " 01\t" 1 := (spelled _ 1 short).mp (by decide +kernel)
  have again : RepeatsStage spacedStages repeatedStage :=
    ⟨_, List.mem_cons_self, 1, .text spaced, .whole 1⟩
  have within : Entries.NumbersWithin (spacedStages ++ [repeatedStage]) := by
    have bound : 1 < stageBound := Nat.one_lt_pow (by decide) (by decide)
    simp only [Entries.NumbersWithin, spacedStages, repeatedStage, List.cons_append,
      List.nil_append, List.forall_mem_cons]
    refine ⟨by simp, fun i hi => ?_, fun i hi => ?_, by simp⟩
    · cases hi
      exact Nat.lt_of_succ_lt bound
    · cases hi
      exact bound
  obtain ⟨inPlain, inMarked⟩ := repeated spacedStages repeatedStage [] again
  refine ⟨⟨short, spaced⟩, ⟨by decide +kernel, written 12 (by decide +kernel)⟩, ?_, ?_,
    ⟨again, within, (inPlain within []).2, inMarked within⟩,
    overlong _ [] .auto (.inl rfl) longStage .null _ (by simp) isLongStage_longStage⟩
  · obtain ⟨_, hparts, found⟩ := exists_ok_of_map_toOption
      (x := (costCells.layers? (spacedStages ++ [(.text "A", .map [])]) ["A", "2"] .auto).result)
      (f := fun parts => parts.map fun parts => parts.1.keys) (c := some [1, 0])
      (by decide +kernel)
    obtain ⟨⟨layers, others⟩, rfl, keys⟩ := Option.map_eq_some_iff.mp found
    exact ⟨layers, others, hparts, layered _ _ _ _ _ hparts, keys⟩
  · obtain ⟨layers, hlayers, keys⟩ := exists_ok_of_map_toOption
      (x := costCells.markedLayers (.map spacedStages)) (f := fun layers => layers.keys)
      (c := [1, 0]) (by decide +kernel)
    exact ⟨layers, hlayers, (marked _ _ hlayers).2, keys⟩

end CellReader

end BackwardInduction
