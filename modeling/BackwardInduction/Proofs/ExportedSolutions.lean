import BackwardInduction.Proofs.CellInvariants
import BackwardInduction.Proofs.DecodedTables
import BackwardInduction.Proofs.JsonNumbers
import BackwardInduction.Proofs.LeastCandidates
import BackwardInduction.Proofs.StageTables

/-!
Solutions that are written to a file and read back. No value of a solution fails to be a
number: terminal values are read as finite ones, and a choice is below infinity or is infinity
itself. So the exported tables are legible as soon as finite doubles are, and what is read
from the file is the exported value again, which has the entries of every stage in their order.
-/

namespace BackwardInduction

section Numbers

variable {α : Type} [Scalar α]

theorem least_not_isNaN [OrderedScalar α]
    (htop : ∀ top : α, Scalar.infinity? = some top → Scalar.isNaN top = false)
    {cs : List (String × α)} (hne : cs ≠ []) : Scalar.isNaN (least cs).2 = false := by
  rcases least_cases hne with found | ⟨_, _, top⟩
  · have least := List.find?_some found
    exact Scalar.not_isNaN_of_belowInfinity ((isLeast_iff _ _).mp least).1
  · exact htop _ top

/-- What holds of all terminal values and of every choice holds of the values of all stages. -/
theorem Process.all_valuesFrom {p : Process α} {P : α → Prop}
    (hchoice : ∀ stage state next, P (p.choice stage state next).2) {final : Values α}
    (hfinal : final.All P) (left stage : Nat) : (p.valuesFrom final left stage).All P := by
  cases left with
  | zero => exact hfinal
  | succ left =>
      rw [valuesFrom, backup_values]
      exact Dict.all_ofKeys fun state _ => hchoice stage state _

theorem Solution.all_terminal {P : α → Prop} (hzero : P 0) {salvage : Dict String α}
    (h : salvage.All P) (states : List String) : (terminal states salvage).All P := by
  refine Dict.all_ofKeys fun state _ => ?_
  rcases salvage.getD_cases state 0 with hmem | heq
  · exact h _ hmem
  · rw [heq]
    exact hzero

end Numbers

namespace Json

variable {α : Type} [Scalar α]

theorem getLast?_block (opening closing : Char) (depth : Nat) (parts : List (List Char)) :
    (block opening closing depth parts).getLast? = some closing := by
  cases parts with
  | nil => rfl
  | cons p ps => rw [block, List.getLast?_concat]

/-- The text of a mapping ends with one line feed, behind the closing bracket. -/
theorem fileText_map (entries : Entries α) :
    ∃ body, (fileText (.map entries)).toList = body ++ ['\n'] ∧ body.getLast? ≠ some '\n' := by
  refine ⟨writeValue 0 (.map entries), String.toList_ofList, ?_⟩
  rw [writeValue, getLast?_block]
  decide

end Json

namespace Solution

variable {α : Type} [Scalar α]

/-- The value is the document of the solution. It has a list under `V` and one under `policy`, with
a mapping for every stage, whose entries are the values or the decisions of the stage in their
order. -/
def IsExportedAs (s : Solution α) (v : Value α) : Prop :=
  ∃ values policy, v = .map [(.text "V", .list values), (.text "policy", .list policy)] ∧
    List.Forall₂ (Value.Holds fun v x => v = .number (.real x)) values s.values ∧
    List.Forall₂ (Value.Holds fun v action => v = .text action) policy s.policy

omit [Scalar α] in
theorem isExportedAs_toValue (s : Solution α) : s.IsExportedAs s.toValue := by
  refine ⟨_, _, rfl, ?_, ?_⟩
  · rw [List.forall₂_map_left_iff, List.forall₂_same]
    exact fun d _ => Value.holds_toValue (f := scalarValue) (fun _ => rfl) d
  · rw [List.forall₂_map_left_iff, List.forall₂_same]
    exact fun d _ => Value.holds_toValue (f := Value.text) (fun _ => rfl) d

theorem legible_toValue {s : Solution α}
    (h : ∀ v ∈ s.values, v.All fun x => (Number.real x).Legible) : s.toValue.Legible := by
  have values : (Value.list (s.values.map (Dict.toValue scalarValue))).Legible :=
    .list (List.forall_mem_map.mpr fun v hv =>
      Value.legible_toValue fun e he => .number (h v hv e he))
  have policy : (Value.list (s.policy.map policyValue) : Value α).Legible :=
    .list (List.forall_mem_map.mpr fun d _ => Value.legible_toValue fun e _ => .text e.2)
  have whole : s.toValue = .map (Dict.toEntries (.ofList
      [("V", .list (s.values.map (Dict.toValue scalarValue))),
        ("policy", .list (s.policy.map policyValue))])) :=
    rfl
  rw [whole]
  exact .map (Dict.all_ofList
    (List.forall_mem_cons.mpr ⟨values, List.forall_mem_singleton.mpr policy⟩))

theorem values_not_isNaN {inst : Instance Float} {s : Solution Float}
    (h : (solve inst).result = .ok s) :
    ∀ v ∈ s.values, v.All fun x => x.isNaN = false := by
  obtain ⟨final, prepares, tabulates⟩ := solve_spec h
  have terminal : final.All fun x => x.isNaN = false := by
    obtain ⟨salvage, hread, rfl⟩ := prepares.final_eq
    have read : salvage.All fun x => x.isNaN = false := all_readSalvage (fun place v x hx =>
      Binary64.not_isNaN_of_isFinite ((readNumber_eq_ok_iff place v x).mp hx).2) hread
    exact all_terminal (P := fun x : Float => x.isNaN = false) rfl read inst.states
  have choice (stage : Nat) (state : String) (next : Values Float) :
      (s.choice stage state next).2.isNaN = false := by
    have top (top : Float) (htop : Scalar.infinity? = some top) : Scalar.isNaN top = false := by
      cases htop
      rfl
    refine least_not_isNaN top ?_
    rw [ne_eq, Process.candidates, List.map_eq_nil_iff]
    exact prepares.actions_ne
  intro v hv
  rw [tabulates.values_eq] at hv
  obtain ⟨t, _, rfl⟩ := List.mem_map.mp hv
  exact Process.all_valuesFrom choice terminal _ t

/-- The exported solution is read back exactly, infinities included: its text is ASCII, ends
with one line feed, and is the text of a document that has the values and the decisions of every
stage. Of finite values it is assumed that their texts read back as them. -/
theorem solve_exported (inst : Instance Float) (s : Solution Float)
    (h : (solve inst).result = .ok s)
    (reads : ∀ v ∈ s.values, v.All fun x =>
      x.isFinite = true → Scalar.ofText? (Scalar.text x) = some x) :
    (∀ c ∈ (Json.fileText s.toValue).toList, c.toNat < 128) ∧
      (∃ body, (Json.fileText s.toValue).toList = body ++ ['\n'] ∧
        body.getLast? ≠ some '\n') ∧
      (∀ v ∈ s.values, v.All fun x => x.isNaN = false) ∧
      (∀ fallback, Json.document (some (Json.fileText s.toValue)) fallback = .ok s.toValue) ∧
      s.IsExportedAs s.toValue := by
  have numbers := values_not_isNaN h
  have legible : s.toValue.Legible := legible_toValue fun v hv e he =>
    Binary64.legible (numbers v hv e he) (reads v hv e he)
  exact ⟨Json.fileText_ascii legible, Json.fileText_map _, numbers,
    Json.document_fileText legible, s.isExportedAs_toValue⟩

end Solution

/-- Names with quotes, backslashes, control characters and characters beyond ASCII; one value is
a negative fraction and one is infinite. -/
def quotedInstance : Instance Float where
  states := ["\"A\\\n", "é😀"]
  actions := ["\t", "\x01'"]
  horizon := .number (.whole 1)
  costs := .stationary (.map
    [ Value.entry "\"A\\\n" (.map [ Value.entry "\x01'" (.number (.real (-0.1))) ]),
      Value.entry "é😀" (.map
        [ Value.entry "\t" (.number (.real 1.7e308)),
          Value.entry "\x01'" (.number (.real 1.7e308)) ]) ])
  transitions := .stationary (.map
    [ Value.entry "é😀" (.map
        [ Value.entry "\t" (.map [ Value.entry "é😀" (.number (.whole 1)) ]),
          Value.entry "\x01'" (.map [ Value.entry "é😀" (.number (.whole 1)) ]) ]) ])
  salvage := .map [ Value.entry "é😀" (.number (.real 1.7e308)) ]

theorem quotedInstance_exported :
    ∃ s, (Solution.solve quotedInstance).result = .ok s ∧
      (∀ v ∈ s.values, ∀ e ∈ v.entries,
        e.2.isFinite = true → Scalar.ofText? (Scalar.text e.2) = some e.2) ∧
      s.values.map Dict.entries =
        [[("\"A\\\n", -0.1), ("é😀", Binary64.infinity)], [("\"A\\\n", 0), ("é😀", 1.7e308)]] ∧
      (∀ c ∈ (Json.fileText s.toValue).toList, c.toNat < 128) ∧
      (∀ fallback, Json.document (some (Json.fileText s.toValue)) fallback = .ok s.toValue) ∧
      s.IsExportedAs s.toValue := by
  obtain ⟨s, hs, shape⟩ := exists_ok_of_map_toOption
    (x := (Solution.solve quotedInstance).result) (f := fun s => s.values.map Dict.entries)
    (c := [[("\"A\\\n", -0.1), ("é😀", Binary64.infinity)], [("\"A\\\n", 0), ("é😀", 1.7e308)]])
    (by decide +kernel)
  have reads : ∀ v ∈ s.values, ∀ e ∈ v.entries,
      e.2.isFinite = true → Scalar.ofText? (Scalar.text e.2) = some e.2 := by
    have all : ∀ es ∈ s.values.map Dict.entries, ∀ e ∈ es,
        e.2.isFinite = true → Scalar.ofText? (Scalar.text e.2) = some e.2 := by
      rw [shape]
      decide +kernel
    exact List.forall_mem_map.mp all
  obtain ⟨ascii, _, _, document, exported⟩ := Solution.solve_exported quotedInstance s hs reads
  exact ⟨s, hs, reads, shape, ascii, document, exported⟩

end BackwardInduction
