import BackwardInduction.Proofs.Notices
import BackwardInduction.Proofs.StageParting
import BackwardInduction.Proofs.StageTables

/-!
What solving notes. Whatever is noted while models are read, and of the stages as they
are solved, is for debugging alone: the warnings of a run are those of normalization.
-/

namespace BackwardInduction

open Traced

variable {α β : Type} [Scalar α]

theorem notes_layers? (r : CellReader α β) (entries : Entries α) (states : List String)
    (layout : Layout) :
    (r.layers? entries states layout).Notes fun n => n.level = .debug := by
  have layers (staged : List (Nat × Key α × Value α)) (others : Entries α) :
      Notes (fun n => n.level = .debug) (do
        let layers ← staged.foldlM (fun layers e => r.addLayer layers e.1 e.2.2)
          (∅ : Dict Nat (Value α))
        return some (layers, others) : Traced α _) :=
    (Notes.foldlM (fun _ _ => notes_liftM _) staged ∅).bind fun _ => notes_pure _
  cases layout with
  | unknown name => exact notes_throw _
  | stationary => exact notes_pure _
  | auto =>
      rw [CellReader.layers?_auto]
      refine (notes_liftM _).bind fun keyed => ?_
      split
      · exact notes_pure _
      · split
        · exact notes_throw_bind _ _
        · refine Notes.bind ?_ fun _ => layers _ _
          exact notes_note rfl
  | timeVarying =>
      rw [CellReader.layers?_timeVarying]
      refine (notes_liftM _).bind fun keyed => ?_
      dsimp only
      split
      · exact notes_throw_bind _ _
      · split
        · exact notes_pure _
        · exact layers _ _

/-- Reading a model warns of nothing. -/
theorem notes_model (r : CellReader α β) (v : Value α) (states : List String)
    (layout : Layout) : (r.model v states layout).Notes fun n => n.level = .debug := by
  cases v with
  | stationary table => exact (notes_liftM _).bind fun _ => notes_pure _
  | timeVarying stages fallback =>
      refine (notes_liftM _).bind fun _ => (notes_liftM _).bind fun _ => ?_
      exact (notes_liftM _).bind fun _ => notes_pure _
  | null | bool _ | number _ | text _ | list _ | map _ =>
      refine (notes_liftM _).bind fun entries => (notes_layers? r _ _ _).bind fun parts => ?_
      cases parts with
      | none => exact (notes_liftM _).bind fun _ => notes_pure _
      | some parts =>
          refine (notes_liftM _).bind fun _ => ?_
          exact (notes_liftM _).bind fun _ => notes_pure _

/-- All that solving warns of is what normalization warns of. -/
theorem warnings_solve {inst : Instance α} {s : Solution α} {m : TransitionModel α}
    (h : (Solution.solve inst).result = .ok s)
    (hm : (readTransitions inst.transitions inst.states inst.layout).result = .ok m) :
    (Solution.solve inst).warnings = (m.normalize inst.states).warnings := by
  obtain ⟨final, prepares, _⟩ := Solution.solve_spec h
  obtain ⟨m', hm', normalized⟩ := prepares.transitions_eq
  obtain ⟨salvage, hsalvage, _⟩ := prepares.final_eq
  rw [hm, Except.ok.injEq] at hm'
  subst hm'
  have silent {β : Type} (r : Except Fault β) : (liftM r : Traced α β).warnings = [] := rfl
  have prepared : (Solution.prepare inst).warnings = (m.normalize inst.states).warnings := by
    obtain ⟨hs, ha, hT⟩ := prepares.checks
    rw [Solution.prepare, warnings_bind_of_ok (t := liftM _) hs,
      warnings_bind_of_ok (t := liftM _) ha, warnings_bind_of_ok (t := liftM _) hT,
      warnings_bind_of_ok (t := liftM _) prepares.discount_eq,
      warnings_bind_of_ok prepares.costs_eq, warnings_bind_of_ok hm,
      warnings_bind_of_ok normalized, warnings_bind_of_ok (t := liftM _) hsalvage, readCosts,
      readTransitions, warnings_of_notes (notes_model _ _ _ _),
      warnings_of_notes (notes_model _ _ _ _)]
    simp only [silent, List.nil_append]
    exact List.append_nil _
  have solved (p : Process α) (horizon : Nat) (terminal : Values α) :
      (do
        Traced.note (.solving p.states.length p.actions.length horizon p.discount)
        let tables := p.tables horizon terminal
        Traced.mk (Solution.stageNotices tables.1) (.ok ())
        return { p with values := tables.1, policy := tables.2 } :
          Traced α (Solution α)).warnings = [] := by
    refine warnings_of_notes ?_
    refine Notes.bind (notes_note rfl) fun _ => Notes.bind (fun n hn => ?_) fun _ => notes_pure _
    have stage := List.dropLast_subset _ (List.mem_reverse.mp hn)
    obtain ⟨_, _, rfl⟩ := List.mem_map.mp stage
    rfl
  rw [Solution.solve, warnings_bind_of_ok ((Solution.prepare_eq_ok_iff _ _ _ _).mpr prepares),
    prepared]
  exact (congrArg _ (solved _ _ _)).trans (List.append_nil _)

end BackwardInduction
