import BackwardInduction.Proofs.Outcomes

/-!
What traced computations leave behind. The notices of a sequence are those of its
steps, as far as it comes; a traversal that succeeds leaves those of its entries, in
their order, and a computation that leaves none is its result.
-/

namespace BackwardInduction

namespace Traced

variable {α β γ : Type} {P : Notice α → Prop}

/-- Whatever is noted has the property. -/
def Notes (P : Notice α → Prop) (t : Traced α β) : Prop :=
  ∀ n ∈ t.notices, P n

theorem notes_pure (b : β) : Notes P (pure b) := by
  intro n hn
  cases hn

theorem notes_liftM (r : Except Fault β) : Notes P (liftM r : Traced α β) := by
  intro n hn
  cases hn

theorem notes_throw (e : Fault) : Notes P (throw e : Traced α β) := by
  intro n hn
  cases hn

/-- Nothing is noted behind a fault. -/
theorem notes_throw_bind (e : Fault) (f : β → Traced α γ) :
    Notes P ((throw e : Traced α β) >>= f) :=
  notes_throw e

theorem notes_note {n : Notice α} (h : P n) : Notes P (note n) := by
  intro n' hn
  rw [List.mem_singleton.mp hn]
  exact h

theorem notices_bind_of_ok {t : Traced α β} {b : β} (h : t.result = .ok b)
    (f : β → Traced α γ) : (t >>= f).notices = t.notices ++ (f b).notices := by
  change (bind t f).notices = _
  rw [bind, h]

theorem notices_bind_of_error {t : Traced α β} {e : Fault} (h : t.result = .error e)
    (f : β → Traced α γ) : (t >>= f).notices = t.notices := by
  change (bind t f).notices = _
  rw [bind, h]

theorem Notes.bind {t : Traced α β} {f : β → Traced α γ} (ht : t.Notes P)
    (hf : ∀ b, (f b).Notes P) : (t >>= f).Notes P := by
  cases h : t.result with
  | error e =>
      rw [Notes, notices_bind_of_error h]
      exact ht
  | ok b =>
      rw [Notes, notices_bind_of_ok h, List.forall_mem_append]
      exact ⟨ht, hf b⟩

theorem Notes.foldlM {f : β → γ → Traced α β} (hf : ∀ b e, (f b e).Notes P) (es : List γ)
    (b : β) : (es.foldlM f b).Notes P := by
  induction es generalizing b with
  | nil => exact notes_pure b
  | cons e es ih =>
      rw [List.foldlM_cons]
      exact (hf b e).bind ih

/-- A computation that notes nothing is its result. -/
theorem eq_ofResult {t : Traced α β} (h : t.Notes fun _ => False) : t = ofResult t.result := by
  obtain ⟨notices, result⟩ := t
  have none : notices = [] := List.eq_nil_iff_forall_not_mem.mpr h
  rw [none]
  rfl

/-- The notices that are warnings. -/
def warnings (t : Traced α β) : List (Notice α) :=
  t.notices.filter fun n => n.level = .warning

theorem warnings_bind_of_ok {t : Traced α β} {b : β} (h : t.result = .ok b)
    (f : β → Traced α γ) : (t >>= f).warnings = t.warnings ++ (f b).warnings := by
  rw [warnings, notices_bind_of_ok h, List.filter_append]
  rfl

theorem warnings_of_notes {t : Traced α β} (h : t.Notes fun n => n.level = .debug) :
    t.warnings = [] := by
  refine List.filter_eq_nil_iff.mpr fun n hn => ?_
  simp [h n hn]

end Traced

namespace Dict

variable {α κ ν μ : Type} {f : κ → ν → Traced α μ}

theorem notices_traverseEntries {es : List (κ × ν)}
    {r : { r : List (κ × μ) // r.map Prod.fst = es.map Prod.fst }}
    (h : (traverseEntries f es).result = .ok r) :
    (traverseEntries f es).notices = es.flatMap fun e => (f e.1 e.2).notices := by
  induction es with
  | nil => rfl
  | cons e es ih =>
      obtain ⟨k, v⟩ := e
      rw [traverseEntries, Traced.result_bind, bind_eq_ok_iff] at h
      obtain ⟨x, hx, h⟩ := h
      rw [Traced.result_bind, bind_eq_ok_iff] at h
      obtain ⟨r, hr, _⟩ := h
      rw [traverseEntries, Traced.notices_bind_of_ok hx, Traced.notices_bind_of_ok hr, ih hr,
        List.flatMap_cons]
      simp [pure, Traced.ok]

/-- A traversal that succeeds leaves the notices of its entries. -/
theorem notices_traverse {d : Dict κ ν} {e : Dict κ μ} (h : (d.traverse f).result = .ok e) :
    (d.traverse f).notices = d.entries.flatMap fun e => (f e.1 e.2).notices := by
  rw [traverse, Traced.result_bind, bind_eq_ok_iff] at h
  obtain ⟨r, hr, _⟩ := h
  rw [traverse, Traced.notices_bind_of_ok hr, notices_traverseEntries hr]
  simp [pure, Traced.ok]

end Dict

end BackwardInduction
