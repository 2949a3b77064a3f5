/-!
Finite maps that remember the order in which their keys came. A key that is
written again keeps its place and takes the new value.
-/

namespace BackwardInduction

structure Dict (κ ν : Type) where
  entries : List (κ × ν)
  nodup : (entries.map Prod.fst).Nodup

namespace Dict

variable {κ ν μ : Type}

@[ext]
theorem ext {d e : Dict κ ν} (h : d.entries = e.entries) : d = e := by
  cases d; cases e; cases h; rfl

instance [DecidableEq κ] [DecidableEq ν] : DecidableEq (Dict κ ν) := fun d e =>
  decidable_of_iff (d.entries = e.entries) ⟨ext, fun h => h ▸ rfl⟩

def empty : Dict κ ν :=
  ⟨[], List.nodup_nil⟩

instance : EmptyCollection (Dict κ ν) :=
  ⟨empty⟩

instance : Inhabited (Dict κ ν) :=
  ⟨empty⟩

def keys (d : Dict κ ν) : List κ :=
  d.entries.map Prod.fst

def values (d : Dict κ ν) : List ν :=
  d.entries.map Prod.snd

def size (d : Dict κ ν) : Nat :=
  d.entries.length

def isEmpty (d : Dict κ ν) : Bool :=
  d.entries.isEmpty

def mapValues (f : κ → ν → μ) (d : Dict κ ν) : Dict κ μ where
  entries := d.entries.map fun e => (e.1, f e.1 e.2)
  nodup := by simpa [List.map_map, Function.comp_def] using d.nodup

theorem keys_mapValues (f : κ → ν → μ) (d : Dict κ ν) : (d.mapValues f).keys = d.keys := by
  simp [keys, mapValues, Function.comp_def]

section Search

variable [DecidableEq κ]

def get? (d : Dict κ ν) (k : κ) : Option ν :=
  d.entries.lookup k

def getD (d : Dict κ ν) (k : κ) (default : ν) : ν :=
  (d.get? k).getD default

def contains (d : Dict κ ν) (k : κ) : Bool :=
  d.keys.contains k

/-- The entries with the value under `k` replaced, or with `k` added at the end. -/
def write (k : κ) (v : ν) : List (κ × ν) → List (κ × ν)
  | [] => [(k, v)]
  | e :: es => if e.1 = k then (k, v) :: es else e :: write k v es

theorem keys_write (k : κ) (v : ν) (es : List (κ × ν)) :
    (write k v es).map Prod.fst =
      if k ∈ es.map Prod.fst then es.map Prod.fst else es.map Prod.fst ++ [k] := by
  induction es with
  | nil => rfl
  | cons e es ih =>
      by_cases h : e.1 = k
      · simp [write, h]
      · have h' : ¬ k = e.1 := fun he => h he.symm
        simp only [write, h, if_false, List.map_cons, ih, List.mem_cons, h', false_or]
        split <;> simp

theorem nodup_write {k : κ} {v : ν} {es : List (κ × ν)} (h : (es.map Prod.fst).Nodup) :
    ((write k v es).map Prod.fst).Nodup := by
  rw [keys_write]
  split
  · exact h
  · rename_i hk
    rw [List.nodup_append]
    refine ⟨h, List.pairwise_singleton _ k, ?_⟩
    intro a ha b hb
    rw [List.mem_singleton.1 hb]
    exact fun hab => hk (hab ▸ ha)

def insert (d : Dict κ ν) (k : κ) (v : ν) : Dict κ ν :=
  ⟨write k v d.entries, nodup_write d.nodup⟩

/-- Entries written one after another. -/
def ofList (es : List (κ × ν)) : Dict κ ν :=
  es.foldl (fun d e => d.insert e.1 e.2) ∅

/-- The map that takes each key of the list to its image. -/
def ofKeys (ks : List κ) (f : κ → ν) : Dict κ ν :=
  ofList (ks.map fun k => (k, f k))

/-- The entries of `e` written over those of `d`. -/
def update (d e : Dict κ ν) : Dict κ ν :=
  e.entries.foldl (fun d e => d.insert e.1 e.2) d

end Search

/-- The entries in the order of their keys. -/
def sortByKey (le : κ → κ → Bool) (d : Dict κ ν) : Dict κ ν where
  entries := d.entries.mergeSort fun a b => le a.1 b.1
  nodup := ((List.mergeSort_perm d.entries _).map Prod.fst).nodup_iff.2 d.nodup

section Traverse

variable {m : Type → Type} [Monad m]

/-- Runs `f` on each entry in order and keeps the keys. -/
def traverseEntries (f : κ → ν → m μ) :
    (es : List (κ × ν)) → m { r : List (κ × μ) // r.map Prod.fst = es.map Prod.fst }
  | [] => pure ⟨[], rfl⟩
  | (k, v) :: es => do
      let x ← f k v
      let ⟨r, h⟩ ← traverseEntries f es
      pure ⟨(k, x) :: r, by simp [h]⟩

def traverse (f : κ → ν → m μ) (d : Dict κ ν) : m (Dict κ μ) := do
  let ⟨r, h⟩ ← traverseEntries f d.entries
  pure ⟨r, h ▸ d.nodup⟩

end Traverse

end Dict

end BackwardInduction
