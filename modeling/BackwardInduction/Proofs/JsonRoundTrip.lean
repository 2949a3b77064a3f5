import BackwardInduction.Problem.Document
import BackwardInduction.Proofs.JsonTexts
import BackwardInduction.Proofs.JsonValues
import BackwardInduction.Proofs.Outcomes
import BackwardInduction.Proofs.StageTexts

/-!
Values that are written as JSON and read back. What is written of a value can be told from
what follows it, so that the reader takes just the value off the front of a text; lists and
objects are then read back item by item and member by member. Whatever is asked of numbers is
an assumption here: that each is written in ASCII, as something that reads back as it.
-/

namespace BackwardInduction

variable {α : Type}

namespace Json

/-- What follows a value within a written text. -/
def Delimited : List Char → Prop
  | c :: _ => c = ',' ∨ c = '\n'
  | [] => False

/-- Whether a word or a number may begin so: with no white space, and with nothing that opens
a text, a list or an object or closes a list. -/
def startsAtom (c : Char) : Bool :=
  !(Text.isBlank c || ['"', '[', ']', '\x7b'].contains c)

theorem isSpace_of_not_isBlank {c : Char} (h : Text.isBlank c = false) : isSpace c = false := by
  by_contra hspace
  simp only [isSpace, Bool.or_eq_true, decide_eq_true_eq, Bool.not_eq_false] at hspace
  rcases hspace with ((rfl | rfl) | rfl) | rfl <;> cases h

end Json

section Legible

variable [Scalar α]

/-- The number is written in ASCII and is read back as it was, whatever follows it. -/
structure Number.Legible (n : Number α) : Prop where
  starts : ∃ c cs, Json.writeNumber n = c :: cs ∧ Json.startsAtom c = true
  ascii : ∀ c ∈ Json.writeNumber n, c.toNat < 128
  reads : ∀ rest, Json.Delimited rest →
    Json.readAtom (Json.writeNumber n ++ rest) = .ok (.number n, rest)

/-- Values as they come out of JSON texts, of which all numbers are legible. -/
inductive Value.Legible : Value α → Prop
  | null : Legible .null
  | bool (b : Bool) : Legible (.bool b)
  | number {n : Number α} (h : n.Legible) : Legible (.number n)
  | text (s : String) : Legible (.text s)
  | list {items : List (Value α)} (h : ∀ v ∈ items, Legible v) : Legible (.list items)
  | map {d : Dict String (Value α)} (h : ∀ e ∈ d.entries, Legible e.2) :
      Legible (.map d.toEntries)

theorem Value.legible_toValue {ν : Type} {f : ν → Value α} {d : Dict String ν}
    (h : ∀ e ∈ d.entries, (f e.2).Legible) : (Dict.toValue f d).Legible := by
  rw [Dict.toValue_eq]
  exact .map (Dict.all_mapValues h)

end Legible

namespace Json

section Blocks

theorem skip_cons {c : Char} (h : isSpace c = false) (cs : List Char) :
    skip (c :: cs) = c :: cs := by
  rw [skip, List.dropWhile_cons, h, if_neg Bool.false_ne_true]

theorem skip_newLine (depth : Nat) (cs : List Char) : skip (newLine depth ++ cs) = skip cs := by
  refine List.dropWhile_append_of_pos fun c hc => ?_
  rcases List.mem_cons.mp hc with rfl | hc
  · decide
  · rw [List.eq_of_mem_replicate hc]
    decide

/-- What follows the first part of a block, up to its end and beyond it. -/
def following (closing : Char) (depth : Nat) (parts : List (List Char)) (rest : List Char) :
    List Char :=
  parts.flatMap (fun p => ',' :: newLine (depth + 1) ++ p) ++ (newLine depth ++ closing :: rest)

variable {opening closing : Char} {depth : Nat} {rest : List Char}

theorem block_append (p : List Char) (ps : List (List Char)) :
    block opening closing depth (p :: ps) ++ rest =
      opening :: (newLine (depth + 1) ++ (p ++ following closing depth ps rest)) := by
  simp [block, following, newLine]

theorem following_cons (p : List Char) (ps : List (List Char)) :
    following closing depth (p :: ps) rest =
      ',' :: (newLine (depth + 1) ++ (p ++ following closing depth ps rest)) := by
  simp [following]

theorem skip_following_nil (h : isSpace closing = false) :
    skip (following closing depth [] rest) = closing :: rest := by
  rw [following, List.flatMap_nil, List.nil_append, skip_newLine, skip_cons h]

theorem skip_following_cons (p : List Char) (ps : List (List Char)) :
    skip (following closing depth (p :: ps) rest) =
      ',' :: (newLine (depth + 1) ++ (p ++ following closing depth ps rest)) := by
  rw [following_cons, skip_cons (by decide)]

theorem delimited_following (ps : List (List Char)) :
    Delimited (following closing depth ps rest) := by
  cases ps with
  | nil => exact .inr rfl
  | cons p ps =>
      rw [following_cons]
      exact .inl rfl

/-- The fuel that reading the parts of a block takes at most. -/
def weight : List (List Char) → Nat
  | [] => 0
  | p :: ps => p.length + 1 + weight ps

theorem weight_cons (p : List Char) (ps : List (List Char)) :
    weight (p :: ps) = p.length + 1 + weight ps :=
  rfl

theorem weight_le_length (depth : Nat) (parts : List (List Char)) :
    weight parts ≤ (parts.flatMap fun p => ',' :: newLine depth ++ p).length := by
  induction parts with
  | nil => exact Nat.le_refl 0
  | cons p ps ih =>
      rw [weight_cons, List.flatMap_cons]
      simp only [List.length_append, List.length_cons]
      omega

theorem weight_lt_length_block (parts : List (List Char)) :
    weight parts < (block opening closing depth parts).length := by
  cases parts with
  | nil => exact Nat.succ_pos 1
  | cons p ps =>
      have rest := weight_le_length (depth + 1) ps
      rw [weight_cons]
      simp only [block, newLine, List.length_append, List.length_cons] at rest ⊢
      omega

end Blocks

section Values

variable [Scalar α]

/-- With enough fuel the value is read off the front of a text. -/
def ReadsBack (v : Value α) : Prop :=
  ∀ depth fuel rest, (writeValue depth v).length ≤ fuel → Delimited rest →
    readValue fuel (writeValue depth v ++ rest) = .ok (v, rest)

theorem writeItems_eq_map (depth : Nat) (vs : List (Value α)) :
    writeItems depth vs = vs.map (writeValue depth) := by
  induction vs with
  | nil => rw [writeItems, List.map_nil]
  | cons v vs ih => rw [writeItems, List.map_cons, ih]

/-- A member of an object as it is written. -/
def memberText (depth : Nat) (e : String × Value α) : List Char :=
  writeText e.1 ++ ':' :: ' ' :: writeValue depth e.2

/-- The members of an object as entries. -/
def members (es : List (String × Value α)) : Entries α :=
  es.map fun e => (.text e.1, e.2)

theorem writeMembers_members (depth : Nat) (es : List (String × Value α)) :
    writeMembers depth (members es) = es.map (memberText depth) := by
  induction es with
  | nil => rw [members, List.map_nil, writeMembers, List.map_nil]
  | cons e es ih =>
      rw [members, List.map_cons, writeMembers, ← members, ih, writeName, List.map_cons, memberText]

theorem writeMembers_toEntries (depth : Nat) (d : Dict String (Value α)) :
    writeMembers depth d.toEntries = d.entries.map (memberText depth) :=
  writeMembers_members depth d.entries

/-- A value begins with neither white space nor the end of a list. -/
theorem starts_writeValue {v : Value α} (h : v.Legible) (depth : Nat) :
    ∃ c cs, writeValue depth v = c :: cs ∧ Text.isBlank c = false ∧ c ≠ ']' := by
  cases h with
  | null => exact ⟨'n', _, rfl, by decide, by decide⟩
  | bool b => cases b <;> exact ⟨_, _, rfl, by decide, by decide⟩
  | number hn =>
      obtain ⟨c, cs, heq, hc⟩ := hn.starts
      simp [startsAtom] at hc
      exact ⟨c, cs, by rw [writeValue, heq], hc.1, hc.2.2.2.1⟩
  | text s => exact ⟨'"', _, rfl, by decide, by decide⟩
  | @list items _ =>
      rw [writeValue]
      cases writeItems (depth + 1) items <;> exact ⟨'[', _, rfl, by decide, by decide⟩
  | @map d _ =>
      rw [writeValue]
      cases writeMembers (depth + 1) d.toEntries <;> exact ⟨'\x7b', _, rfl, by decide, by decide⟩

theorem skip_newLine_value {v : Value α} (h : v.Legible) (depth depth' : Nat)
    (cs : List Char) :
    skip (newLine depth' ++ (writeValue depth v ++ cs)) = writeValue depth v ++ cs := by
  obtain ⟨c, cs', heq, hc, _⟩ := starts_writeValue h depth
  rw [skip_newLine, heq, List.cons_append, skip_cons (isSpace_of_not_isBlank hc)]

section Atoms

theorem after?_append (word : String) (rest : List Char) :
    after? word (word.toList ++ rest) = some rest := by
  have front : word.toList.isPrefixOf (word.toList ++ rest) = true :=
    List.isPrefixOf_iff_prefix.mpr (List.prefix_append _ _)
  rw [after?, if_pos front, List.drop_left]

theorem readAtom_null (rest : List Char) :
    readAtom (α := α) ("null".toList ++ rest) = .ok (.null, rest) := by
  rw [readAtom, after?_append]

theorem readAtom_boolWord (b : Bool) (rest : List Char) :
    readAtom (α := α) (boolWord b ++ rest) = .ok (.bool b, rest) := by
  cases b with
  | false =>
      have null : after? "null" ("false".toList ++ rest) = none := rfl
      have true : after? "true" ("false".toList ++ rest) = none := rfl
      rw [boolWord, if_neg Bool.false_ne_true, readAtom, null, true, after?_append]
  | true =>
      have null : after? "null" ("true".toList ++ rest) = none := rfl
      rw [boolWord, if_pos rfl, readAtom, null, after?_append]

theorem readValue_atom {c : Char} (h : startsAtom c = true) (fuel : Nat) (cs : List Char) :
    readValue (α := α) (fuel + 1) (c :: cs) = readAtom (c :: cs) := by
  unfold readValue
  split
  · rename_i heq
    cases heq
    cases h
  · rename_i heq
    cases heq
    cases h
  · rename_i heq
    cases heq
    cases h
  · rfl

theorem readsBack_atom {v : Value α} {text : List Char}
    (hv : ∀ depth, writeValue depth v = text)
    (starts : ∃ c cs, text = c :: cs ∧ startsAtom c = true)
    (reads : ∀ rest, Delimited rest → readAtom (text ++ rest) = .ok (v, rest)) :
    ReadsBack v := by
  obtain ⟨c, cs, rfl, hc⟩ := starts
  intro depth fuel rest hfuel hrest
  rw [hv] at hfuel ⊢
  obtain ⟨fuel, rfl⟩ := Nat.exists_eq_add_of_lt (Nat.lt_of_lt_of_le (Nat.succ_pos _) hfuel)
  rw [Nat.zero_add, List.cons_append, readValue_atom hc]
  exact reads rest hrest

end Atoms

theorem readsBack_text (s : String) : ReadsBack (.text s : Value α) := by
  intro depth fuel rest hfuel _
  cases fuel with
  | zero => cases hfuel
  | succ fuel =>
      rw [writeValue, writeText_append, readValue, readText_writeText]
      rfl

/-- Items are read back one by one, each up to what follows it. -/
theorem readItems_written (v : Value α) (vs : List (Value α))
    (h : ∀ w ∈ v :: vs, w.Legible ∧ ReadsBack w) (depth fuel : Nat) (rest : List Char)
    (hfuel : weight ((v :: vs).map (writeValue (depth + 1))) ≤ fuel) :
    readItems fuel (writeValue (depth + 1) v ++
      following ']' depth (vs.map (writeValue (depth + 1))) rest) = .ok (v :: vs, rest) := by
  induction vs generalizing v fuel with
  | nil =>
      obtain ⟨_, reads⟩ := h v List.mem_cons_self
      rw [List.map_cons, weight_cons] at hfuel
      cases fuel with
      | zero => omega
      | succ fuel =>
          rw [readItems, reads _ _ _ (by omega) (delimited_following _)]
          simp only [List.map_nil, bind, Except.bind,
            skip_following_nil (rfl : isSpace ']' = false)]
          rfl
  | cons w ws ih =>
      obtain ⟨_, reads⟩ := h v List.mem_cons_self
      rw [List.map_cons, weight_cons] at hfuel
      cases fuel with
      | zero => omega
      | succ fuel =>
          have others := ih w (fun u hu => h u (List.mem_cons_of_mem _ hu)) fuel (by omega)
          have legible := (h w (List.mem_cons_of_mem _ List.mem_cons_self)).1
          rw [readItems, reads _ _ _ (by omega) (delimited_following _)]
          simp only [List.map_cons, bind, Except.bind, skip_following_cons,
            skip_newLine_value legible, others]
          rfl

theorem readValue_items {cs : List Char} (h : ∃ c cs', skip cs = c :: cs' ∧ c ≠ ']')
    (fuel : Nat) :
    readValue (α := α) (fuel + 1) ('[' :: cs) = do
      let (items, rest) ← readItems fuel (skip cs)
      return (.list items, rest) := by
  obtain ⟨c, cs', heq, hc⟩ := h
  rw [readValue]
  split
  · rename_i heq'
    rw [heq] at heq'
    cases heq'
    exact absurd rfl hc
  · rfl

theorem readValue_members {cs : List Char} (h : ∃ cs', skip cs = '"' :: cs') (fuel : Nat) :
    readValue (α := α) (fuel + 1) ('\x7b' :: cs) = do
      let (entries, rest) ← readMembers fuel [] (skip cs)
      return (.map entries, rest) := by
  obtain ⟨cs', heq⟩ := h
  rw [readValue, heq]
  rfl

theorem readsBack_list {items : List (Value α)}
    (h : ∀ v ∈ items, v.Legible ∧ ReadsBack v) : ReadsBack (.list items) := by
  intro depth fuel rest hfuel _
  rw [writeValue, writeItems_eq_map] at hfuel ⊢
  cases fuel with
  | zero => exact absurd hfuel (Nat.not_le.mpr (Nat.zero_lt_of_lt (weight_lt_length_block _)))
  | succ fuel =>
      cases items with
      | nil =>
          simp only [List.map_nil, block, List.cons_append, List.nil_append, readValue,
            skip_cons (c := ']') rfl]
          rfl
      | cons v vs =>
          have enough := Nat.lt_of_lt_of_le (weight_lt_length_block _) hfuel
          have written := readItems_written v vs h depth fuel rest (Nat.le_of_lt_succ enough)
          have legible := (h v List.mem_cons_self).1
          obtain ⟨c, cs, heq, _, hclose⟩ := starts_writeValue legible (depth + 1)
          rw [List.map_cons, block_append, readValue_items, skip_newLine_value legible, written]
          · rfl
          · exact ⟨c, _, by rw [skip_newLine_value legible, heq, List.cons_append], hclose⟩

theorem skip_newLine_member (e : String × Value α) (depth depth' : Nat) (cs : List Char) :
    skip (newLine depth' ++ (memberText depth e ++ cs)) = memberText depth e ++ cs := by
  rw [skip_newLine, memberText, writeText, List.cons_append, List.cons_append, List.cons_append,
    skip_cons (by decide)]

/-- One member is read and written over those read before; what follows it is looked at
next. -/
theorem readMembers_member {e : String × Value α} (legible : e.2.Legible)
    (reads : ReadsBack e.2) (d : Dict String (Value α)) {depth fuel : Nat} {rest : List Char}
    (hfuel : (memberText depth e).length ≤ fuel) (hrest : Delimited rest) :
    readMembers (fuel + 1) d.toEntries (memberText depth e ++ rest) =
      match skip rest with
      | '\x7d' :: rest => .ok ((d.insert e.1 e.2).toEntries, rest)
      | ',' :: rest => readMembers fuel (d.insert e.1 e.2).toEntries (skip rest)
      | rest => .error (.complaint .noComma rest.length) := by
  have enough : (writeValue depth e.2).length ≤ fuel := by
    simp only [memberText, List.length_append, List.length_cons] at hfuel
    omega
  obtain ⟨c, cs, heq, hc, _⟩ := starts_writeValue legible depth
  have space : skip (' ' :: (writeValue depth e.2 ++ rest)) = writeValue depth e.2 ++ rest := by
    rw [heq, List.cons_append]
    exact skip_cons (isSpace_of_not_isBlank hc) _
  rw [memberText, List.append_assoc, writeText_append, readMembers, readText_writeText]
  simp only [bind, Except.bind, List.cons_append, skip_cons (c := ':') rfl, space,
    reads depth fuel rest enough hrest, Entries.set_toEntries]
  rfl

/-- Members are read back one by one and written over those read before. -/
theorem readMembers_written (d : Dict String (Value α)) (e : String × Value α)
    (es : List (String × Value α)) (h : ∀ e' ∈ e :: es, e'.2.Legible ∧ ReadsBack e'.2)
    (depth fuel : Nat) (rest : List Char)
    (hfuel : weight ((e :: es).map (memberText (depth + 1))) ≤ fuel) :
    readMembers fuel d.toEntries (memberText (depth + 1) e ++
      following '\x7d' depth (es.map (memberText (depth + 1))) rest) =
      .ok (((e :: es).foldl (fun d e => d.insert e.1 e.2) d).toEntries, rest) := by
  induction es generalizing d e fuel with
  | nil =>
      obtain ⟨legible, reads⟩ := h e List.mem_cons_self
      rw [List.map_cons, weight_cons] at hfuel
      cases fuel with
      | zero => omega
      | succ fuel =>
          rw [readMembers_member legible reads d (by omega) (delimited_following _),
            List.map_nil, skip_following_nil (by decide)]
          rfl
  | cons e' es ih =>
      obtain ⟨legible, reads⟩ := h e List.mem_cons_self
      rw [List.map_cons, weight_cons] at hfuel
      cases fuel with
      | zero => omega
      | succ fuel =>
          have others := ih (d.insert e.1 e.2) e'
            (fun u hu => h u (List.mem_cons_of_mem _ hu)) fuel (by omega)
          rw [readMembers_member legible reads d (by omega) (delimited_following _),
            List.map_cons, skip_following_cons]
          simp only [skip_newLine_member, others]
          rfl

theorem readsBack_map {d : Dict String (Value α)}
    (h : ∀ e ∈ d.entries, e.2.Legible ∧ ReadsBack e.2) : ReadsBack (.map d.toEntries) := by
  intro depth fuel rest hfuel _
  rw [writeValue, writeMembers_toEntries] at hfuel ⊢
  have whole := d.ofList_entries
  cases fuel with
  | zero => exact absurd hfuel (Nat.not_le.mpr (Nat.zero_lt_of_lt (weight_lt_length_block _)))
  | succ fuel =>
      have enough := Nat.lt_of_lt_of_le (weight_lt_length_block _) hfuel
      cases hentries : d.entries with
      | nil =>
          rw [hentries] at whole
          subst whole
          simp only [List.map_nil, block, List.cons_append, List.nil_append, readValue,
            skip_cons (c := '\x7d') rfl]
          rfl
      | cons e es =>
          rw [hentries] at h enough whole
          have written : readMembers fuel [] (memberText (depth + 1) e ++
              following '\x7d' depth (es.map (memberText (depth + 1))) rest) =
              .ok ((Dict.ofList (e :: es)).toEntries, rest) :=
            readMembers_written ∅ e es h depth fuel rest (Nat.le_of_lt_succ enough)
          rw [List.map_cons, block_append, readValue_members, skip_newLine_member, written, whole]
          · rfl
          · exact ⟨_, by rw [skip_newLine_member, memberText, List.append_assoc, writeText_append]⟩

/-- Whatever is legible is read back as it was written. -/
theorem readsBack {v : Value α} (h : v.Legible) : ReadsBack v := by
  induction h with
  | null =>
      have word (depth : Nat) : writeValue depth (.null : Value α) = "null".toList := by
        rw [writeValue]
      exact readsBack_atom word ⟨'n', _, rfl, by decide⟩ fun rest _ => readAtom_null rest
  | bool b =>
      refine readsBack_atom (fun _ => by rw [writeValue]) ?_ fun rest _ => readAtom_boolWord b rest
      cases b <;> exact ⟨_, _, rfl, by decide⟩
  | number hn => exact readsBack_atom (fun _ => by rw [writeValue]) hn.starts hn.reads
  | text s => exact readsBack_text s
  | list h ih => exact readsBack_list fun v hv => ⟨h v hv, ih v hv⟩
  | map h ih => exact readsBack_map fun e he => ⟨h e he, ih e he⟩

end Values

section Documents

variable [Scalar α]

section Characters

variable {P : Char → Prop} (hprintable : ∀ c, IsPrintable c → P c) (hline : P '\n')
include hprintable hline

theorem newLine_forall (depth : Nat) : ∀ c ∈ newLine depth, P c := by
  intro c hc
  rcases List.mem_cons.mp hc with rfl | hc
  · exact hline
  · rw [List.eq_of_mem_replicate hc]
    exact hprintable ' ' (by decide)

theorem block_forall {opening closing : Char} (hopening : P opening) (hclosing : P closing)
    (depth : Nat) {parts : List (List Char)} (h : ∀ p ∈ parts, ∀ c ∈ p, P c) :
    ∀ c ∈ block opening closing depth parts, P c := by
  have newLine := newLine_forall hprintable hline
  cases parts with
  | nil => simp [block, hopening, hclosing]
  | cons p ps =>
      have first := h p List.mem_cons_self
      have others : ∀ c ∈ ps.flatMap fun p => ',' :: Json.newLine (depth + 1) ++ p, P c := by
        intro c hc
        obtain ⟨q, hq, hc⟩ := List.mem_flatMap.mp hc
        rcases List.mem_append.mp hc with hc | hc
        · rcases List.mem_cons.mp hc with rfl | hc
          · exact hprintable ',' (by decide)
          · exact newLine _ c hc
        · exact h q (List.mem_cons_of_mem _ hq) c hc
      simp only [block, List.forall_mem_append, List.forall_mem_cons, List.not_mem_nil,
        false_imp_iff, implies_true, and_true]
      exact ⟨⟨⟨⟨⟨hopening, newLine _⟩, first⟩, others⟩, newLine _⟩, hclosing⟩

/-- Whatever is legible is written in printable characters, line feeds and those of its
numbers. -/
theorem writeValue_forall (hnumber : ∀ n : Number α, n.Legible → ∀ c ∈ writeNumber n, P c)
    {v : Value α} (h : v.Legible) (depth : Nat) : ∀ c ∈ writeValue depth v, P c := by
  have block {opening closing : Char} (hopening : IsPrintable opening)
      (hclosing : IsPrintable closing) := block_forall hprintable hline
        (hprintable opening hopening) (hprintable closing hclosing)
  induction h generalizing depth with
  | null =>
      rw [writeValue]
      have word : ∀ c ∈ "null".toList, IsPrintable c := by simp [IsPrintable]
      exact fun c hc => hprintable c (word c hc)
  | bool b =>
      rw [writeValue]
      have word : ∀ c ∈ boolWord b, IsPrintable c := by
        cases b <;> simp [boolWord, IsPrintable]
      exact fun c hc => hprintable c (word c hc)
  | number hn =>
      rw [writeValue]
      exact hnumber _ hn
  | text s =>
      rw [writeValue]
      exact fun c hc => hprintable c (writeText_printable s c hc)
  | @list items _ ih =>
      rw [writeValue, writeItems_eq_map]
      refine block (by decide) (by decide) depth fun p hp => ?_
      obtain ⟨v, hv, rfl⟩ := List.mem_map.mp hp
      exact ih v hv (depth + 1)
  | @map d _ ih =>
      rw [writeValue, writeMembers_toEntries]
      refine block (by decide) (by decide) depth fun p hp => ?_
      obtain ⟨e, he, rfl⟩ := List.mem_map.mp hp
      have name : ∀ c ∈ writeText e.1, P c := fun c hc =>
        hprintable c (writeText_printable e.1 c hc)
      simp only [memberText, List.forall_mem_append, List.forall_mem_cons]
      exact ⟨name, hprintable ':' (by decide), hprintable ' ' (by decide), ih e he (depth + 1)⟩

end Characters

/-- Whatever is legible is written in ASCII. -/
theorem writeValue_ascii {v : Value α} (h : v.Legible) (depth : Nat) :
    ∀ c ∈ writeValue depth v, c.toNat < 128 :=
  writeValue_forall (fun _ hc => Nat.lt_succ_of_lt hc.2) (by decide) (fun _ hn => hn.ascii) h depth

theorem fileText_ascii {v : Value α} (h : v.Legible) :
    ∀ c ∈ (fileText v).toList, c.toNat < 128 := by
  rw [fileText, String.toList_ofList]
  exact List.forall_mem_append.mpr ⟨writeValue_ascii h 0, by simp⟩

theorem isBlankText_ofList {c : Char} (hc : Text.isBlank c = false) (cs : List Char) :
    isBlankText (String.ofList (c :: cs)) = false := by
  have kept : (c :: cs).dropWhile Text.isBlank = c :: cs := by
    rw [List.dropWhile_cons, hc, if_neg Bool.false_ne_true]
  rw [isBlankText, String.toList_ofList, Text.strip_eq_rdropWhile, kept,
    List.isEmpty_eq_false_iff, ne_eq, List.rdropWhile_eq_nil_iff]
  intro blank
  rw [blank c List.mem_cons_self] at hc
  cases hc

/-- What is written to a file is read back as a document. -/
theorem document_fileText {v : Value α} (h : v.Legible) (fallback : Value α) :
    document (some (fileText v)) fallback = .ok v := by
  obtain ⟨c, cs, heq, hc, _⟩ := starts_writeValue h 0
  have first : c.toNat < 128 := writeValue_ascii h 0 c (by simp [heq])
  have mark : c ≠ '\uFEFF' := fun hmark => absurd (hmark ▸ first) (by decide)
  have text : writeValue 0 v ++ ['\n'] = c :: (cs ++ ['\n']) := by rw [heq, List.cons_append]
  have read := readsBack h 0 (2 * (writeValue 0 v ++ ['\n']).length + 1) ['\n']
    (by simp only [List.length_append]; omega) (.inr rfl)
  have all : readAll (writeValue 0 v ++ ['\n']) = .ok v := by
    rw [text] at read ⊢
    unfold readAll
    split
    · rename_i hmark
      cases hmark
      exact absurd rfl mark
    · rw [skip_cons (isSpace_of_not_isBlank hc), read]
      rfl
  have blank : isBlankText (fileText v) = false := by
    rw [fileText, text]
    exact isBlankText_ofList hc _
  have chars : (fileText v).toList = writeValue 0 v ++ ['\n'] := String.toList_ofList
  simp only [document, blank, chars, all, Bool.false_eq_true, if_false]

end Documents

end Json
end BackwardInduction
