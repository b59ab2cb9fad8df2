-- Maps that keep their keys in the order in which they first came in. Writing a key that is
-- there already changes its value and leaves its place alone.

namespace Formwork

/-- A map from names, in the order in which the names first came in. -/
abbrev Ordered (α : Type) := List (String × α)

namespace Ordered

variable {α : Type}

/-- The value stored under a name. -/
def find? (entries : Ordered α) (key : String) : Option α := List.lookup key entries

/-- Whether a name is there. -/
def has (entries : Ordered α) (key : String) : Bool := (entries.find? key).isSome

/-- The names, oldest first. -/
def keys (entries : Ordered α) : List String := entries.map Prod.fst

/-- The values, oldest first. -/
def values (entries : Ordered α) : List α := entries.map Prod.snd

/-- Writes a value under a name: in place if the name is there, at the end if it is not. -/
def put (key : String) (value : α) : Ordered α → Ordered α
  | [] => [(key, value)]
  | (k, v) :: rest => if k == key then (k, value) :: rest else (k, v) :: put key value rest

/-- The map that writing the pairs one after the other gives. -/
def ofPairs (pairs : List (String × α)) : Ordered α :=
  pairs.foldl (fun entries (key, value) => put key value entries) []

theorem keys_put (key : String) (value : α) (entries : Ordered α) :
    (put key value entries).keys =
      if key ∈ entries.keys then entries.keys else entries.keys ++ [key] := by
  induction entries with
  | nil => simp [put, keys]
  | cons entry rest ih =>
    obtain ⟨k, v⟩ := entry
    by_cases h : k = key
    · simp [put, keys, h]
    · have h' : ¬key = k := fun e => h e.symm
      simp only [put, beq_iff_eq, h, if_false]
      simp only [keys, List.map_cons] at ih ⊢
      rw [ih]
      simp only [List.mem_cons, h', false_or]
      split <;> simp_all

theorem find?_cons (k other : String) (v : α) (rest : Ordered α) :
    find? ((k, v) :: rest) other = if other = k then some v else rest.find? other := by
  by_cases h : other = k
  · simp [find?, h]
  · simp [find?, List.lookup_cons, beq_false_of_ne h, h]

theorem mem_of_find? {entries : Ordered α} {key : String} {value : α}
    (h : entries.find? key = some value) : (key, value) ∈ entries := by
  obtain ⟨before, after, rfl, _⟩ := List.lookup_eq_some_iff.1 h
  exact List.mem_append_right before List.mem_cons_self

theorem mem_keys {entries : Ordered α} {key : String} {value : α} (h : (key, value) ∈ entries) :
    key ∈ entries.keys := List.mem_map_of_mem h

theorem find?_eq_none_iff {entries : Ordered α} {key : String} :
    entries.find? key = none ↔ key ∉ entries.keys := by
  simp only [find?, List.lookup_eq_none_iff, bne_iff_ne, keys, List.mem_map, not_exists, not_and,
    ne_comm, ne_eq]

theorem has_iff_mem_keys {entries : Ordered α} {key : String} :
    entries.has key ↔ key ∈ entries.keys := by
  by_cases hkey : key ∈ entries.keys
  · refine iff_of_true (Option.isSome_iff_ne_none.2 fun hnone => ?_) hkey
    exact find?_eq_none_iff.1 hnone hkey
  · refine iff_of_false (fun hhas => ?_) hkey
    rw [has, find?_eq_none_iff.2 hkey] at hhas
    cases hhas

/-- What stands under a name is found there if no name is there twice. -/
theorem find?_of_mem {entries : Ordered α} (hkeys : entries.keys.Nodup) {key : String} {value : α}
    (h : (key, value) ∈ entries) : entries.find? key = some value := by
  induction entries with
  | nil => cases h
  | cons entry rest ih =>
    obtain ⟨k, v⟩ := entry
    obtain ⟨hfirst, hrest⟩ := List.nodup_cons.1 hkeys
    rw [find?_cons]
    rcases List.mem_cons.1 h with heq | hmem
    · cases heq
      rw [if_pos rfl]
    · have hne : key ≠ k := by
        rintro rfl
        exact hfirst (mem_keys hmem)
      rw [if_neg hne]
      exact ih hrest hmem

/-- Writing changes what is under one name only. -/
theorem find?_put (key other : String) (value : α) (entries : Ordered α) :
    (put key value entries).find? other =
      if other = key then some value else entries.find? other := by
  induction entries with
  | nil => exact find?_cons key other value []
  | cons entry rest ih =>
    obtain ⟨k, v⟩ := entry
    by_cases hk : k = key
    · subst hk
      simp only [put, beq_self_eq_true, if_true, find?_cons]
      split <;> rfl
    · simp only [put, beq_iff_eq, hk, if_false, find?_cons, ih]
      by_cases ho : other = k
      · subst ho
        simp [hk]
      · simp [ho]

/-- A new name comes last. -/
theorem put_of_not_mem {key : String} (value : α) {entries : Ordered α} (h : key ∉ entries.keys) :
    put key value entries = entries ++ [(key, value)] := by
  induction entries with
  | nil => rfl
  | cons entry rest ih =>
    obtain ⟨k, v⟩ := entry
    simp only [keys, List.map_cons, List.mem_cons, not_or] at h
    have hk : ¬ (k == key) = true := fun heq => h.1 (eq_of_beq heq).symm
    rw [put, if_neg hk, ih h.2, List.cons_append]

/-- A value that stands under its name alone, or is written under it, is found there in the end. -/
theorem find?_foldl_put {key : String} {value : α} :
    ∀ {pairs : List (String × α)} {entries : Ordered α},
    (∀ other, (key, other) ∈ pairs → other = value) →
    entries.find? key = some value ∨ (key, value) ∈ pairs →
    (pairs.foldl (fun entries (key, value) => put key value entries) entries).find? key = some value
  | [], _, _, h => h.resolve_right List.not_mem_nil
  | (k, v) :: rest, entries, halone, h => by
    rw [List.foldl_cons]
    refine find?_foldl_put (fun other hother => halone other (List.mem_cons_of_mem _ hother)) ?_
    rw [find?_put]
    by_cases hk : key = k
    · left
      rw [if_pos hk, halone v (hk ▸ List.mem_cons_self)]
    · rw [if_neg hk]
      refine h.imp_right fun hmem => (List.mem_cons.1 hmem).resolve_left fun heq => ?_
      exact hk (Prod.mk.inj heq).1

/-- What is written under a name is found there, if nothing else is written under it. -/
theorem find?_ofPairs {pairs : List (String × α)} {key : String} {value : α}
    (halone : ∀ other, (key, other) ∈ pairs → other = value) (h : (key, value) ∈ pairs) :
    (ofPairs pairs).find? key = some value :=
  find?_foldl_put halone (.inr h)

/-- Names stay distinct whatever is written. -/
theorem nodup_keys_put (key : String) (value : α) (entries : Ordered α)
    (h : entries.keys.Nodup) : (put key value entries).keys.Nodup := by
  rw [keys_put]
  split
  · exact h
  · rename_i hk
    rw [List.nodup_append]
    exact ⟨h, by simp, fun a ha b hb => by simp_all; rintro rfl; exact hk ha⟩

theorem nodup_keys_ofPairs (pairs : List (String × α)) : (ofPairs pairs).keys.Nodup :=
  List.foldlRecOn (motive := fun entries => (keys entries).Nodup) pairs _ List.nodup_nil
    fun entries h pair _ => nodup_keys_put pair.1 pair.2 entries h

theorem mem_of_mem_put {key : String} {value : α} {entries : Ordered α} {entry : String × α}
    (h : entry ∈ put key value entries) : entry = (key, value) ∨ entry ∈ entries := by
  induction entries with
  | nil => exact .inl (List.mem_singleton.1 h)
  | cons first rest ih =>
    obtain ⟨k, v⟩ := first
    unfold put at h
    split at h
    · rename_i hk
      rw [beq_iff_eq] at hk
      subst hk
      exact (List.mem_cons.1 h).imp_right (List.mem_cons_of_mem _)
    · rcases List.mem_cons.1 h with rfl | hrest
      · exact .inr List.mem_cons_self
      · exact (ih hrest).imp_right (List.mem_cons_of_mem _)

/-- Nothing comes into a map but the pairs that are written. -/
theorem mem_of_mem_ofPairs {pairs : List (String × α)} :
    ∀ {entry}, entry ∈ ofPairs pairs → entry ∈ pairs := by
  refine List.foldlRecOn (motive := fun entries => ∀ {entry}, entry ∈ entries → entry ∈ pairs)
    pairs _ (fun h => absurd h List.not_mem_nil) fun entries ih pair hpair entry h => ?_
  rcases mem_of_mem_put h with rfl | hmem
  · exact hpair
  · exact ih hmem

end Ordered

end Formwork
