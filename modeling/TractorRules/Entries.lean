/-!
# Entries

Pairs of a key and a value in the order in which the keys came.  A key that is already there keeps
its place when it is put again.  `lookup_put` says what is found after that, and `nodup_put` that the
keys stay distinct.
-/

namespace TractorRules

/-- Pairs of a key and a value in the order in which the keys came. -/
abbrev Entries (κ α : Type) := List (κ × α)

namespace Entries

variable {κ α : Type} [DecidableEq κ]

/-- Puts a value under a key: in the key's place if it is there, else at the end. -/
def put (key : κ) (value : α) : Entries κ α → Entries κ α
  | [] => [(key, value)]
  | (k, v) :: rest => if k = key then (key, value) :: rest else (k, v) :: put key value rest

/-- Puts pairs in turn, so that the last value of a key counts. -/
def ofList (pairs : List (κ × α)) : Entries κ α := pairs.foldl (fun es p => put p.1 p.2 es) []

theorem lookup_cons (key : κ) (value : α) (es : Entries κ α) (k : κ) :
    ((key, value) :: es).lookup k = if k = key then some value else es.lookup k := by
  by_cases h : k = key
  · subst h; simp
  · simp only [List.lookup_cons, beq_false_of_ne h, if_neg h]

theorem lookup_put (key : κ) (value : α) (es : Entries κ α) (k : κ) :
    (put key value es).lookup k = if k = key then some value else es.lookup k := by
  induction es with
  | nil => rw [put, lookup_cons]
  | cons e rest ih =>
    obtain ⟨j, v⟩ := e
    rw [put]
    split
    · rename_i hj
      subst hj
      by_cases h : k = j <;> simp only [lookup_cons, h, if_true, if_false]
    · rename_i hj
      rw [lookup_cons, lookup_cons, ih]
      by_cases h : k = j
      · subst h; simp [hj]
      · simp [h]

theorem mem_put (key : κ) (value : α) (es : Entries κ α) (k : κ) :
    k ∈ (put key value es).map Prod.fst ↔ k ∈ es.map Prod.fst ∨ k = key := by
  induction es with
  | nil => simp [put]
  | cons e rest ih =>
    obtain ⟨j, v⟩ := e
    rw [put]
    split
    · rename_i hj
      subst hj
      simp only [List.map_cons, List.mem_cons]
      constructor
      · exact Or.inl
      · rintro (h | h)
        · exact h
        · exact Or.inl h
    · simp only [List.map_cons, List.mem_cons, ih, or_assoc]

theorem nodup_put (key : κ) (value : α) {es : Entries κ α} (h : (es.map Prod.fst).Nodup) :
    ((put key value es).map Prod.fst).Nodup := by
  induction es with
  | nil => simp [put]
  | cons e rest ih =>
    obtain ⟨j, v⟩ := e
    simp only [List.map_cons, List.nodup_cons] at h
    rw [put]
    split
    · rename_i hj
      subst hj
      simpa using h
    · rename_i hj
      simp only [List.map_cons, List.nodup_cons]
      refine ⟨fun hm => ?_, ih h.2⟩
      rcases (mem_put key value rest j).1 hm with hm | hm
      · exact h.1 hm
      · exact hj hm

theorem nodup_ofList (pairs : List (κ × α)) : ((ofList pairs).map Prod.fst).Nodup := by
  suffices h : ∀ es : Entries κ α, (es.map Prod.fst).Nodup →
      ((pairs.foldl (fun es p => put p.1 p.2 es) es).map Prod.fst).Nodup from h [] (by simp)
  induction pairs with
  | nil => exact fun _ h => h
  | cons p rest ih => exact fun es h => ih _ (nodup_put p.1 p.2 h)

end Entries

end TractorRules
