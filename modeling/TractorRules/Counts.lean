import TractorRules.Entries

/-!
# Counts

How often things came, in the order of their first arrival.  `times_add` says that adding to the
count of one thing leaves the others alone.
-/

namespace TractorRules

/-- Things in the order of their first arrival, each with its count. -/
abbrev Counts (α : Type) := Entries α Nat

namespace Counts

variable {α : Type} [DecidableEq α]

def times (counts : Counts α) (a : α) : Nat := (counts.lookup a).getD 0

def add (a : α) (n : Nat) (counts : Counts α) : Counts α := counts.put a (counts.times a + n)

def addAll (counts : Counts α) (more : Counts α) : Counts α :=
  more.foldl (fun cs e => add e.1 e.2 cs) counts

def ofList (xs : List α) : Counts α := addAll [] (xs.map fun x => (x, 1))

theorem times_add (a : α) (n : Nat) (counts : Counts α) (b : α) :
    (add a n counts).times b = counts.times b + if b = a then n else 0 := by
  rw [times, add, Entries.lookup_put]
  by_cases h : b = a
  · subst h; simp
  · simp [h, times]

theorem nodup_addAll (more : Counts α) {counts : Counts α} (h : (counts.map Prod.fst).Nodup) :
    ((addAll counts more).map Prod.fst).Nodup := by
  induction more generalizing counts with
  | nil => exact h
  | cons e rest ih => exact ih (Entries.nodup_put e.1 _ h)

end Counts

end TractorRules
