/-!
# Bounded search

A search that may stop early carries a budget: how many results may still be found.  `gather_eq` says
that a bounded search finds the first results of the unbounded one.
-/

namespace TractorRules

/-- How many results may still be found; `none` is no bound. -/
abbrev Budget := Option Nat

namespace Budget

variable {α β : Type}

def cut : Budget → List α → List α
  | none, xs => xs
  | some n, xs => xs.take n

def less (b : Budget) (n : Nat) : Budget := b.map (· - n)

@[simp] theorem cut_nil (b : Budget) : b.cut ([] : List α) = [] := by
  cases b with
  | none => rfl
  | some n => exact List.take_nil

theorem cut_cons {b : Budget} (hb : b ≠ some 0) (x : α) (xs : List α) :
    b.cut (x :: xs) = x :: (b.less 1).cut xs := by
  match b with
  | none => rfl
  | some 0 => exact absurd rfl hb
  | some (n + 1) => rfl

theorem cut_map (f : α → β) (b : Budget) (xs : List α) : b.cut (xs.map f) = (b.cut xs).map f := by
  cases b with
  | none => rfl
  | some n => exact List.map_take.symm

/-- Searches from each starting point in turn until the budget is spent; `found` holds the results
so far, last first. -/
def gatherFrom (search : Budget → α → List β) (found : List β) : Budget → List α → List β
  | _, [] => found.reverse
  | b, x :: xs =>
    if b = some 0 then found.reverse
    else
      let more := search b x
      gatherFrom search (more.reverseAux found) (b.less more.length) xs

/-- The results of searches from each starting point in turn, within a budget. -/
def gather (search : Budget → α → List β) (b : Budget) (starts : List α) : List β :=
  gatherFrom search [] b starts

theorem gatherFrom_eq (search : Budget → α → List β)
    (h : ∀ b x, search b x = b.cut (search none x)) (found : List β) (b : Budget)
    (starts : List α) :
    gatherFrom search found b starts = found.reverse ++ b.cut (starts.flatMap (search none)) := by
  induction starts generalizing b found with
  | nil => rw [gatherFrom, List.flatMap_nil, cut_nil, List.append_nil]
  | cons x xs ih =>
    rw [gatherFrom]
    split
    · rename_i hb
      subst hb
      simp [cut]
    · simp only [ih, List.reverseAux_eq, List.reverse_append, List.reverse_reverse,
        List.append_assoc, List.append_cancel_left_eq, List.flatMap_cons]
      rw [h b x]
      cases b with
      | none => simp [cut, less]
      | some n =>
        simp only [cut, less, Option.map_some, List.take_append, List.length_take]
        congr 2
        omega

/-- A search within a budget finds the first results of the search without one. -/
theorem gather_eq (search : Budget → α → List β)
    (h : ∀ b x, search b x = b.cut (search none x)) (b : Budget) (starts : List α) :
    gather search b starts = b.cut (starts.flatMap (search none)) := by
  simp [gather, gatherFrom_eq search h]

end Budget

end TractorRules
