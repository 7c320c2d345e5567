import TractorRules.Card.Basic

/-!
# Tallies

How many copies there are of each card.  `count_ofList` says that a tally of a list counts its
cards, and `count_remove` what taking copies away does.
-/

namespace TractorRules

structure Tally where
  cells : Vector Nat 54
deriving DecidableEq

namespace Tally

def empty : Tally := ⟨Vector.replicate 54 0⟩

def count (t : Tally) (c : Card) : Nat := t.cells.toArray.getD c.index 0

def set (t : Tally) (c : Card) (n : Nat) : Tally := ⟨t.cells.set c.index n⟩

def insert (t : Tally) (c : Card) : Tally := t.set c (t.count c + 1)

def remove (t : Tally) (c : Card) (n : Nat) : Tally := t.set c (t.count c - n)

def ofList (cards : List Card) : Tally := cards.foldl insert empty

def removeEach (t : Tally) (cards : List Card) (n : Nat) : Tally :=
  cards.foldl (fun t c => t.remove c n) t

theorem count_set (t : Tally) (c d : Card) (n : Nat) :
    (t.set c n).count d = if c = d then n else t.count d := by
  simp only [count, set]
  by_cases h : c = d
  · subst h; simp
  · have hi : (c.index : Nat) ≠ d.index := fun e => h (Card.index_injective (Fin.ext e))
    simp [h, hi]

theorem count_empty (c : Card) : empty.count c = 0 := by simp [count, empty]

theorem count_insert (t : Tally) (c d : Card) :
    (t.insert c).count d = t.count d + if c = d then 1 else 0 := by
  rw [insert, count_set]
  by_cases h : c = d
  · subst h; simp
  · simp [h]

theorem count_remove (t : Tally) (c d : Card) (n : Nat) :
    (t.remove c n).count d = t.count d - if c = d then n else 0 := by
  rw [remove, count_set]
  by_cases h : c = d
  · subst h; simp
  · simp [h]

theorem count_ofList (cards : List Card) (d : Card) : (ofList cards).count d = cards.count d := by
  suffices h : ∀ t : Tally, (cards.foldl insert t).count d = t.count d + cards.count d by
    simpa [ofList, count_empty] using h empty
  induction cards with
  | nil => simp
  | cons c rest ih =>
    intro t
    rw [List.foldl_cons, ih, count_insert, List.count_cons]
    by_cases h : c = d
    · subst h; simp; omega
    · simp [h]

end Tally

end TractorRules
