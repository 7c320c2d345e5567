import TractorRules.Proofs.TrickUnit.Cards
import Mathlib.Data.List.Nodup
import Mathlib.Data.List.Perm.Basic

/-!
# Distinct cards with their copies

A multiset of cards written out: distinct cards in some order, each with its number of copies side by
side.
-/

namespace TractorRules.Copies

variable {α : Type} [DecidableEq α]

theorem nodup_eraseDups (xs : List α) : xs.eraseDups.Nodup := by
  generalize hn : xs.length = n
  induction n using Nat.strongRecOn generalizing xs with
  | ind n ih =>
    cases xs with
    | nil => simp
    | cons x xs =>
      have hlt : (xs.filter fun y => !y == x).length < n := by
        have hle := List.length_filter_le (fun y => !y == x) xs
        rw [List.length_cons] at hn
        omega
      have hx : x ∉ (xs.filter fun y => !y == x).eraseDups := by simp [List.mem_eraseDups]
      rw [List.eraseDups_cons]
      exact List.nodup_cons.mpr ⟨hx, ih _ hlt _ rfl⟩

theorem eraseDups_sublist (xs : List α) : xs.eraseDups.Sublist xs := by
  induction hn : xs.length using Nat.strongRecOn generalizing xs with
  | ind n ih =>
    cases xs with
    | nil => simp
    | cons x xs =>
      have hlt : (xs.filter fun y => !y == x).length < n := by
        have hle := List.length_filter_le (fun y => !y == x) xs
        rw [List.length_cons] at hn
        omega
      rw [List.eraseDups_cons]
      exact ((ih _ hlt _ rfl).trans List.filter_sublist).cons_cons x

def expand (order : List α) (f : α → Nat) : List α := order.flatMap fun x => List.replicate (f x) x

theorem count_expand {order : List α} (hn : order.Nodup) (f : α → Nat) (y : α) :
    (expand order f).count y = if y ∈ order then f y else 0 := by
  induction order with
  | nil => rfl
  | cons x order ih =>
    obtain ⟨hx, hn⟩ := List.nodup_cons.mp hn
    have hsplit : expand (x :: order) f = List.replicate (f x) x ++ expand order f :=
      List.flatMap_cons ..
    rw [hsplit, List.count_append, List.count_replicate, ih hn]
    by_cases hy : x = y
    · subst hy
      simp [hx]
    · simp [hy, Ne.symm hy]

theorem expand_perm {order xs : List α} (hn : order.Nodup) (f : α → Nat)
    (hmem : ∀ x ∈ xs, x ∈ order) (hf : ∀ x ∈ order, f x = xs.count x) :
    (expand order f).Perm xs := by
  rw [List.perm_iff_count]
  intro y
  rw [count_expand hn]
  split
  · exact hf y ‹_›
  · exact (List.count_eq_zero_of_not_mem fun h => absurd (hmem y h) ‹_›).symm

omit [DecidableEq α] in
theorem pairwise_expand {R : α → α → Prop} (hrefl : ∀ x, R x x) {order : List α}
    (h : order.Pairwise R) (f : α → Nat) : (expand order f).Pairwise R := by
  refine List.pairwise_flatMap.mpr ⟨fun x _ => ?_, h.imp fun {x y} hxy a ha b hb => ?_⟩
  · exact List.pairwise_replicate.mpr (Or.inr (hrefl x))
  · rw [List.eq_of_mem_replicate ha, List.eq_of_mem_replicate hb]
    exact hxy

omit [DecidableEq α] in
/-- The first `n` are the same when no more than `m` copies of each are written out. -/
theorem take_expand_min (order : List α) (f : α → Nat) {n m : Nat} (h : n ≤ m) :
    (expand order fun x => min (f x) m).take n = (expand order f).take n := by
  induction order generalizing n with
  | nil => rfl
  | cons x order ih =>
    simp only [expand, List.flatMap_cons, List.take_append, List.length_replicate,
      List.take_replicate] at ih ⊢
    by_cases hx : f x ≤ m
    · rw [Nat.min_eq_left hx, ih (by omega)]
    · have hmin : min (f x) m = m := by omega
      have h0 : n - m = 0 := by omega
      have h0' : n - f x = 0 := by omega
      have hn : min n m = min n (f x) := by omega
      rw [hmin, h0, h0', hn]
      simp

end TractorRules.Copies
