import Mathlib.Data.List.Basic
import Mathlib.Data.List.Flatten

/-!
# Sorting by a number

Sorting by a number keeps the order of what has the same number (`filter_sortBy`), so that it puts
together those of the first number, those of the next, and so on (`sortBy_eq_flatMap`).
-/

namespace TractorRules

variable {α : Type} (key : α → Nat)

def sortBy (xs : List α) : List α := xs.mergeSort fun x y => decide (key x ≤ key y)

theorem keyLe_trans (x y z : α) (hxy : decide (key x ≤ key y) = true)
    (hyz : decide (key y ≤ key z) = true) : decide (key x ≤ key z) = true := by
  simp only [decide_eq_true_eq] at *
  omega

theorem keyLe_total (x y : α) : (decide (key x ≤ key y) || decide (key y ≤ key x)) = true := by
  simp only [Bool.or_eq_true, decide_eq_true_eq]
  omega

theorem mem_sortBy {xs : List α} {x : α} : x ∈ sortBy key xs ↔ x ∈ xs := List.mem_mergeSort

theorem sortBy_perm (xs : List α) : (sortBy key xs).Perm xs := List.mergeSort_perm _ _

theorem pairwise_sortBy (xs : List α) : (sortBy key xs).Pairwise fun x y => key x ≤ key y :=
  (List.pairwise_mergeSort (keyLe_trans key) (keyLe_total key) xs).imp of_decide_eq_true

/-! ### Those of one number -/

theorem filter_sortBy (xs : List α) (n : Nat) :
    (sortBy key xs).filter (key · == n) = xs.filter (key · == n) := by
  have hequal : (xs.filter (key · == n)).Pairwise fun x y => decide (key x ≤ key y) = true := by
    apply List.pairwise_of_forall_mem_list
    intro x hx y hy
    have hxn := beq_iff_eq.mp (List.mem_filter.mp hx).2
    have hyn := beq_iff_eq.mp (List.mem_filter.mp hy).2
    exact decide_eq_true (Nat.le_of_eq (hxn.trans hyn.symm))
  have hsub : (xs.filter (key · == n)).Sublist (sortBy key xs) :=
    List.sublist_mergeSort (keyLe_trans key) (keyLe_total key) hequal List.filter_sublist
  have hpart := hsub.filter (key · == n)
  simp only [List.filter_filter, Bool.and_self] at hpart
  exact (hpart.eq_of_length ((sortBy_perm key xs).filter _).length_eq.symm).symm

theorem filter_eq_append_of_least {xs : List α} (hsorted : xs.Pairwise fun x y => key x ≤ key y)
    {n : Nat} (hleast : ∀ x ∈ xs, n ≤ key x) :
    xs.filter (key · == n) ++ xs.filter (key · != n) = xs := by
  induction xs with
  | nil => rfl
  | cons x xs ih =>
    obtain ⟨hx, hxs⟩ := List.pairwise_cons.mp hsorted
    obtain ⟨hn, hrest⟩ := List.forall_mem_cons.mp hleast
    by_cases heq : key x = n
    · rw [List.filter_cons_of_pos (by simpa using heq), List.filter_cons_of_neg (by simpa using heq),
        List.cons_append, ih hxs hrest]
    · -- all later keys are above `n` as well
      have habove : ∀ y ∈ x :: xs, key y ≠ n := by
        intro y hy
        rcases List.mem_cons.mp hy with rfl | hy
        · exact heq
        · have hle := hx y hy
          omega
      have hnone : (x :: xs).filter (key · == n) = [] :=
        List.filter_eq_nil_iff.mpr fun y hy => by simpa using habove y hy
      have hall : (x :: xs).filter (key · != n) = x :: xs :=
        List.filter_eq_self.mpr fun y hy => by simpa using habove y hy
      rw [hnone, hall, List.nil_append]

theorem flatMap_filter_of_sorted {keys : List Nat} (hkeys : keys.Pairwise (· < ·)) {xs : List α}
    (hsorted : xs.Pairwise fun x y => key x ≤ key y) (hmem : ∀ x ∈ xs, key x ∈ keys) :
    (keys.flatMap fun n => xs.filter (key · == n)) = xs := by
  induction keys generalizing xs with
  | nil =>
    have hnil : xs = [] := List.eq_nil_iff_forall_not_mem.mpr fun x hx => List.not_mem_nil (hmem x hx)
    rw [hnil]
    rfl
  | cons n keys ih =>
    obtain ⟨hn, hkeys⟩ := List.pairwise_cons.mp hkeys
    have hleast : ∀ x ∈ xs, n ≤ key x := by
      intro x hx
      rcases List.mem_cons.mp (hmem x hx) with heq | hlater
      · exact Nat.le_of_eq heq.symm
      · exact Nat.le_of_lt (hn _ hlater)
    have hkey : ∀ x ∈ xs.filter (key · != n), key x ∈ keys := by
      intro x hx
      obtain ⟨hx, hne⟩ := List.mem_filter.mp hx
      exact (List.mem_cons.mp (hmem x hx)).resolve_left (by simpa using hne)
    have hlater : (keys.flatMap fun m => xs.filter (key · == m)) = xs.filter (key · != n) := by
      refine Eq.trans ?_ (ih hkeys (hsorted.filter _) hkey)
      apply List.flatMap_congr
      intro m hm
      rw [List.filter_filter]
      apply List.filter_congr
      intro x _
      have hne : m ≠ n := Nat.ne_of_gt (hn m hm)
      by_cases hx : key x = m
      · simp [hx, hne]
      · simp [hx]
    rw [List.flatMap_cons, hlater]
    exact filter_eq_append_of_least key hsorted hleast

/-- Sorting puts together those of each key, the keys ascending. -/
theorem sortBy_eq_flatMap {keys : List Nat} (hkeys : keys.Pairwise (· < ·)) {xs : List α}
    (hmem : ∀ x ∈ xs, key x ∈ keys) :
    sortBy key xs = keys.flatMap fun n => xs.filter (key · == n) := by
  simp only [← filter_sortBy key xs]
  refine (flatMap_filter_of_sorted key hkeys (pairwise_sortBy key xs) fun x hx => ?_).symm
  exact hmem x ((mem_sortBy key).mp hx)

theorem sortBy_eq_flatMap_range (xs : List α) :
    sortBy key xs =
      (List.range ((xs.map key).max?.getD 0 + 1)).flatMap fun n => xs.filter (key · == n) := by
  apply sortBy_eq_flatMap key List.pairwise_lt_range
  intro x hx
  have hle := List.le_max?_getD_of_mem (k := 0) (List.mem_map_of_mem (f := key) hx)
  rw [List.mem_range]
  omega

/-- What comes later in the list comes later among those of its key. -/
theorem pairwise_sortBy_of_pairwise {before : α → α → Prop} {xs : List α}
    (h : xs.Pairwise before) :
    (sortBy key xs).Pairwise fun x y => key x < key y ∨ key x = key y ∧ before x y := by
  rw [sortBy_eq_flatMap_range, List.pairwise_flatMap]
  constructor
  · intro n _
    apply (h.filter _).imp_of_mem
    intro x y hx hy hxy
    have hxn := beq_iff_eq.mp (List.mem_filter.mp hx).2
    have hyn := beq_iff_eq.mp (List.mem_filter.mp hy).2
    exact Or.inr ⟨hxn.trans hyn.symm, hxy⟩
  · apply List.pairwise_lt_range.imp
    intro m n hmn x hx y hy
    have hxm := beq_iff_eq.mp (List.mem_filter.mp hx).2
    have hyn := beq_iff_eq.mp (List.mem_filter.mp hy).2
    left
    omega

end TractorRules
