import TractorRules.Proofs.Grouping.Cover
import Mathlib.Data.List.GetD

/-!
# The product of the suits in order

The layers of a suit hold its groupings sorted by their number of units, those of one number in the
order in which they came (`Layers.flatMap_ofList`).  A combination is then a position in each sorted
list, and the combinations come by their number of units and after that by the positions, those of
the first suit before those of the second (`combineSuits_eq_cut_positions`).
-/

namespace TractorRules

/-! ### Positions -/

/-- One position in each suit's groupings. -/
def IsIndex (suits : List (List Grouping)) (ix : List Nat) : Prop :=
  List.Forall₂ (fun i gs => i < gs.length) ix suits

/-- The groupings at one position in each suit, put together. -/
def choiceAt : List (List Grouping) → List Nat → Grouping
  | gs :: suits, i :: ix => gs.getD i [] ++ choiceAt suits ix
  | _, _ => []

/-- All positions, those with the first suit's first position first. -/
def indices : List (List Grouping) → List (List Nat)
  | [] => [[]]
  | gs :: suits => (List.range gs.length).flatMap fun i => (indices suits).map (i :: ·)

/-- Fewer units, or as many at the lexicographically lesser positions. -/
def Precedes (suits : List (List Grouping)) (ix iy : List Nat) : Prop :=
  (choiceAt suits ix).length < (choiceAt suits iy).length ∨
    (choiceAt suits ix).length = (choiceAt suits iy).length ∧ ix < iy

theorem length_choiceAt_cons (gs : List Grouping) (suits : List (List Grouping)) (i : Nat)
    (ix : List Nat) :
    (choiceAt (gs :: suits) (i :: ix)).length =
      (gs.getD i []).length + (choiceAt suits ix).length :=
  List.length_append

theorem mem_indices {suits : List (List Grouping)} {ix : List Nat} :
    ix ∈ indices suits ↔ IsIndex suits ix := by
  induction suits generalizing ix with
  | nil => simp [indices, IsIndex]
  | cons gs suits ih =>
    simp only [indices, IsIndex, List.mem_flatMap, List.mem_map, List.mem_range, ih,
      List.forall₂_cons_right_iff]
    constructor
    · intro h
      obtain ⟨i, hi, iy, hiy, rfl⟩ := h
      exact ⟨i, iy, hi, hiy, rfl⟩
    · intro h
      obtain ⟨i, iy, hi, hiy, rfl⟩ := h
      exact ⟨i, hi, iy, hiy, rfl⟩

theorem pairwise_indices (suits : List (List Grouping)) : (indices suits).Pairwise (· < ·) := by
  induction suits with
  | nil => simp [indices]
  | cons gs suits ih =>
    rw [indices, List.pairwise_flatMap]
    constructor
    · intro i _
      exact List.pairwise_map.mpr (ih.imp fun h => List.cons_lt_cons_iff.mpr (Or.inr ⟨rfl, h⟩))
    · apply List.pairwise_lt_range.imp
      intro i j hij ix hix iy hiy
      obtain ⟨ix, -, rfl⟩ := List.mem_map.mp hix
      obtain ⟨iy, -, rfl⟩ := List.mem_map.mp hiy
      exact List.cons_lt_cons_iff.mpr (Or.inl hij)

/-! ### Suits in layers -/

/-- Each suit's groupings with the fewest units first, those of one number in the order in which they
came. -/
def sortedSuits (suits : List (List Grouping)) : List (List Grouping) :=
  suits.map (sortBy List.length)

theorem Layers.flatMap_ofList (gs : List Grouping) :
    (Layers.ofList gs).flatMap Prod.snd = sortBy List.length gs := by
  rw [sortBy_eq_flatMap_range, ofList]
  generalize List.range _ = sizes
  induction sizes with
  | nil => rfl
  | cons n sizes ih =>
    rw [List.flatMap_cons, ← ih, List.filterMap_cons]
    split
    · rename_i hnone
      split at hnone
      · rename_i hnil
        rw [hnil, List.nil_append]
      · cases hnone
    · rename_i layer hsome
      split at hsome
      · cases hsome
      · rw [List.flatMap_cons, ← Option.some.inj hsome]

/-- A suit's groupings with the combinations of the other suits that bring them to a total; the sums
that are looked up beforehand make no difference. -/
theorem Stage.combine_ofSuits_cons (gs : List Grouping) (suits : List (List Grouping)) (total : Nat) :
    combine (ofSuits ((gs :: suits).map Layers.ofList)) total none =
      (sortBy List.length gs).flatMap fun g =>
        if g.length ≤ total then
          (combine (ofSuits (suits.map Layers.ofList)) (total - g.length) none).map (g ++ ·)
        else [] := by
  rw [List.map_cons, ofSuits_cons, combine_cons, ← Layers.flatMap_ofList, List.flatMap_assoc]
  apply List.flatMap_congr
  intro layer hlayer
  have hlen : ∀ g ∈ layer.2, g.length = layer.1 := fun g hg =>
    (Layers.exists_mem_iff.mp ⟨layer, hlayer, rfl, hg⟩).2
  split
  · rename_i htotal
    apply List.flatMap_congr
    intro g hg
    rw [hlen g hg, if_pos htotal.1]
  · rename_i htotal
    symm
    apply List.flatMap_eq_nil_iff.mpr
    intro g hg
    rw [hlen g hg]
    split
    · rename_i hle
      -- no choice of the other suits has the size that is left
      apply List.map_eq_nil_iff.mpr
      apply List.eq_nil_iff_forall_not_mem.mpr
      intro rest hrest
      exact htotal ⟨hle, mem_sums.mpr ⟨rest, mem_combine.mp hrest⟩⟩
    · rfl

theorem map_getD_range (gs : List Grouping) :
    (List.range gs.length).map (fun i => gs.getD i []) = gs := by
  apply List.ext_getElem
  · rw [List.length_map, List.length_range]
  · intro i hi hlen
    rw [List.getElem_map, List.getElem_range, List.getD_eq_getElem gs [] hlen]

theorem Stage.combine_eq_filter_indices (suits : List (List Grouping)) (total : Nat) :
    combine (ofSuits (suits.map Layers.ofList)) total none =
      ((indices (sortedSuits suits)).filter fun ix =>
        (choiceAt (sortedSuits suits) ix).length == total).map (choiceAt (sortedSuits suits)) := by
  induction suits generalizing total with
  | nil =>
    simp only [sortedSuits, List.map_nil, ofSuits, combine, indices, Budget.cut]
    by_cases htotal : total = 0
    · simp [htotal, choiceAt]
    · simp [htotal, Ne.symm htotal, choiceAt]
  | cons gs suits ih =>
    have hcons : sortedSuits (gs :: suits) = sortBy List.length gs :: sortedSuits suits := rfl
    rw [combine_ofSuits_cons, hcons]
    simp only [ih]
    generalize sortBy List.length gs = sorted
    generalize sortedSuits suits = others
    conv_lhs => rw [← map_getD_range sorted]
    rw [indices, List.flatMap_map, List.filter_flatMap, List.map_flatMap]
    apply List.flatMap_congr
    intro i _
    rw [List.filter_map, List.map_map, List.map_map]
    split
    · rename_i hle
      congr 1
      apply List.filter_congr
      intro ix _
      rw [Function.comp_apply, length_choiceAt_cons, Bool.beq_eq_decide_eq, Bool.beq_eq_decide_eq,
        decide_eq_decide]
      omega
    · rename_i hlt
      symm
      rw [List.map_eq_nil_iff, List.filter_eq_nil_iff]
      intro ix _
      rw [Function.comp_apply, length_choiceAt_cons, beq_iff_eq]
      omega

theorem Stage.length_mem_sums {suits : List (List Grouping)} {ix : List Nat}
    (h : ix ∈ indices (sortedSuits suits)) :
    (choiceAt (sortedSuits suits) ix).length ∈ sums (ofSuits (suits.map Layers.ofList)) := by
  have hfound : choiceAt (sortedSuits suits) ix ∈ combine (ofSuits (suits.map Layers.ofList))
      (choiceAt (sortedSuits suits) ix).length none := by
    rw [combine_eq_filter_indices]
    exact List.mem_map_of_mem (List.mem_filter.mpr ⟨h, beq_self_eq_true _⟩)
  exact mem_sums.mpr ⟨_, mem_combine.mp hfound⟩

theorem Stage.pairwise_sorted_sums (suits : List (List Grouping)) :
    (sortBy id (sums (ofSuits (suits.map Layers.ofList)))).Pairwise (· < ·) := by
  have hnodup := (sortBy_perm id _).nodup_iff.mpr (nodup_sums suits)
  exact (pairwise_sortBy id _).imp₂ (fun _ _ => Nat.lt_of_le_of_ne) hnodup

/-! ### The order of the combinations -/

/-- The positions by the number of units found there. -/
def positions (suits : List (List Grouping)) : List (List Nat) :=
  sortBy (fun ix => (choiceAt suits ix).length) (indices suits)

theorem combineSuits_eq_positions (suits : List (List Grouping)) :
    combineSuits none suits =
      (positions (sortedSuits suits)).map (choiceAt (sortedSuits suits)) := by
  unfold combineSuits
  rw [Budget.gather_eq _ fun b total => Stage.combine_eq_cut _ total b]
  have htotals := Stage.pairwise_sorted_sums suits
  rw [positions, sortBy_eq_flatMap _ htotals fun ix hix =>
    (mem_sortBy id).mpr (Stage.length_mem_sums hix), List.map_flatMap]
  apply List.flatMap_congr
  intro total _
  exact Stage.combine_eq_filter_indices suits total

theorem combineSuits_eq_cut_positions (b : Budget) (suits : List (List Grouping)) :
    combineSuits b suits =
      (b.cut (positions (sortedSuits suits))).map (choiceAt (sortedSuits suits)) := by
  rw [combineSuits_eq_cut, combineSuits_eq_positions, Budget.cut_map]

theorem mem_positions {suits : List (List Grouping)} {ix : List Nat} :
    ix ∈ positions suits ↔ IsIndex suits ix := by
  rw [positions, mem_sortBy, mem_indices]

theorem nodup_positions (suits : List (List Grouping)) : (positions suits).Nodup :=
  (sortBy_perm _ _).nodup_iff.mpr (pairwise_indices suits).nodup

theorem pairwise_positions (suits : List (List Grouping)) :
    (positions suits).Pairwise (Precedes suits) :=
  pairwise_sortBy_of_pairwise _ (pairwise_indices suits)

end TractorRules
