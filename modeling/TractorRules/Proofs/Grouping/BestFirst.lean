import TractorRules.Proofs.Grouping.Product
import Mathlib.Data.List.Permutation

/-!
# Best-first search

The combinations of the suits could also be found by a search that starts at the first position in
each suit, takes the least pending position every time and goes one step further from there in each
suit.  As sorted groupings never become smaller, the next position of all is always pending
(`Frontier.mem_pending`), and each step keeps this so (`Frontier.advance`).  So this search comes to
the same combinations in the same order (`combineSuits_is_sorted_product`).
-/

namespace TractorRules

/-! ### One step further -/

/-- The positions one step further in one suit, those of the first suit first. -/
def advances : List (List Grouping) → List Nat → List (List Nat)
  | gs :: suits, i :: ix =>
    (if i + 1 < gs.length then [(i + 1) :: ix] else []) ++ (advances suits ix).map (i :: ·)
  | _, _ => []

def startIndex (suits : List (List Grouping)) : List Nat := suits.map fun _ => 0

variable {suits : List (List Grouping)} {ix iy u : List Nat}

theorem mem_advances_cons {gs : List Grouping} {i : Nat} :
    iy ∈ advances (gs :: suits) (i :: ix) ↔
      (i + 1 < gs.length ∧ iy = (i + 1) :: ix) ∨ ∃ iz ∈ advances suits ix, i :: iz = iy := by
  rw [advances, List.mem_append, List.mem_map, List.mem_ite_nil_right, List.mem_singleton]

theorem isIndex_of_mem_advances (h : IsIndex suits ix) (hmem : iy ∈ advances suits ix) :
    IsIndex suits iy ∧ ix < iy := by
  induction h generalizing iy with
  | nil => cases hmem
  | @cons i gs ix suits hi hix ih =>
    rcases mem_advances_cons.mp hmem with ⟨hnext, rfl⟩ | ⟨iz, hiz, rfl⟩
    · exact ⟨.cons hnext hix, List.cons_lt_cons_iff.mpr (Or.inl (Nat.lt_succ_self i))⟩
    · obtain ⟨hvalid, hlt⟩ := ih hiz
      exact ⟨.cons hi hvalid, List.cons_lt_cons_iff.mpr (Or.inr ⟨rfl, hlt⟩)⟩

theorem nodup_advances (suits : List (List Grouping)) (ix : List Nat) :
    (advances suits ix).Nodup := by
  induction suits generalizing ix with
  | nil => exact .nil
  | cons gs suits ih =>
    cases ix with
    | nil => exact .nil
    | cons i ix =>
      have hlater : ((advances suits ix).map (i :: ·)).Nodup :=
        (ih ix).map fun _ _ heq => (List.cons.inj heq).2
      rw [advances]
      split
      · apply List.nodup_cons.mpr ⟨?_, hlater⟩
        intro hmem
        obtain ⟨iz, -, heq⟩ := List.mem_map.mp hmem
        have hi := (List.cons.inj heq).1
        omega
      · exact hlater

theorem isIndex_startIndex (hne : ∀ gs ∈ suits, gs ≠ []) : IsIndex suits (startIndex suits) := by
  induction suits with
  | nil => exact .nil
  | cons gs suits ih =>
    obtain ⟨hfirst, hlater⟩ := List.forall_mem_cons.mp hne
    exact .cons (List.length_pos_iff.mpr hfirst) (ih hlater)

theorem Precedes.asymm (h : Precedes suits ix iy) : ¬Precedes suits iy ix := by
  intro hback
  rcases h with hlt | ⟨heq, hlt⟩
  · rcases hback with hless | ⟨hsame, -⟩
    · omega
    · omega
  · rcases hback with hless | ⟨-, hless⟩
    · omega
    · exact List.lt_asymm hlt hless

theorem Precedes.cons {gs : List Grouping} (i : Nat) (h : Precedes suits ix iy) :
    Precedes (gs :: suits) (i :: ix) (i :: iy) := by
  unfold Precedes
  rw [length_choiceAt_cons, length_choiceAt_cons]
  rcases h with hlt | ⟨heq, hlt⟩
  · left
    omega
  · exact Or.inr ⟨by omega, List.cons_lt_cons_iff.mpr (Or.inr ⟨rfl, hlt⟩)⟩

/-! ### The search -/

/-- The steps from a position that were not seen before. -/
def fresh (suits : List (List Grouping)) (seen : List (List Nat)) (ix : List Nat) :
    List (List Nat) :=
  (advances suits ix).filter fun iy => decide (iy ∉ seen)

theorem mem_fresh {seen : List (List Nat)} :
    iy ∈ fresh suits seen ix ↔ iy ∈ advances suits ix ∧ iy ∉ seen := by
  rw [fresh, List.mem_filter, decide_eq_true_eq]

/-- Takes a least pending position again and again, until none is pending or the budget is spent;
the fresh steps from it become pending. -/
inductive BestFirst (suits : List (List Grouping)) :
    Budget → (pending seen found : List (List Nat)) → Prop
  | spent (pending seen : List (List Nat)) : BestFirst suits (some 0) pending seen []
  | exhausted (b : Budget) (seen : List (List Nat)) : BestFirst suits b [] seen []
  | take {b : Budget} {pending seen found rest : List (List Nat)} {ix : List Nat}
      (hbudget : b ≠ some 0) (hpending : pending.Perm (ix :: rest))
      (hleast : ∀ iy ∈ rest, ¬Precedes suits iy ix)
      (hlater : BestFirst suits (b.less 1) (rest ++ fresh suits seen ix) (seen ++ fresh suits seen ix)
        found) :
      BestFirst suits b pending seen (ix :: found)

/-- What is seen before the positions `later` are those `done` and those pending, and whatever is one
step from those done. -/
structure Frontier (suits : List (List Grouping)) (done later pending seen : List (List Nat)) :
    Prop where
  positions_eq : positions suits = done ++ later
  nodup : pending.Nodup
  pending_later : ∀ ix ∈ pending, ix ∈ later
  seen_iff : ∀ ix, ix ∈ seen ↔ ix ∈ done ∨ ix ∈ pending
  start_seen : startIndex suits ∈ seen
  steps_seen : ∀ ix ∈ done, ∀ iy ∈ advances suits ix, iy ∈ seen

variable {done later pending seen rest found : List (List Nat)} {b : Budget}

theorem frontier_start (hne : ∀ gs ∈ suits, gs ≠ []) :
    Frontier suits [] (positions suits) [startIndex suits] [startIndex suits] where
  positions_eq := rfl
  nodup := List.nodup_singleton _
  pending_later := by
    intro ix hix
    rw [List.mem_singleton.mp hix]
    exact mem_positions.mpr (isIndex_startIndex hne)
  seen_iff := by simp
  start_seen := List.mem_singleton_self _
  steps_seen := by simp

theorem Frontier.precedes_later (h : Frontier suits done (u :: later) pending seen)
    (hix : ix ∈ later) : Precedes suits u ix := by
  have hpairwise := pairwise_positions suits
  rw [h.positions_eq, List.pairwise_append, List.pairwise_cons] at hpairwise
  exact hpairwise.2.1.1 ix hix

theorem Frontier.isIndex (h : Frontier suits done (u :: later) pending seen) : IsIndex suits u := by
  rw [← mem_positions, h.positions_eq]
  exact List.mem_append_right done List.mem_cons_self

theorem Frontier.place (h : Frontier suits done (u :: later) pending seen)
    (hix : IsIndex suits ix) : ix ∈ done ∨ ix = u ∨ ix ∈ later := by
  rw [← mem_positions, h.positions_eq, List.mem_append, List.mem_cons] at hix
  exact hix

theorem Frontier.notMem_done (h : Frontier suits done (u :: later) pending seen) : u ∉ done := by
  have hnodup := nodup_positions suits
  rw [h.positions_eq] at hnodup
  intro hu
  exact List.disjoint_of_nodup_append hnodup hu List.mem_cons_self

theorem Frontier.advance (h : Frontier suits done (u :: later) pending seen)
    (hperm : pending.Perm (u :: rest)) :
    Frontier suits (done ++ [u]) later (rest ++ fresh suits seen u) (seen ++ fresh suits seen u) where
  positions_eq := by rw [h.positions_eq, List.append_assoc, List.singleton_append]
  nodup := by
    have hrest : rest.Nodup := (List.nodup_cons.mp (hperm.nodup_iff.mp h.nodup)).2
    have hfresh : (fresh suits seen u).Nodup := (nodup_advances suits u).filter _
    apply List.nodup_append'.mpr ⟨hrest, hfresh, ?_⟩
    intro ix hix hnew
    have hpending : ix ∈ pending := hperm.mem_iff.mpr (List.mem_cons_of_mem u hix)
    exact (mem_fresh.mp hnew).2 ((h.seen_iff ix).mpr (Or.inr hpending))
  pending_later := by
    intro ix hix
    rcases List.mem_append.mp hix with hrest | hnew
    · have hplace := h.pending_later ix (hperm.mem_iff.mpr (List.mem_cons_of_mem u hrest))
      apply (List.mem_cons.mp hplace).resolve_left
      rintro rfl
      exact (List.nodup_cons.mp (hperm.nodup_iff.mp h.nodup)).1 hrest
    · obtain ⟨hstep, hunseen⟩ := mem_fresh.mp hnew
      obtain ⟨hvalid, hlt⟩ := isIndex_of_mem_advances h.isIndex hstep
      rcases h.place hvalid with hdone | rfl | hlater
      · exact absurd ((h.seen_iff ix).mpr (Or.inl hdone)) hunseen
      · exact absurd hlt (List.lt_irrefl ix)
      · exact hlater
  seen_iff := by
    intro ix
    simp only [List.mem_append, h.seen_iff, hperm.mem_iff, List.mem_cons, List.not_mem_nil, or_false]
    tauto
  start_seen := List.mem_append_left _ h.start_seen
  steps_seen := by
    intro ix hix iy hstep
    by_cases hseen : iy ∈ seen
    · exact List.mem_append_left _ hseen
    · rcases List.mem_append.mp hix with hdone | hu
      · exact absurd (h.steps_seen ix hdone iy hstep) hseen
      · rw [List.mem_singleton.mp hu] at hstep
        exact List.mem_append_right _ (mem_fresh.mpr ⟨hstep, hseen⟩)

/-! ### Searching sorted groupings -/

section Sorted

variable (hsorted : ∀ gs ∈ suits, gs.Pairwise fun g g' => g.length ≤ g'.length)
include hsorted

/-- Sorted groupings do not become smaller, so any other position is a step from a preceding one. -/
theorem exists_mem_advances (h : IsIndex suits u) (hne : u ≠ startIndex suits) :
    ∃ ix, IsIndex suits ix ∧ u ∈ advances suits ix ∧ Precedes suits ix u := by
  induction h with
  | nil => exact absurd rfl hne
  | @cons i gs ix suits hi hix ih =>
    obtain ⟨hfirst, hlater⟩ := List.forall_mem_cons.mp hsorted
    cases i with
    | zero =>
      have hneLater : ix ≠ startIndex suits := by
        rintro rfl
        exact hne rfl
      obtain ⟨iz, hiz, hmem, hprec⟩ := ih hlater hneLater
      exact ⟨0 :: iz, .cons hi hiz, mem_advances_cons.mpr (Or.inr ⟨ix, hmem, rfl⟩), hprec.cons 0⟩
    | succ j =>
      refine ⟨j :: ix, .cons (by omega) hix, mem_advances_cons.mpr (Or.inl ⟨hi, rfl⟩), ?_⟩
      have hle : (gs.getD j []).length ≤ (gs.getD (j + 1) []).length := by
        rw [List.getD_eq_getElem gs [] hi, List.getD_eq_getElem gs [] (Nat.lt_of_succ_lt hi)]
        exact List.pairwise_iff_getElem.mp hfirst j (j + 1) _ hi (Nat.lt_succ_self j)
      have hlt : j :: ix < (j + 1) :: ix := List.cons_lt_cons_iff.mpr (Or.inl (Nat.lt_succ_self j))
      unfold Precedes
      rw [length_choiceAt_cons, length_choiceAt_cons]
      rcases Nat.lt_or_eq_of_le hle with hless | heq
      · left
        omega
      · exact Or.inr ⟨by omega, hlt⟩

theorem Frontier.mem_pending (h : Frontier suits done (u :: later) pending seen) :
    u ∈ pending := by
  have hseen : u ∈ seen := by
    by_cases hstart : u = startIndex suits
    · rw [hstart]
      exact h.start_seen
    · obtain ⟨ix, hix, hmem, hprec⟩ := exists_mem_advances hsorted h.isIndex hstart
      rcases h.place hix with hdone | rfl | hlater
      · exact h.steps_seen ix hdone u hmem
      · exact absurd hprec hprec.asymm
      · exact absurd hprec (h.precedes_later hlater).asymm
  exact ((h.seen_iff u).mp hseen).resolve_left h.notMem_done

theorem Frontier.eq_of_least (h : Frontier suits done (u :: later) pending seen)
    (hperm : pending.Perm (ix :: rest)) (hleast : ∀ iy ∈ rest, ¬Precedes suits iy ix) : ix = u := by
  by_contra hne
  have hix : ix ∈ later :=
    (List.mem_cons.mp (h.pending_later ix (hperm.mem_iff.mpr List.mem_cons_self))).resolve_left hne
  have hu : u ∈ rest :=
    (List.mem_cons.mp (hperm.mem_iff.mp (h.mem_pending hsorted))).resolve_left (Ne.symm hne)
  exact hleast u hu (h.precedes_later hix)

theorem Frontier.found_eq (h : Frontier suits done later pending seen)
    (hrun : BestFirst suits b pending seen found) : found = b.cut later := by
  induction hrun generalizing done later with
  | spent => rfl
  | exhausted b =>
    cases later with
    | nil => exact b.cut_nil.symm
    | cons u later => exact absurd (h.mem_pending hsorted) List.not_mem_nil
  | take hbudget hperm hleast _ ih =>
    cases later with
    | nil => exact absurd (h.pending_later _ (hperm.mem_iff.mpr List.mem_cons_self)) List.not_mem_nil
    | cons u later =>
      obtain rfl := h.eq_of_least hsorted hperm hleast
      rw [Budget.cut_cons hbudget, ih (h.advance hperm)]

theorem Frontier.bestFirst_cut (h : Frontier suits done later pending seen) (b : Budget) :
    BestFirst suits b pending seen (b.cut later) := by
  induction later generalizing done pending seen b with
  | nil =>
    have hpending : pending = [] :=
      List.eq_nil_iff_forall_not_mem.mpr fun ix hix => List.not_mem_nil (h.pending_later ix hix)
    rw [Budget.cut_nil, hpending]
    exact .exhausted b seen
  | cons u later ih =>
    by_cases hb : b = some 0
    · rw [hb]
      exact .spent pending seen
    · have hperm : pending.Perm (u :: pending.erase u) :=
        List.perm_cons_erase (h.mem_pending hsorted)
      have hleast : ∀ iy ∈ pending.erase u, ¬Precedes suits iy u := by
        intro iy hiy
        rcases List.mem_cons.mp (h.pending_later iy (List.mem_of_mem_erase hiy)) with rfl | hlater
        · exact fun hself => hself.asymm hself
        · exact (h.precedes_later hlater).asymm
      rw [Budget.cut_cons hb]
      exact .take hb hperm hleast (ih (h.advance hperm) (b.less 1))

end Sorted

/-- Searching best-first comes to the positions of the combinations, in their order. -/
theorem bestFirst_iff (hne : ∀ gs ∈ suits, gs ≠ []) :
    BestFirst (sortedSuits suits) b [startIndex suits] [startIndex suits] found ↔
      found = b.cut (positions (sortedSuits suits)) := by
  have hne' : ∀ gs ∈ sortedSuits suits, gs ≠ [] := by
    intro gs hgs hnil
    obtain ⟨gs', hgs', rfl⟩ := List.mem_map.mp hgs
    exact hne gs' hgs' (hnil ▸ sortBy_perm List.length gs').nil_eq.symm
  have hsorted : ∀ gs ∈ sortedSuits suits,
      gs.Pairwise fun g g' => g.length ≤ g'.length := by
    intro gs hgs
    obtain ⟨gs', -, rfl⟩ := List.mem_map.mp hgs
    exact pairwise_sortBy List.length gs'
  have hstart : startIndex (sortedSuits suits) = startIndex suits := List.map_map
  rw [← hstart]
  have hfrontier := frontier_start hne'
  constructor
  · exact hfrontier.found_eq hsorted
  · rintro rfl
    exact hfrontier.bestFirst_cut hsorted b

/-- With each suit's groupings stably sorted by their number of units, the combinations are those at
all positions, each once, by their number of units and then lexicographically by the positions; a
budget cuts the list.  Where every suit has a grouping, these are just the positions that searching
best-first comes to.  So the groupings of any cards come with the fewest units first, and a budget
leaves the first of them. -/
theorem combineSuits_is_sorted_product :
    (∀ suits : List (List Grouping),
      (∀ ix, ix ∈ positions (sortedSuits suits) ↔ IsIndex (sortedSuits suits) ix) ∧
      (positions (sortedSuits suits)).Nodup ∧
      (positions (sortedSuits suits)).Pairwise (Precedes (sortedSuits suits)) ∧
      (∀ b : Budget, combineSuits b suits =
        (b.cut (positions (sortedSuits suits))).map (choiceAt (sortedSuits suits))) ∧
      ((∀ gs ∈ suits, gs ≠ []) → ∀ b, ∃ found,
        (∀ found', BestFirst (sortedSuits suits) b [startIndex suits] [startIndex suits] found' ↔
          found' = found) ∧
        combineSuits b suits = found.map (choiceAt (sortedSuits suits)))) ∧
    ∀ (t : Trump) (req : TractorRequirements) (cards : List Card),
      ((groupings t req cards none).Pairwise fun g g' => g.length ≤ g'.length) ∧
      ∀ k, groupings t req cards (some k) = (groupings t req cards none).take k := by
  constructor
  · intro suits
    refine ⟨fun ix => mem_positions, nodup_positions _, pairwise_positions _,
      fun b => combineSuits_eq_cut_positions b suits, fun hne b => ?_⟩
    exact ⟨_, fun found' => bestFirst_iff hne, combineSuits_eq_cut_positions b suits⟩
  · intro t req cards
    exact ⟨pairwise_length_groupings t req cards, fun k => groupings_eq_cut (some k)⟩

def jokerPairs : Grouping :=
  [.repeated ⟨.joker .small, 2, Nat.two_pos⟩, .repeated ⟨.joker .big, 2, Nat.two_pos⟩]

def jokerTractor : Grouping :=
  [.tractor ⟨2, [.joker .small, .joker .big], Nat.two_pos, TractorRequirements.two_le_two⟩]

def singleTwo : Grouping := [.repeated ⟨.suited .spades .two, 1, Nat.one_pos⟩]

/-- Two pairs of jokers make one tractor, and this grouping comes first. -/
theorem jokerTractor_before_jokerPairs :
    (∀ gs ∈ [[jokerPairs, jokerTractor], [singleTwo]], gs ≠ []) ∧ ∃ found,
      BestFirst (sortedSuits [[jokerPairs, jokerTractor], [singleTwo]]) none [[0, 0]] [[0, 0]]
        found ∧
      found.map (choiceAt (sortedSuits [[jokerPairs, jokerTractor], [singleTwo]])) =
        [jokerTractor ++ singleTwo, jokerPairs ++ singleTwo] := by
  have hne : ∀ gs ∈ [[jokerPairs, jokerTractor], [singleTwo]], gs ≠ [] := by decide
  obtain ⟨hsuits, -⟩ := combineSuits_is_sorted_product
  obtain ⟨-, -, -, -, hfirst⟩ := hsuits [[jokerPairs, jokerTractor], [singleTwo]]
  obtain ⟨found, hfound, heq⟩ := hfirst hne none
  exact ⟨hne, found, (hfound found).mpr rfl, heq.symm.trans (by cbv)⟩

end TractorRules
