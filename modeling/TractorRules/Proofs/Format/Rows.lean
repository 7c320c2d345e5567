import TractorRules.Proofs.Format.Preference
import TractorRules.Proofs.Format.BreadthFirst

/-!
# Rows of a decomposition

The search for weaker shapes needs no bound: it ends by itself when no shape is pending
(`search_derived`), it finds no shape twice (`nodup_derived`), and it finds what a breadth-first search
sees.  So the rows after the first are the shapes that can be derived from the lead, each once
(`rows_are_derived_shapes`).  They lead down from the format's own shape to single cards, which every
other row is preferred to (`weaker_rows_are_less_preferred`).
-/

namespace TractorRules

namespace Shape

/-! ### The end of the search -/

/-- A search without a bound on its levels, which ends when no shape is pending, and what it finds. -/
inductive Search : (units : Nat) → (pending found : List Shape) → Prop
  | done (units : Nat) : Search units [] []
  | level {units : Nat} {pending found : List Shape} (hne : pending ≠ [])
    (h : Search (units + 1) (afterLevel units pending) found) :
    Search units pending (Shape.level units pending ++ found)

theorem derived_nil (levels units : Nat) : derived levels units [] = [] := by
  induction levels generalizing units with
  | zero => rfl
  | succ levels ih =>
    have hlevel : level units [] = [] := by
      rw [List.eq_nil_iff_forall_not_mem]
      intro s hs
      exact List.not_mem_nil (mem_level_iff.mp hs).1
    have hafter : afterLevel units [] = [] := by
      rw [afterLevel, hlevel]
      rfl
    rw [derived_succ, hlevel, hafter, ih, List.append_nil]

/-- As many levels as there may be units are all that a search without a bound takes. -/
theorem search_derived {n levels units : Nat} (hn : levels + units = n + 1) {pending : List Shape}
    (hp : AllPending n units pending) : Search units pending (derived levels units pending) := by
  induction levels generalizing units pending with
  | zero =>
    rw [hp.eq_nil (by omega)]
    exact .done units
  | succ levels ih =>
    by_cases hnil : pending = []
    · rw [hnil, derived_nil]
      exact .done units
    · rw [derived_succ]
      exact .level hnil (ih (by omega) hp.afterLevel)

/-! ### No shape comes twice -/

theorem nodup_distinct (shapes : List Shape) : (distinct shapes).Nodup :=
  Std.HashSet.distinct_toList.imp fun hne heq => by simp [heq] at hne

/-- The shapes of later levels have more units, and within a level all are distinct. -/
theorem nodup_derived {n levels units : Nat} (hn : levels + units = n + 1) {pending : List Shape}
    (hp : AllPending n units pending) : (derived levels units pending).Nodup := by
  induction levels generalizing units pending with
  | zero => exact List.nodup_nil
  | succ levels ih =>
    rw [derived_succ, List.nodup_append]
    refine ⟨nodup_distinct _, ih (by omega) hp.afterLevel, fun s hs t ht => ?_⟩
    rintro rfl
    obtain ⟨-, hunits⟩ := mem_level_iff.mp hs
    obtain ⟨-, m, hm, hweak⟩ := (mem_derived_iff (by omega) hp.afterLevel).mp ht
    have hmore := (hp.afterLevel m hm).2.2
    have hle := hweak.card_le
    rw [Multiset.coe_card, Multiset.coe_card] at hle
    omega

end Shape

/-! ### Rows -/

namespace TrickFormat

/-- Rows in canonical order are the same multiset only when they are equal. -/
theorem pairwise_not_perm_weaker [RowOrder] (f : TrickFormat) :
    f.weaker.Pairwise fun row row' => ¬row.Perm row' := by
  obtain ⟨hstart, hlevels⟩ := f.allPending_start
  have hnodup : f.weaker.Nodup :=
    (Shape.sortRows_perm _ _).nodup_iff.mpr ((Shape.nodup_derived hlevels hstart).filter _)
  refine hnodup.imp_of_mem fun {row row'} hrow hrow' hne hperm => hne ?_
  rw [← (mem_weaker_iff.mp hrow).1, ← (mem_weaker_iff.mp hrow').1]
  exact Shape.canonical_eq_iff.mpr hperm

theorem pairwise_not_perm_decomposition [RowOrder] (f : TrickFormat) {policy : DrawPolicy}
    (hp : policy ≠ .noFormatBasedDraw) :
    (f.decomposition policy).Pairwise fun row row' => ¬row.Perm row' := by
  rw [decomposition_eq hp, List.pairwise_cons]
  exact ⟨fun row => not_perm_of_mem_weaker, f.pairwise_not_perm_weaker⟩

/-- Of every weaker multiset of units there is a row. -/
theorem exists_weaker_iff [RowOrder] {f : TrickFormat} {s : Multiset UnitShape} :
    (∃ row ∈ f.weaker, (row : Multiset UnitShape) = s) ↔
      WeakensTo (f.units : Multiset UnitShape) s ∧ s ≠ f.units := by
  constructor
  · intro h
    obtain ⟨row, hrow, rfl⟩ := h
    refine ⟨(mem_weaker_iff.mp hrow).2.2, fun heq => ?_⟩
    exact not_perm_of_mem_weaker hrow (Multiset.coe_eq_coe.mp heq).symm
  · intro h
    obtain ⟨hweak, hne⟩ := h
    obtain ⟨row, rfl⟩ : ∃ row : Shape, (row : Multiset UnitShape) = s := Quot.exists_rep s
    refine ⟨row.canonical, mem_weaker_iff.mpr ⟨Shape.canonical_canonical row, ?_, ?_⟩,
      Shape.canonical_coe row⟩
    · intro heq
      exact hne (Multiset.coe_eq_coe.mpr (Shape.canonical_eq_iff.mp heq))
    · rwa [Shape.canonical_coe]

/-- The rows after the first are what a breadth-first search has seen at its end, but for the start. -/
theorem exists_breadthFirst_weaker [RowOrder] (f : TrickFormat) :
    ∃ seen, (∀ seen', Shape.BreadthFirst [f.units.canonical] [f.units.canonical] seen' ↔
        seen' = seen) ∧ f.weaker.Perm (seen.erase f.units.canonical) := by
  obtain ⟨hstart, hlevels⟩ := f.allPending_start
  have hnodup := Shape.nodup_derived hlevels hstart
  obtain ⟨seen, hseen, hperm⟩ := Shape.exists_breadthFirst (Shape.canonical_canonical f.units) hnodup
    fun t => by simp only [Shape.mem_derived_iff hlevels hstart, List.mem_singleton, exists_eq_left]
  refine ⟨seen, hseen, ?_⟩
  rw [weaker, ← hnodup.erase_eq_filter]
  exact (Shape.sortRows_perm _ _).trans (hperm.symm.erase _)

/-- The search for weaker shapes ends, level by level as well as breadth-first with a queue, and both
find the same.  The first row is the format's own shape, the others are the shapes that can be derived
from it, each once, all have the format's size, and every unit of a row is a shape. -/
theorem rows_are_derived_shapes [RowOrder] (f : TrickFormat) {policy : DrawPolicy}
    (hp : policy ≠ .noFormatBasedDraw) :
    (∃ found, Shape.Search f.units.canonical.length [f.units.canonical] found ∧
      f.decomposition policy =
        f.units :: Shape.sortRows f.units.canonical (found.filter (· != f.units.canonical))) ∧
    (∃ seen, (∀ seen', Shape.BreadthFirst [f.units.canonical] [f.units.canonical] seen' ↔
        seen' = seen) ∧
      (f.decomposition policy).tail.Perm (seen.erase f.units.canonical)) ∧
    (∀ s : Multiset UnitShape,
      (∃ row ∈ (f.decomposition policy).tail, (row : Multiset UnitShape) = s) ↔
        WeakensTo (f.units : Multiset UnitShape) s ∧ s ≠ f.units) ∧
    ((f.decomposition policy).Pairwise fun row row' => ¬row.Perm row') ∧
    ∀ row ∈ f.decomposition policy, row.size = f.size ∧
      ∀ u ∈ row, UnitShape.ofTuples (u.tuples.map Int.ofNat) = .ok u := by
  obtain ⟨hstart, hlevels⟩ := f.allPending_start
  refine ⟨⟨_, Shape.search_derived hlevels hstart, decomposition_eq hp⟩, ?_, fun s => ?_,
    f.pairwise_not_perm_decomposition hp, ?_⟩
  · rw [decomposition_eq hp]
    exact f.exists_breadthFirst_weaker
  · rw [decomposition_eq hp, List.tail_cons]
    exact exists_weaker_iff
  · exact fun row hrow => ⟨size_of_mem_decomposition hrow, fun u _ => u.ofTuples_tuples⟩

/-- A tractor of two triples is led. -/
def triplesFormat : TrickFormat where
  suit := .plain .spades
  trump := ⟨some .hearts, some .two⟩
  units := [⟨3, 2, by omega, by omega⟩]

section

open scoped RowOrder

/-- One of the rows asks for a tractor of two pairs and two singles. -/
theorem triples_lowered_to_pairs :
    DrawPolicy.longerTuplesProtected ≠ .noFormatBasedDraw ∧
      ∃ row ∈ (triplesFormat.decomposition .longerTuplesProtected).tail,
        (row : Multiset UnitShape) =
          ([⟨2, 2, by omega, by omega⟩, .single, .single] : List UnitShape) := by
  have hp : DrawPolicy.longerTuplesProtected ≠ .noFormatBasedDraw := by decide
  obtain ⟨-, -, hrows, -⟩ := rows_are_derived_shapes triplesFormat hp
  refine ⟨hp, (hrows _).mpr ⟨.single ⟨⟨3, 2, by omega, by omega⟩, by simp [triplesFormat], _,
    .lower 2 2 (by omega) (by omega), ?_⟩, by decide⟩⟩
  decide

end

/-! ### The last row -/

/-- Everything can be weakened to single cards, so that nothing is less preferred. -/
theorem preference_lt_singles [RowOrder] {f : TrickFormat} {policy : DrawPolicy} {row : Shape}
    (hrow : row ∈ f.decomposition policy) (hne : ¬row.Perm (List.replicate f.size .single)) :
    compare row.preference (Shape.preference (List.replicate f.size .single)) = .lt := by
  have hweak := weakensTo_singles (row : Multiset UnitShape)
  rw [totalSize_coe, size_of_mem_decomposition hrow, ← Multiset.coe_replicate] at hweak
  exact hweak.preference_lt hne

theorem exists_decomposition_eq_append [RowOrder] (f : TrickFormat) {policy : DrawPolicy}
    (hp : policy ≠ .noFormatBasedDraw) :
    ∃ others : List Shape, f.decomposition policy = others ++ [List.replicate f.size .single] ∧
      ∀ row ∈ others, compare row.preference
        (Shape.preference (List.replicate f.size .single)) = .lt := by
  obtain ⟨others, later, heq⟩ := List.append_of_mem (f.singles_mem_decomposition policy)
  have hdistinct := f.pairwise_not_perm_decomposition hp
  have hsorted := f.pairwise_decomposition policy
  have hmem {row : Shape} (h : row ∈ others ++ List.replicate f.size .single :: later) :
      row ∈ f.decomposition policy := heq ▸ h
  rw [heq, List.pairwise_append, List.pairwise_cons] at hdistinct hsorted
  obtain ⟨-, ⟨hdistinctLater, -⟩, hdistinctOthers⟩ := hdistinct
  obtain ⟨-, ⟨hsortedLater, -⟩, -⟩ := hsorted
  have hnone : later = [] := by
    apply List.eq_nil_iff_forall_not_mem.mpr
    intro row hrow
    have hlt := preference_lt_singles (hmem (by simp [hrow])) fun hperm =>
      hdistinctLater row hrow hperm.symm
    exact Shape.not_noWorse_iff.mpr hlt (hsortedLater row hrow)
  subst hnone
  refine ⟨others, heq, fun row hrow => ?_⟩
  apply preference_lt_singles
  · exact hmem (List.mem_append_left _ hrow)
  · exact hdistinctOthers row hrow _ List.mem_cons_self

/-- What is one step weaker is less preferred.  So the rows come in order of preference, the format's
own shape is strictly preferred to all others, and the last row is that of single cards, to which all
others are strictly preferred. -/
theorem weaker_rows_are_less_preferred [RowOrder] :
    (∀ s t : Shape, t ∈ s.reductions → compare s.preference t.preference = .lt) ∧
    ∀ (f : TrickFormat) (policy : DrawPolicy), policy ≠ .noFormatBasedDraw →
      (∃ rest, f.decomposition policy = f.units :: rest ∧
        ∀ row ∈ rest, compare f.units.preference row.preference = .lt) ∧
      (f.decomposition policy).Pairwise Shape.NoWorse ∧
      ∃ others : List Shape, f.decomposition policy = others ++ [List.replicate f.size .single] ∧
        ∀ row ∈ others, compare row.preference
          (Shape.preference (List.replicate f.size .single)) = .lt := by
  constructor
  · intro s t ht
    exact (Shape.mem_reductions_iff.mp ht).2.preference_lt
  · intro f policy hp
    refine ⟨⟨f.weaker, decomposition_eq hp, fun row => preference_lt_of_mem_weaker⟩,
      f.pairwise_decomposition policy, f.exists_decomposition_eq_append hp⟩

def triplesLowered : Shape := [⟨2, 2, by omega, by omega⟩, .single, .single]

section

open scoped RowOrder

/-- Two triples in a row are preferred to two pairs in a row with two singles, which is a row, and the
last row is that of six singles. -/
theorem triples_preferred_to_pairs :
    triplesLowered ∈ triplesFormat.units.reductions ∧
      DrawPolicy.longerTuplesProtected ≠ .noFormatBasedDraw ∧
      compare triplesFormat.units.preference triplesLowered.preference = .lt ∧
      (triplesFormat.decomposition .longerTuplesProtected).getLast? =
        some (List.replicate 6 .single) ∧
      compare triplesLowered.preference (Shape.preference (List.replicate 6 .single)) = .lt := by
  have hp : DrawPolicy.longerTuplesProtected ≠ .noFormatBasedDraw := by decide
  have hmem : triplesLowered ∈ triplesFormat.units.reductions := by
    refine Shape.mem_reductions_iff.mpr ⟨List.mergeSort_of_pairwise (by decide), ?_⟩
    exact ⟨⟨3, 2, by omega, by omega⟩, by decide, _, .lower 2 2 (by omega) (by omega), by decide⟩
  obtain ⟨hstep, hrows⟩ := weaker_rows_are_less_preferred
  obtain ⟨-, -, others, heq, hlast⟩ := hrows triplesFormat .longerTuplesProtected hp
  have hrow : triplesLowered ∈ others ++ [List.replicate 6 .single] :=
    heq ▸ mem_decomposition_of_mem_reductions hp hmem
  have hother : triplesLowered ∈ others := by
    rcases List.mem_append.mp hrow with hmem | hmem
    · exact hmem
    · exact absurd (List.mem_singleton.mp hmem) (by decide)
  refine ⟨hmem, hp, hstep _ _ hmem, ?_, hlast _ hother⟩
  rw [heq, List.getLast?_concat]
  rfl

end

end TrickFormat

end TractorRules
