import TractorRules.Proofs.Format.Rows

/-!
# Rows of a throw

Units are weakened independently of each other, so that what some units together can be weakened to is
what one part of them can be weakened to beside what the rest can (`weakensTo_add_iff`).  Hence the
rows of a throw are the sums of rows of its parts, in whatever order its units come
(`rows_of_throw`).
-/

namespace TractorRules

variable {s s' r r' m : Multiset UnitShape}

/-! ### Weakening side by side -/

theorem Weakens.add_right (h : Weakens s s') (r : Multiset UnitShape) : Weakens (s + r) (s' + r) := by
  obtain ⟨u, hu, parts, hparts, rfl⟩ := h
  refine ⟨u, Multiset.mem_add.mpr (Or.inl hu), parts, hparts, ?_⟩
  rw [Multiset.erase_add_left_pos r hu, add_right_comm]

theorem Weakens.add_left (h : Weakens r r') (s : Multiset UnitShape) : Weakens (s + r) (s + r') := by
  rw [add_comm s r, add_comm s r']
  exact h.add_right s

/-- A step weakens one unit, which is in one of the parts, and leaves the other part as it is. -/
theorem Weakens.of_add (h : Weakens (s + r) m) :
    (∃ s', Weakens s s' ∧ m = s' + r) ∨ ∃ r', Weakens r r' ∧ m = s + r' := by
  obtain ⟨u, hu, parts, hparts, rfl⟩ := h
  by_cases hs : u ∈ s
  · refine Or.inl ⟨s.erase u + parts, ⟨u, hs, parts, hparts, rfl⟩, ?_⟩
    rw [Multiset.erase_add_left_pos r hs, add_right_comm]
  · have hr : u ∈ r := (Multiset.mem_add.mp hu).resolve_left hs
    refine Or.inr ⟨r.erase u + parts, ⟨u, hr, parts, hparts, rfl⟩, ?_⟩
    rw [Multiset.erase_add_right_neg r hs, add_assoc]

theorem WeakensTo.add (h : WeakensTo s s') (h' : WeakensTo r r') : WeakensTo (s + r) (s' + r') := by
  have hfirst : WeakensTo (s + r) (s' + r) := h.lift (· + r) fun _ _ hstep => hstep.add_right r
  have hlast : WeakensTo (s' + r) (s' + r') := h'.lift (s' + ·) fun _ _ hstep => hstep.add_left s'
  exact hfirst.trans hlast

theorem weakensTo_add_iff :
    WeakensTo (s + r) m ↔ ∃ s', WeakensTo s s' ∧ ∃ r', WeakensTo r r' ∧ s' + r' = m := by
  constructor
  · intro h
    induction h with
    | refl => exact ⟨s, .refl, r, .refl, rfl⟩
    | tail _ hstep ih =>
      obtain ⟨s', hs, r', hr, rfl⟩ := ih
      rcases hstep.of_add with ⟨s'', hnext, rfl⟩ | ⟨r'', hnext, rfl⟩
      · exact ⟨s'', hs.tail hnext, r', hr, rfl⟩
      · exact ⟨s', hs, r'', hr.tail hnext, rfl⟩
  · intro h
    obtain ⟨s', hs, r', hr, rfl⟩ := h
    exact hs.add hr

/-! ### The set of rows -/

namespace TrickFormat

/-- The rows of a decomposition without the order of the rows and of their units. -/
def rowSet [RowOrder] (f : TrickFormat) (policy : DrawPolicy) : Set (Multiset UnitShape) :=
  {s | ∃ row ∈ f.decomposition policy, (row : Multiset UnitShape) = s}

theorem mem_rowSet_iff [RowOrder] {f : TrickFormat} {policy : DrawPolicy}
    (hp : policy ≠ .noFormatBasedDraw) :
    s ∈ f.rowSet policy ↔ WeakensTo (f.units : Multiset UnitShape) s := by
  constructor
  · intro h
    obtain ⟨row, hrow, rfl⟩ := h
    exact weakensTo_of_mem hp hrow
  · intro h
    by_cases hs : s = f.units
    · refine ⟨f.units, ?_, hs.symm⟩
      rw [decomposition_eq hp]
      exact List.mem_cons_self
    · obtain ⟨row, hrow, heq⟩ := (exists_weaker_iff (f := f)).mpr ⟨h, hs⟩
      refine ⟨row, ?_, heq⟩
      rw [decomposition_eq hp]
      exact List.mem_cons_of_mem _ hrow

/-- The rows of the units of two formats together are the sums of a row of the one and a row of the
other, and the order in which the units are listed makes no difference. -/
theorem rows_of_throw [RowOrder] (f g : TrickFormat) {policy : DrawPolicy}
    (hp : policy ≠ .noFormatBasedDraw) :
    ({ f with units := f.units ++ g.units } : TrickFormat).rowSet policy =
      {s | ∃ row ∈ f.decomposition policy, ∃ row' ∈ g.decomposition policy,
        (row + row' : Multiset UnitShape) = s} ∧
    ∀ units : Shape, units.Perm f.units →
      ({ f with units := units } : TrickFormat).rowSet policy = f.rowSet policy := by
  constructor
  · ext s
    rw [mem_rowSet_iff hp, ← Multiset.coe_add, weakensTo_add_iff]
    simp only [← mem_rowSet_iff hp]
    constructor
    · intro h
      obtain ⟨_, ⟨row, hrow, rfl⟩, _, ⟨row', hrow', rfl⟩, rfl⟩ := h
      exact ⟨row, hrow, row', hrow', rfl⟩
    · intro h
      obtain ⟨row, hrow, row', hrow', rfl⟩ := h
      exact ⟨row, ⟨row, hrow, rfl⟩, row', ⟨row', hrow', rfl⟩, rfl⟩
  · intro units hperm
    ext s
    rw [mem_rowSet_iff hp, mem_rowSet_iff hp, Multiset.coe_eq_coe.mpr hperm]

/-- A tractor of two pairs, to be led together with that of two triples. -/
def pairsBeside : TrickFormat := { triplesFormat with units := [⟨2, 2, Nat.two_pos, Nat.two_pos⟩] }

def splitPairs : Shape := [⟨2, 1, Nat.two_pos, Nat.one_pos⟩, ⟨2, 1, Nat.two_pos, Nat.one_pos⟩]

section

open scoped RowOrder

/-- One row lowers the triples to pairs and splits the pairs, whichever tractor is listed first. -/
theorem triples_lowered_beside_split_pairs :
    DrawPolicy.noProtections ≠ .noFormatBasedDraw ∧
      (triplesLowered + splitPairs : Multiset UnitShape) ∈
        ({ triplesFormat with units := pairsBeside.units ++ triplesFormat.units } :
          TrickFormat).rowSet .noProtections := by
  have hp : DrawPolicy.noProtections ≠ .noFormatBasedDraw := by decide
  have hlowered : (triplesLowered : Multiset UnitShape) ∈ triplesFormat.rowSet .noProtections :=
    (mem_rowSet_iff hp).mpr (.single ⟨⟨3, 2, by omega, by omega⟩, by decide, _,
      .lower 2 2 (by omega) (by omega), by decide⟩)
  have hsplit : (splitPairs : Multiset UnitShape) ∈ pairsBeside.rowSet .noProtections :=
    (mem_rowSet_iff hp).mpr (.single ⟨⟨2, 2, by omega, by omega⟩, by decide, _,
      .split 2 1 1 (by omega) (by omega) (by omega), by decide⟩)
  obtain ⟨row, hrow, heq⟩ := hlowered
  obtain ⟨row', hrow', heq'⟩ := hsplit
  obtain ⟨hsums, -⟩ := rows_of_throw triplesFormat pairsBeside hp
  obtain ⟨-, horder⟩ := rows_of_throw
    { triplesFormat with units := triplesFormat.units ++ pairsBeside.units } pairsBeside hp
  have hsum : (triplesLowered + splitPairs : Multiset UnitShape) ∈
      ({ triplesFormat with units := triplesFormat.units ++ pairsBeside.units } :
        TrickFormat).rowSet .noProtections := by
    rw [hsums, ← heq]
    exact ⟨row, hrow, row', hrow', congrArg _ heq'⟩
  refine ⟨hp, ?_⟩
  rw [← horder _ List.perm_append_comm] at hsum
  exact hsum

end

end TrickFormat

end TractorRules
