import TractorRules.Proofs.Format.Preference
import TractorRules.Proofs.Trick.Follow

/-!
# Equally preferred rows

Rows that are equally preferred may stand in any order.  In every order the row that binds is as
preferred as in any other, and every tied row that the held cards satisfy is the one that binds in
some order (`exists_reordering`).  So the order does not matter to a play exactly when it answers the
tied rows alike (`verdict_of_reordering`).  With three decks it can matter
(`tied_rows_disagree`).
-/

namespace TractorRules

/-- The rows in another order that keeps the first row first and the preferred rows before others. -/
structure IsReordering (rows rows' : List Shape) : Prop where
  perm : rows'.Perm rows
  head : rows'.head? = rows.head?
  sorted : rows'.Pairwise Shape.NoWorse

variable {rows rows' : List Shape} {row : Shape} {p : Shape → Bool}

/-- The first row with a property is no worse than any other with it. -/
theorem noWorse_of_find (hs : rows.Pairwise Shape.NoWorse) (h : rows.find? p = some row)
    {other : Shape} (hmem : other ∈ rows) (hp : p other = true) : row.NoWorse other := by
  obtain ⟨-, before, after, rfl, hbefore⟩ := List.find?_eq_some_iff_append.mp h
  obtain ⟨-, hafter, -⟩ := List.pairwise_append.mp hs
  cases List.mem_append.mp hmem with
  | inl hearlier =>
    have hnot := hbefore other hearlier
    rw [hp] at hnot
    cases hnot
  | inr hlater =>
    rcases List.mem_cons.mp hlater with rfl | hlater
    · exact Shape.noWorse_of_eq rfl
    · exact (List.pairwise_cons.mp hafter).1 other hlater

/-- The first row with a property is as preferred in any order as in another. -/
theorem IsReordering.exists_find (h : IsReordering rows rows') (hs : rows.Pairwise Shape.NoWorse)
    (hrow : rows.find? p = some row) :
    ∃ row', rows'.find? p = some row' ∧ row'.preference = row.preference := by
  have hp := List.find?_some hrow
  have hmem : row ∈ rows' := h.perm.mem_iff.mpr (List.mem_of_find?_eq_some hrow)
  have hsome : (rows'.find? p).isSome = true := List.find?_isSome.mpr ⟨row, hmem, hp⟩
  obtain ⟨row', hrow'⟩ := Option.isSome_iff_exists.mp hsome
  have hmem' : row' ∈ rows := h.perm.mem_iff.mp (List.mem_of_find?_eq_some hrow')
  have hle := noWorse_of_find h.sorted hrow' hmem hp
  have hge := noWorse_of_find hs hrow hmem' (List.find?_some hrow')
  exact ⟨row', hrow', hle.antisymm hge⟩

/-- A row with a property that is no worse than the others with it can be put before them. -/
theorem exists_sorted_first (hs : rows.Pairwise Shape.NoWorse) (hmem : row ∈ rows)
    (hp : p row = true) (hbest : ∀ other ∈ rows, p other = true → row.NoWorse other) :
    ∃ rows' : List Shape, rows'.Perm rows ∧ rows'.Pairwise Shape.NoWorse ∧ rows'.find? p = some row := by
  let later : Shape → Bool := fun other => (compare row.preference other.preference).isLE
  let others := rows.erase row
  have hothers : others.Pairwise Shape.NoWorse := hs.sublist List.erase_sublist
  have hbefore : ∀ other ∈ others.filter (! later ·), ¬row.NoWorse other := by
    intro other hm hle
    have hnot := (List.mem_filter.mp hm).2
    rw [show later other = true from hle] at hnot
    cases hnot
  have hafter : ∀ other ∈ others.filter later, row.NoWorse other := fun other hm =>
    (List.mem_filter.mp hm).2
  have hperm : (others.filter (! later ·) ++ row :: others.filter later).Perm rows := by
    have hsplit := List.filter_append_perm later others
    have hmove : (others.filter (! later ·) ++ row :: others.filter later).Perm
        (row :: (others.filter (! later ·) ++ others.filter later)) := List.perm_middle
    exact hmove.trans (((List.perm_append_comm.trans hsplit).cons row).trans
      (List.perm_cons_erase hmem).symm)
  refine ⟨others.filter (! later ·) ++ row :: others.filter later, hperm, ?_, ?_⟩
  · rw [List.pairwise_append, List.pairwise_cons]
    refine ⟨hothers.filter _, ⟨hafter, hothers.filter _⟩, fun a ha b hb => ?_⟩
    have hlt := Shape.not_noWorse_iff.mp (hbefore a ha)
    have hrow : a.NoWorse row := by
      rw [Shape.NoWorse, hlt]
      rfl
    rcases List.mem_cons.mp hb with rfl | hb
    · exact hrow
    · exact hrow.trans (hafter b hb)
  · rw [List.find?_append, List.find?_eq_none.mpr, Option.none_or, List.find?_cons_of_pos hp]
    intro other hm hother
    exact hbefore other hm (hbest other (List.mem_of_mem_erase (List.mem_of_mem_filter hm)) hother)

/-- Every row that ties with the one that binds, and that is satisfied as well, binds in some order. -/
theorem exists_reordering [RowOrder] {f : TrickFormat} {policy : DrawPolicy}
    (hfind : (f.decomposition policy).find? p = some row) {other : Shape}
    (hmem : other ∈ f.decomposition policy) (hp : p other = true)
    (htied : other.preference = row.preference) :
    ∃ rows', IsReordering (f.decomposition policy) rows' ∧ rows'.find? p = some other := by
  have hs := f.pairwise_decomposition policy
  have hbest : ∀ r ∈ f.decomposition policy, p r = true → other.NoWorse r := fun r hr hpr =>
    (Shape.noWorse_of_eq htied).trans (noWorse_of_find hs hfind hr hpr)
  by_cases hpolicy : policy = .noFormatBasedDraw
  · rw [hpolicy, TrickFormat.decomposition_noFormat] at hmem ⊢
    rw [List.mem_singleton.mp hmem] at hp ⊢
    refine ⟨_, ⟨.refl _, rfl, List.pairwise_singleton _ _⟩, List.find?_cons_of_pos hp⟩
  · rw [TrickFormat.decomposition_eq hpolicy] at hmem hs hfind hbest ⊢
    obtain ⟨hfirst, hrest⟩ := List.pairwise_cons.mp hs
    by_cases hunits : p f.units = true
    · -- The first row is strictly preferred, so no other row ties with it.
      obtain rfl : f.units = row := by
        rw [List.find?_cons_of_pos hunits, Option.some.injEq] at hfind
        exact hfind
      rcases List.mem_cons.mp hmem with rfl | hmem
      · exact ⟨_, ⟨.refl _, rfl, hs⟩, List.find?_cons_of_pos hunits⟩
      · have hlt := TrickFormat.preference_lt_of_mem_weaker hmem
        rw [htied, Std.ReflOrd.compare_self] at hlt
        cases hlt
    · have hne : other ∈ f.weaker := by
        rcases List.mem_cons.mp hmem with rfl | hmem
        · exact absurd hp hunits
        · exact hmem
      obtain ⟨rest, hperm, hsorted, hbinds⟩ := exists_sorted_first hrest hne hp fun r hr =>
        hbest r (List.mem_cons_of_mem _ hr)
      refine ⟨f.units :: rest, ⟨hperm.cons _, rfl, ?_⟩, ?_⟩
      · exact List.pairwise_cons.mpr ⟨fun r hr => hfirst r (hperm.mem_iff.mp hr), hsorted⟩
      · rw [List.find?_cons_of_neg hunits, hbinds]

/-! ### Verdicts -/

section Verdicts

variable {k : Trick} {f : TrickFormat} {id : PlayerId} {queue : List PlayerId} {hands : Hands}
  {hand : Hand} {held cards : List Card} {policy : DrawPolicy}

theorem Trick.verdict_eq (h : rows.find? (canMatch k.trump held · policy) = some row) :
    k.verdict rows held cards policy =
      if canMatch k.trump cards row policy then .ok () else .error .wrongShape := by
  unfold verdict
  rw [h]

/-- Two orders give one verdict when their binding rows are answered alike. -/
theorem Trick.verdict_eq_iff {row' : Shape}
    (h : rows.find? (canMatch k.trump held · policy) = some row)
    (h' : rows'.find? (canMatch k.trump held · policy) = some row') :
    (k.verdict rows' held cards policy).mapError RulesFault.play =
        (k.verdict rows held cards policy).mapError RulesFault.play ↔
      canMatch k.trump cards row' policy = canMatch k.trump cards row policy := by
  rw [verdict_eq h, verdict_eq h']
  cases canMatch k.trump cards row policy <;> cases canMatch k.trump cards row' policy <;>
    simp [Except.mapError]

/-- In every order of the rows some row binds, and it is as preferred as the one that binds in the
order of the decomposition.  All orders judge a play as `canPlay` does exactly when the play answers
the binding row and the tied rows that the held cards satisfy alike; shapes are irrelevant to this
when the policy ignores them, and no rows tie when the format is one of two decks. -/
theorem verdict_of_reordering [RowOrder] (hq : k.queue = id :: queue)
    (hf : k.currentFormat = .ok (some f)) (hn : 1 ≤ f.size) (hh : hands.get id = .ok hand)
    (hsub : cards.Subperm (k.cardsOfSuit f.suit hand.cards)) (hlen : cards.length = f.size) :
    ∃ row, (f.decomposition policy).find?
        (canMatch k.trump (k.cardsOfSuit f.suit hand.cards) · policy) = some row ∧
      (∀ rows', IsReordering (f.decomposition policy) rows' →
        ∃ row', rows'.find? (canMatch k.trump (k.cardsOfSuit f.suit hand.cards) · policy) =
          some row' ∧ row'.preference = row.preference) ∧
      ((∀ rows', IsReordering (f.decomposition policy) rows' →
          (k.verdict rows' (k.cardsOfSuit f.suit hand.cards) cards policy).mapError .play =
            k.canPlay id hands cards policy) ↔
        ∀ row' ∈ f.decomposition policy, row'.preference = row.preference →
          canMatch k.trump (k.cardsOfSuit f.suit hand.cards) row' policy = true →
          canMatch k.trump cards row' policy = canMatch k.trump cards row policy) ∧
      (policy = .noFormatBasedDraw ∨ TwoDeck f.units →
        ∀ rows', IsReordering (f.decomposition policy) rows' →
          (k.verdict rows' (k.cardsOfSuit f.suit hand.cards) cards policy).mapError .play =
            k.canPlay id hands cards policy) := by
  obtain ⟨row, hrow⟩ : ∃ row, (f.decomposition policy).find?
      (canMatch k.trump (k.cardsOfSuit f.suit hand.cards) · policy) = some row :=
    f.exists_binding_row (hlen ▸ hsub.length_le)
  have hs := f.pairwise_decomposition policy
  have hplay := (Trick.canPlay_suited hq hf hn hh hsub hlen : k.canPlay id hands cards policy = _)
  have hbinds : ∀ rows', IsReordering (f.decomposition policy) rows' →
      ∃ row', rows'.find? (canMatch k.trump (k.cardsOfSuit f.suit hand.cards) · policy) =
        some row' ∧ row'.preference = row.preference := fun rows' hr => hr.exists_find hs hrow
  have halike : (∀ row' ∈ f.decomposition policy, row'.preference = row.preference →
        canMatch k.trump (k.cardsOfSuit f.suit hand.cards) row' policy = true →
        canMatch k.trump cards row' policy = canMatch k.trump cards row policy) →
      ∀ rows', IsReordering (f.decomposition policy) rows' →
        (k.verdict rows' (k.cardsOfSuit f.suit hand.cards) cards policy).mapError .play =
          k.canPlay id hands cards policy := by
    intro hall rows' hr
    obtain ⟨row', hrow', htied⟩ := hbinds rows' hr
    have hmem : row' ∈ f.decomposition policy :=
      hr.perm.mem_iff.mp (List.mem_of_find?_eq_some hrow')
    have hheld := List.find?_some hrow'
    rw [hplay, Trick.verdict_eq_iff hrow hrow']
    exact hall row' hmem htied hheld
  refine ⟨row, hrow, hbinds, ⟨fun hsame row' hmem htied hheld => ?_, halike⟩, fun hno => ?_⟩
  · obtain ⟨rows', hr, hrow'⟩ := exists_reordering hrow hmem hheld htied
    have hverdict := hsame rows' hr
    rw [hplay, Trick.verdict_eq_iff hrow hrow'] at hverdict
    exact hverdict
  · apply halike
    intro row' hmem htied _
    rw [TrickFormat.eq_of_preference_eq hno hmem (List.mem_of_find?_eq_some hrow) htied]

section

open scoped RowOrder

theorem pair_verdict_of_reordering :
    ∃ row, (pairFormat.decomposition .noProtections).find? (canMatch pairTrick.trump
        (pairTrick.cardsOfSuit pairFormat.suit tripleHand.cards) · .noProtections) = some row ∧
      ∀ rows', IsReordering (pairFormat.decomposition .noProtections) rows' →
        (pairTrick.verdict rows' (pairTrick.cardsOfSuit pairFormat.suit tripleHand.cards)
          [spade 3, spade 3] .noProtections).mapError .play =
          pairTrick.canPlay 1 tripleHands [spade 3, spade 3] .noProtections := by
  have hf : pairTrick.currentFormat = .ok (some pairFormat) := rfl
  have hh : tripleHands.get 1 = .ok tripleHand := rfl
  have hsub : [spade 3, spade 3].Subperm
      (pairTrick.cardsOfSuit pairFormat.suit tripleHand.cards) := by decide
  have htwo : TwoDeck pairFormat.units := by
    unfold TwoDeck
    decide
  obtain ⟨row, hrow, -, -, halike⟩ := verdict_of_reordering rfl hf (by decide) hh hsub rfl
  exact ⟨row, hrow, halike (Or.inr htwo)⟩

end

end Verdicts

/-! ### Three decks -/

def throwFormat : TrickFormat where
  suit := .plain .spades
  trump := pairFormat.trump
  units := unitsOf [[3, 3], [2, 2]]

/-- The triples stay together and the pairs do not. -/
def triplesInARow : Shape := unitsOf [[3, 3], [2], [2]]

/-- The pairs stay together and the triples do not. -/
def pairsInARow : Shape := unitsOf [[3], [3], [2, 2]]

def throwTrick : Trick where
  trump := throwFormat.trump
  queue := [1]
  played := [⟨0, [spade 6, spade 6, spade 6, spade 7, spade 7, spade 7, spade 11, spade 11,
    spade 12, spade 12]⟩]

def throwHand : Hand :=
  .ofCards [spade 3, spade 3, spade 3, spade 4, spade 4, spade 4, spade 5, spade 5, spade 9,
    spade 9, spade 9]

def throwHands : Hands := .ofList [(1, throwHand)]

def throwAnswer : List Card :=
  [spade 3, spade 3, spade 3, spade 4, spade 4, spade 4, spade 5, spade 5, spade 9, spade 9]

theorem cardsOfSuit_throwHand :
    throwTrick.cardsOfSuit throwFormat.suit throwHand.cards =
      [spade 3, spade 3, spade 3, spade 4, spade 4, spade 4, spade 5, spade 5, spade 9, spade 9,
        spade 9] := rfl

theorem canMatch_throwUnits :
    canMatch throwTrick.trump (throwTrick.cardsOfSuit throwFormat.suit throwHand.cards)
      throwFormat.units .noProtections = false := by
  rw [cardsOfSuit_throwHand]
  cbv

theorem canMatch_triplesInARow :
    canMatch throwTrick.trump (throwTrick.cardsOfSuit throwFormat.suit throwHand.cards)
      triplesInARow .noProtections = true ∧
    canMatch throwTrick.trump throwAnswer triplesInARow .noProtections = true := by
  rw [cardsOfSuit_throwHand]
  constructor
  · cbv
  · cbv

theorem canMatch_pairsInARow :
    canMatch throwTrick.trump (throwTrick.cardsOfSuit throwFormat.suit throwHand.cards)
      pairsInARow .noProtections = true ∧
    canMatch throwTrick.trump throwAnswer pairsInARow .noProtections = false := by
  rw [cardsOfSuit_throwHand]
  constructor
  · cbv
  · cbv

section

open scoped RowOrder

/-- With three decks the order of tied rows matters: the hand can keep either the triples or the
pairs together, and a play that does the one need not do the other. -/
theorem tied_rows_disagree :
    throwTrick.currentFormat = .ok (some throwFormat) ∧ throwHands.get 1 = .ok throwHand ∧
    throwAnswer.Subperm (throwTrick.cardsOfSuit throwFormat.suit throwHand.cards) ∧
    throwAnswer.length = throwFormat.size ∧
    ¬∀ rows', IsReordering (throwFormat.decomposition .noProtections) rows' →
      (throwTrick.verdict rows' (throwTrick.cardsOfSuit throwFormat.suit throwHand.cards)
        throwAnswer .noProtections).mapError .play =
        throwTrick.canPlay 1 throwHands throwAnswer .noProtections := by
  refine ⟨by cbv, rfl, by decide, rfl, fun hall => ?_⟩
  obtain ⟨hheld, hanswer⟩ := canMatch_triplesInARow
  obtain ⟨hheld', hanswer'⟩ := canMatch_pairsInARow
  have hpolicy : DrawPolicy.noProtections ≠ .noFormatBasedDraw := by decide
  have hmem : triplesInARow ∈ throwFormat.decomposition .noProtections :=
    TrickFormat.mem_decomposition_of_mem_reductions hpolicy (List.contains_iff_mem.mp (by cbv))
  have hmem' : pairsInARow ∈ throwFormat.decomposition .noProtections :=
    TrickFormat.mem_decomposition_of_mem_reductions hpolicy (List.contains_iff_mem.mp (by cbv))
  have hpref : triplesInARow.preference = [[-3, -3, -2, -2], [3], [-2, -1, -1]] := by cbv
  have htied : pairsInARow.preference = triplesInARow.preference := by
    rw [hpref]
    cbv
  obtain ⟨row, hrow⟩ : ∃ row, (throwFormat.decomposition .noProtections).find?
      (canMatch throwTrick.trump (throwTrick.cardsOfSuit throwFormat.suit throwHand.cards) ·
        .noProtections) = some row := throwFormat.exists_binding_row (by decide)
  have hle : row.NoWorse triplesInARow :=
    noWorse_of_find (throwFormat.pairwise_decomposition _) hrow hmem hheld
  have hweaker : row ∈ throwFormat.weaker := by
    have hcases := List.mem_of_find?_eq_some hrow
    rw [TrickFormat.decomposition_eq hpolicy, List.mem_cons] at hcases
    refine hcases.resolve_left ?_
    rintro rfl
    have hsat := List.find?_some hrow
    rw [canMatch_throwUnits] at hsat
    cases hsat
  -- Only the lead itself is preferred to the two rows, and the hand cannot play it.
  have hge : triplesInARow.NoWorse row := by
    have hprefs : throwFormat.units.reductions.map Shape.preference =
        [[[-3, -3, -2, -2], [3], [-2, -1, -1]], [[-2, -2, -2, -2, -1, -1], [4], [-2, -2, -1, -1]],
          [[-3, -3, -2, -2], [3], [-2, -1, -1]],
          [[-3, -3, -1, -1, -1, -1], [5], [-2, -1, -1, -1, -1]]] := by cbv
    exact Shape.noWorse_of_reductions (Shape.noWorse_of_preferences hpref hprefs (by decide))
      (TrickFormat.mem_weaker_iff.mp hweaker).2.2 (TrickFormat.not_perm_of_mem_weaker hweaker)
  have heq : triplesInARow.preference = row.preference := hge.antisymm hle
  obtain ⟨rows, hr, hfind⟩ := exists_reordering hrow hmem hheld heq
  obtain ⟨rows', hr', hfind'⟩ := exists_reordering hrow hmem' hheld' (htied.trans heq)
  have hsame := (hall rows' hr').trans (hall rows hr).symm
  rw [Trick.verdict_eq_iff hfind hfind', hanswer, hanswer'] at hsame
  cases hsame

end

end TractorRules
