import TractorRules.Proofs.Grouping.Enumeration
import TractorRules.Proofs.Format.Rows
import TractorRules.Proofs.Trick.Ties
import TractorRules.Proofs.Trick.Renege

/-!
# Runs that followers are asked for

What counts as a tractor is settled when the lead is read.  The weaker rows do not look at it: they ask
for every run of pairs or more that is no longer and no higher than a tractor of the lead
(`exists_row_iff`).  So all rows keep to the requirements when these are the standard ones or no tractor
was led, and only then (`rows_meet_iff`); with higher requirements a follower can be asked for pairs in
a row that are no tractor (`pairs_in_a_row_asked_for`).
-/

namespace TractorRules

variable {t : Trump} {req : TractorRequirements} {lead held cards : List Card} {policy : DrawPolicy}

/-! ### Weakening runs -/

namespace UnitShape

/-- A run of the shape is long enough, with enough copies.  Copies of one card are no run. -/
def Meets (u : UnitShape) (req : TractorRequirements) : Prop :=
  2 ≤ u.groups → req.minCount ≤ u.copies ∧ req.minLength ≤ u.groups

/-- A run that comes out of a unit is no higher and no longer.  Below pairs it is scattered. -/
theorem WeakensInto.run {u v : UnitShape} {parts : Shape} (h : u.WeakensInto parts) (hv : v ∈ parts)
    (hrun : 2 ≤ v.groups) :
    v.copies ≤ u.copies ∧ v.groups ≤ u.groups ∧ (2 ≤ u.copies → 2 ≤ v.copies) := by
  have hcopies := h.copies_le hv
  cases h with
  | split copies k l hc hk hl =>
    rcases List.mem_pair.mp hv with rfl | rfl
    · exact ⟨hcopies, Nat.le_add_right _ _, id⟩
    · exact ⟨hcopies, Nat.le_add_left _ _, id⟩
  | lower copies groups hc hg =>
    rcases List.mem_cons.mp hv with rfl | hv
    · exact ⟨hcopies, Nat.le_refl _, fun _ => hc⟩
    · rw [List.eq_of_mem_replicate hv] at hrun
      exact absurd hrun (by decide)
  | scatter u hc hg =>
    rw [List.eq_of_mem_replicate hv] at hrun
    exact absurd hrun (by decide)
  | reduce copies hc =>
    rcases List.mem_pair.mp hv with rfl | rfl
    · exact absurd hrun (by simp)
    · exact absurd hrun (by decide)

end UnitShape

theorem Weakens.exists_of_mem {s : Multiset UnitShape} {u v : UnitShape} {parts : Shape} (hu : u ∈ s)
    (h : u.WeakensInto parts) (hv : v ∈ parts) : ∃ s', Weakens s s' ∧ v ∈ s' :=
  ⟨_, ⟨u, hu, parts, h, rfl⟩, Multiset.mem_add.mpr (Or.inr (Multiset.mem_coe.mpr hv))⟩

/-- A run can be lowered to any number of copies from two up. -/
theorem exists_lowered {copies groups n : Nat} (hc : 2 ≤ copies) (hg : 2 ≤ groups)
    {s : Multiset UnitShape}
    (hs : ⟨copies + n, groups, Nat.add_pos_left (Nat.zero_lt_of_lt hc) n, Nat.zero_lt_of_lt hg⟩ ∈ s) :
    ∃ s', WeakensTo s s' ∧ ⟨copies, groups, Nat.zero_lt_of_lt hc, Nat.zero_lt_of_lt hg⟩ ∈ s' := by
  induction n generalizing s with
  | zero => exact ⟨s, .refl, hs⟩
  | succ n ih =>
    obtain ⟨mid, hstep, hmid⟩ := Weakens.exists_of_mem hs
      (.lower (copies + n) groups (by omega) hg) List.mem_cons_self
    obtain ⟨s', hweak, hmem⟩ := ih hmid
    exact ⟨s', .head hstep hweak, hmem⟩

theorem exists_shortened {copies groups n : Nat} (hc : 0 < copies) (hg : 0 < groups)
    {s : Multiset UnitShape} (hs : ⟨copies, groups + n, hc, by omega⟩ ∈ s) :
    ∃ s', WeakensTo s s' ∧ ⟨copies, groups, hc, hg⟩ ∈ s' := by
  by_cases hn : n = 0
  · subst hn
    exact ⟨s, .refl, hs⟩
  · obtain ⟨s', hstep, hmem⟩ := Weakens.exists_of_mem hs
      (.split copies groups n hc hg (by omega)) List.mem_cons_self
    exact ⟨s', .single hstep, hmem⟩

/-- The runs in the shapes that a shape without runs of single cards can be weakened to. -/
theorem exists_weakensTo_iff {s : Multiset UnitShape} (hs : ∀ v ∈ s, 2 ≤ v.groups → 2 ≤ v.copies)
    {u : UnitShape} (hrun : 2 ≤ u.groups) :
    (∃ s', WeakensTo s s' ∧ u ∈ s') ↔
      2 ≤ u.copies ∧ ∃ v ∈ s, u.copies ≤ v.copies ∧ u.groups ≤ v.groups := by
  constructor
  · intro h
    obtain ⟨s', hweak, hu⟩ := h
    have hall : ∀ w ∈ s', 2 ≤ w.groups →
        2 ≤ w.copies ∧ ∃ v ∈ s, w.copies ≤ v.copies ∧ w.groups ≤ v.groups := by
      refine hweak.forall_units (fun w parts hparts hw part hpart hlong => ?_) fun v hv hlong =>
        ⟨hs v hv hlong, v, hv, Nat.le_refl _, Nat.le_refl _⟩
      obtain ⟨hcopies, hgroups, htwo⟩ := hparts.run hpart hlong
      obtain ⟨hw2, v, hv, hc, hg⟩ := hw (hlong.trans hgroups)
      exact ⟨htwo hw2, v, hv, hcopies.trans hc, hgroups.trans hg⟩
    exact hall u hu hrun
  · intro h
    obtain ⟨htwo, v, hv, hc, hg⟩ := h
    obtain ⟨copies, groups, hcpos, hgpos⟩ := u
    obtain ⟨copies', groups', hcpos', hgpos'⟩ := v
    simp only at hrun htwo hc hg
    obtain ⟨n, rfl⟩ := Nat.exists_eq_add_of_le hc
    obtain ⟨m, rfl⟩ := Nat.exists_eq_add_of_le hg
    obtain ⟨mid, hlow, hmid⟩ := exists_lowered htwo (by omega) hv
    obtain ⟨s', hshort, hmem⟩ := exists_shortened hcpos hgpos hmid
    exact ⟨s', hlow.trans hshort, hmem⟩

/-! ### Runs in the rows -/

namespace TrickFormat

variable {f : TrickFormat}

/-- The units of the lead itself are copies of one card and allowed tractors. -/
theorem meets_of_ofLead (hf : ofLead t req lead = .ok f) : ∀ u ∈ f.units, u.Meets req := by
  obtain ⟨-, -, -, g, hg, hunits⟩ := ofLead_eq_ok_iff.mp hf
  rw [hunits]
  intro u hu
  obtain ⟨unit, hunit, rfl⟩ := List.mem_map.mp hu
  rcases unit_of_mem_groupings (List.mem_of_head? hg) hunit with ⟨r, rfl⟩ | ⟨r, rfl, hr⟩
  · intro hrun
    exact absurd hrun (by simp [TrickUnit.shape])
  · exact fun _ => ⟨hr.minCount_le, hr.minLength_le⟩

theorem two_le_copies_of_ofLead (hf : ofLead t req lead = .ok f) {u : UnitShape} (hu : u ∈ f.units)
    (hrun : 2 ≤ u.groups) : 2 ≤ u.copies :=
  req.two_le_minCount.trans (meets_of_ofLead hf u hu hrun).1

theorem exists_row_iff_weakensTo [RowOrder] (hp : policy ≠ .noFormatBasedDraw) {u : UnitShape} :
    (∃ row ∈ f.decomposition policy, u ∈ row) ↔ ∃ s, WeakensTo (f.units : Multiset UnitShape) s ∧ u ∈ s := by
  constructor
  · intro h
    obtain ⟨row, hrow, hu⟩ := h
    exact ⟨row, weakensTo_of_mem hp hrow, Multiset.mem_coe.mpr hu⟩
  · intro h
    obtain ⟨s, hweak, hu⟩ := h
    by_cases hs : s = f.units
    · rw [hs] at hu
      exact ⟨f.units, (mem_decomposition_iff hp).mpr (Or.inl rfl), Multiset.mem_coe.mp hu⟩
    · obtain ⟨row, hrow, rfl⟩ := (exists_weaker_iff (f := f)).mpr ⟨hweak, hs⟩
      refine ⟨row, ?_, Multiset.mem_coe.mp hu⟩
      rw [decomposition_eq hp]
      exact List.mem_cons_of_mem _ hrow

/-- The rows ask for exactly the runs of pairs or more that a tractor of the lead could be weakened
to, whatever the requirements are. -/
theorem exists_row_iff [RowOrder] (hp : policy ≠ .noFormatBasedDraw)
    (hf : ofLead t req lead = .ok f) {u : UnitShape} (hrun : 2 ≤ u.groups) :
    (∃ row ∈ f.decomposition policy, u ∈ row) ↔
      2 ≤ u.copies ∧ ∃ v ∈ f.units, u.copies ≤ v.copies ∧ u.groups ≤ v.groups :=
  (exists_row_iff_weakensTo hp).trans
    (exists_weakensTo_iff (fun _ hv => two_le_copies_of_ofLead hf (Multiset.mem_coe.mp hv)) hrun)

theorem meets_standard_of_mem [RowOrder] (hp : policy ≠ .noFormatBasedDraw)
    (hf : ofLead t req lead = .ok f)
    {row : Shape} (hrow : row ∈ f.decomposition policy) {u : UnitShape} (hu : u ∈ row) :
    u.Meets .standard := by
  intro hrun
  exact ⟨((exists_row_iff hp hf hrun).mp ⟨row, hrow, hu⟩).1, hrun⟩

/-- Once a tractor is led, two pairs in a row are among the runs asked for. -/
theorem rows_meet_iff [RowOrder] (hp : policy ≠ .noFormatBasedDraw)
    (hf : ofLead t req lead = .ok f) :
    (∀ row ∈ f.decomposition policy, ∀ u ∈ row, u.Meets req) ↔
      req = .standard ∨ ∀ u ∈ f.units, u.groups = 1 := by
  constructor
  · intro h
    by_cases hflat : ∀ u ∈ f.units, u.groups = 1
    · exact Or.inr hflat
    · push Not at hflat
      obtain ⟨v, hv, hne⟩ := hflat
      have hpos := v.groups_pos
      have hlong : 2 ≤ v.groups := by omega
      have htwo := two_le_copies_of_ofLead hf hv hlong
      have hpairs : 2 ≤ (⟨2, 2, Nat.two_pos, Nat.two_pos⟩ : UnitShape).groups := Nat.le_refl 2
      obtain ⟨row, hrow, hu⟩ := (exists_row_iff hp hf hpairs).mpr
        ⟨Nat.le_refl 2, v, hv, htwo, hlong⟩
      obtain ⟨hcount, hlength⟩ := h row hrow _ hu hpairs
      exact Or.inl (TractorRequirements.ext (Nat.le_antisymm hcount req.two_le_minCount)
        (Nat.le_antisymm hlength req.two_le_minLength))
  · intro h row hrow u hu hrun
    rcases h with rfl | hflat
    · exact meets_standard_of_mem hp hf hrow hu hrun
    · obtain ⟨-, v, hv, -, hgroups⟩ := (exists_row_iff hp hf hrun).mp ⟨row, hrow, hu⟩
      have hone := hflat v hv
      omega

end TrickFormat

/-! ### Tractors that are recognised -/

/-- Grouped by themselves, the cards of the run can be taken as this tractor. -/
def Tractor.IsRecognised (t : Trump) (req : TractorRequirements) (r : Tractor) : Prop :=
  ∃ g ∈ groupings t req r.cards none, TrickUnit.tractor r ∈ g

theorem Tractor.isRecognised_iff {r : Tractor} : r.IsRecognised t req ↔ r.IsAllowed t req := by
  constructor
  · intro h
    obtain ⟨g, hg, hr⟩ := h
    rcases unit_of_mem_groupings hg hr with ⟨_, heq⟩ | ⟨r', heq, hallowed⟩
    · cases heq
    · rwa [TrickUnit.tractor.inj heq]
  · intro h
    have hcards : cardsOf (({r} : Multiset Tractor).map .tractor) = r.cards := by
      simp [cardsOf, TrickUnit.cards]
    have htractors : AreTractorsOf t req r.cards {r} := by
      refine ⟨fun r' hr' => ?_, hcards.le⟩
      rwa [Multiset.mem_singleton.mp hr']
    have hne : r.cards ≠ [] := by
      intro hnil
      have hlen := TrickUnit.length_cards (.tractor r)
      have hpos := UnitShape.size_pos (TrickUnit.tractor r).shape
      rw [show (TrickUnit.tractor r).cards = r.cards from rfl, hnil, List.length_nil] at hlen
      omega
    obtain ⟨-, hall, -⟩ := groupings_are_choices_of_tractors t req hne
    obtain ⟨g, hg, hunits⟩ := List.mem_map.mp ((hall _).mpr ⟨{r}, htractors, rfl⟩)
    refine ⟨g, hg, Multiset.mem_coe.mp ?_⟩
    rw [show (g : Multiset TrickUnit) = _ from hunits, withRest, Multiset.mem_add]
    exact Or.inl (by simp)

theorem Tractor.isRecognised_of_meets {r : Tractor} (hrun : t.IsRun r.members)
    (h : (TrickUnit.tractor r).shape.Meets req) : r.IsRecognised t req := by
  obtain ⟨hcount, hlength⟩ := h r.two_le_length
  exact isRecognised_iff.mpr ⟨hrun, hlength, hcount⟩

/-! ### Plays of the wrong shape -/

/-- A shape one step weaker binds when the hand cannot play the lead's own shape and no other such
shape is preferred. -/
theorem TrickFormat.find?_of_reduction [RowOrder] {f : TrickFormat}
    (hp : policy ≠ .noFormatBasedDraw)
    (htwo : TwoDeck f.units) (hlead : canMatch t held f.units policy = false) {row : Shape}
    (hrow : row ∈ f.units.reductions) (hheld : canMatch t held row policy = true)
    (hbest : ∀ m ∈ f.units.reductions, row.NoWorse m) :
    (f.decomposition policy).find? (canMatch t held · policy) = some row := by
  have hmem := mem_decomposition_of_mem_reductions hp hrow
  have hsome : ((f.decomposition policy).find? (canMatch t held · policy)).isSome = true :=
    List.find?_isSome.mpr ⟨row, hmem, hheld⟩
  obtain ⟨first, hfirst⟩ := Option.isSome_iff_exists.mp hsome
  have hle : first.NoWorse row := noWorse_of_find (f.pairwise_decomposition policy) hfirst hmem hheld
  have hweaker : first ∈ f.weaker := by
    have hcases := List.mem_of_find?_eq_some hfirst
    rw [decomposition_eq hp, List.mem_cons] at hcases
    refine hcases.resolve_left ?_
    rintro rfl
    have hsat := List.find?_some hfirst
    rw [hlead] at hsat
    cases hsat
  have hge : row.NoWorse first := Shape.noWorse_of_reductions hbest
    (mem_weaker_iff.mp hweaker).2.2 (not_perm_of_mem_weaker hweaker)
  rw [hfirst, eq_of_preference_eq (Or.inr htwo) (List.mem_of_find?_eq_some hfirst) hmem
    (hle.antisymm hge)]

theorem Trick.exists_row_of_wrongShape [RowOrder] {k : Trick} {f : TrickFormat} {id : PlayerId}
    {hands : Hands} (hf : k.currentFormat = .ok (some f))
    (h : k.canPlay id hands cards policy = .error (.play .wrongShape)) :
    ∃ hand row, hands.get id = .ok hand ∧
      (f.decomposition policy).find?
        (canMatch k.trump (k.cardsOfSuit f.suit hand.cards) · policy) = some row ∧
      canMatch k.trump (k.cardsOfSuit f.suit cards) row policy = false := by
  have hcase := k.judgement id hands cards policy
  generalize k.canPlay id hands cards policy = verdict at hcase h
  cases hcase with
  | complete hq => cases h
  | notYourTurn hq hid => cases h
  | noCards hq hne => cases h
  | unknown hq hne hh => cases h
  | notInHand hq hne hh hsub => cases h
  | noFormat hq hne hh hsub hf' => cases hf.symm.trans hf'
  | lead hq hne hh hsub hf' => cases hf.symm.trans hf'
  | @follow queue hand f' hq hne hh hsub hf' =>
    obtain rfl : f = f' := Option.some.inj (Except.ok.inj (hf.symm.trans hf'))
    have hwrong : k.checkFollow f hand cards policy = .error .wrongShape := by
      cases hc : k.checkFollow f hand cards policy with
      | ok => rw [hc] at h; cases h
      | error fault => rw [hc] at h; cases h; rfl
    rw [checkFollow_eq] at hwrong
    split at hwrong
    · cases hwrong
    · split at hwrong
      · split at hwrong
        · cases hwrong
        · cases hwrong
      · unfold verdict at hwrong
        split at hwrong
        · rename_i row hrow
          refine ⟨hand, row, hh, hrow, ?_⟩
          cases hm : canMatch k.trump (k.cardsOfSuit f.suit cards) row policy with
          | false => rfl
          | true => simp [hm] at hwrong
        · cases hwrong

/-- The lead's own tractors keep to the requirements.  The runs that the rows ask for are those of pairs
or more that are no longer and no higher than a tractor of the lead, so all of them keep to the
requirements exactly when these are the standard ones or no tractor was led.  A play of the wrong shape
fails the row that binds, whose runs would be tractors by the standard requirements, and in that case
by those in force. -/
theorem runs_asked_for [RowOrder] {f : TrickFormat} (hp : policy ≠ .noFormatBasedDraw)
    (hf : TrickFormat.ofLead t req lead = .ok f) :
    (∀ u ∈ f.units, u.Meets req) ∧
    (∀ u : UnitShape, 2 ≤ u.groups → ((∃ row ∈ f.decomposition policy, u ∈ row) ↔
      2 ≤ u.copies ∧ ∃ v ∈ f.units, u.copies ≤ v.copies ∧ u.groups ≤ v.groups)) ∧
    ((∀ row ∈ f.decomposition policy, ∀ u ∈ row, u.Meets req) ↔
      req = .standard ∨ ∀ u ∈ f.units, u.groups = 1) ∧
    ∀ (k : Trick) id hands cards, k.trump = t → k.currentFormat = .ok (some f) →
      k.canPlay id hands cards policy = .error (.play .wrongShape) →
      ∃ hand row, hands.get id = .ok hand ∧
        (f.decomposition policy).find?
          (canMatch t (k.cardsOfSuit f.suit hand.cards) · policy) = some row ∧
        canMatch t (k.cardsOfSuit f.suit cards) row policy = false ∧
        ∀ r : Tractor, (TrickUnit.tractor r).shape ∈ row → t.IsRun r.members →
          r.IsRecognised t .standard ∧
          ((req = .standard ∨ ∀ u ∈ f.units, u.groups = 1) → r.IsRecognised t req) := by
  refine ⟨TrickFormat.meets_of_ofLead hf, fun u hrun => TrickFormat.exists_row_iff hp hf hrun,
    TrickFormat.rows_meet_iff hp hf, fun k id hands cards htrump hformat hwrong => ?_⟩
  obtain ⟨hand, row, hh, hrow, hmatch⟩ := Trick.exists_row_of_wrongShape hformat hwrong
  rw [htrump] at hrow hmatch
  have hmem := List.mem_of_find?_eq_some hrow
  refine ⟨hand, row, hh, hrow, hmatch, fun r hr hrun => ⟨?_, fun hkept => ?_⟩⟩
  · exact r.isRecognised_of_meets hrun (TrickFormat.meets_standard_of_mem hp hf hmem hr)
  · exact r.isRecognised_of_meets hrun ((TrickFormat.rows_meet_iff hp hf).mpr hkept row hmem _ hr)

/-! ### Three pairs in a row -/

/-- Tractors have to be of three pairs at least. -/
def threeInARow : TractorRequirements := ⟨2, 3, TractorRequirements.two_le_two, Nat.le_succ 2⟩

def threePairs : List Card := [spade 3, spade 3, spade 4, spade 4, spade 5, spade 5]

def threePairsTrick : Trick where
  trump := pairFormat.trump
  queue := [1]
  played := [⟨0, threePairs⟩]
  requirements := threeInARow

def threePairsFormat : TrickFormat where
  suit := .plain .spades
  trump := pairFormat.trump
  units := unitsOf [[2, 2, 2]]

theorem ofLead_threePairs :
    TrickFormat.ofLead pairFormat.trump threeInARow threePairs = .ok threePairsFormat := by cbv

section

open scoped RowOrder

/-- Two pairs in a row are asked for, although they are no tractor. -/
theorem two_of_three_pairs_asked_for :
    DrawPolicy.noProtections ≠ .noFormatBasedDraw ∧
      TrickFormat.ofLead pairFormat.trump threeInARow threePairs = .ok threePairsFormat ∧
      ∃ row ∈ threePairsFormat.decomposition .noProtections, ⟨2, 2, Nat.two_pos, Nat.two_pos⟩ ∈ row := by
  have hp : DrawPolicy.noProtections ≠ .noFormatBasedDraw := by decide
  obtain ⟨-, hruns, -⟩ := runs_asked_for hp ofLead_threePairs
  refine ⟨hp, ofLead_threePairs, (hruns ⟨2, 2, Nat.two_pos, Nat.two_pos⟩ (Nat.le_refl 2)).mpr ?_⟩
  exact ⟨Nat.le_refl 2, ⟨2, 3, Nat.two_pos, by omega⟩, by decide, by decide, by decide⟩

end

def fourPairs : Hand :=
  .ofCards [spade 6, spade 6, spade 7, spade 7, spade 9, spade 9, spade 11, spade 11]

def fourPairsHands : Hands := .ofList [(1, fourPairs)]

/-- Three other pairs, and two of them next to each other were held. -/
def pairsApart : List Card := [spade 6, spade 6, spade 9, spade 9, spade 11, spade 11]

def twoPairsInARow : Shape := unitsOf [[2, 2], [2]]

theorem cards_fourPairs : fourPairs.cards =
    [spade 6, spade 6, spade 7, spade 7, spade 9, spade 9, spade 11, spade 11] := rfl

theorem find?_threePairs [RowOrder] :
    (threePairsFormat.decomposition .noProtections).find? (canMatch pairFormat.trump
      (threePairsTrick.cardsOfSuit threePairsFormat.suit fourPairs.cards) · .noProtections) =
      some twoPairsInARow := by
  have htwo : TwoDeck threePairsFormat.units := by
    unfold TwoDeck
    decide
  have hpref : twoPairsInARow.preference = [[-2, -2, -2], [2], [-2, -1]] := by cbv
  have hprefs : threePairsFormat.units.reductions.map Shape.preference =
      [[[-2, -2, -2], [2], [-2, -1]], [[-2, -2, -2], [2], [-2, -1]],
        [[-1, -1, -1, -1, -1, -1], [6], [-1, -1, -1, -1, -1, -1]]] := by cbv
  rw [cards_fourPairs]
  exact TrickFormat.find?_of_reduction (by decide) htwo (by cbv) (List.contains_iff_mem.mp (by cbv))
    (by cbv) (Shape.noWorse_of_preferences hpref hprefs (by decide))

section

open scoped RowOrder

/-- No grouping of the hand has a tractor, and yet a play is refused for breaking up a run. -/
theorem pairs_in_a_row_asked_for :
    TrickFormat.ofLead pairFormat.trump threeInARow threePairs = .ok threePairsFormat ∧
      (¬∀ row ∈ threePairsFormat.decomposition .noProtections, ∀ u ∈ row, u.Meets threeInARow) ∧
      threePairsTrick.canPlay 1 fourPairsHands pairsApart .noProtections =
        .error (.play .wrongShape) ∧
      ∀ g ∈ groupings pairFormat.trump threeInARow fourPairs.cards none, ∀ r,
        TrickUnit.tractor r ∉ g := by
  refine ⟨ofLead_threePairs, fun hall => ?_, ?_, ?_⟩
  · have hreduced : threePairsFormat.units.reductions.contains twoPairsInARow = true := by cbv
    have hrow : twoPairsInARow ∈ threePairsFormat.decomposition .noProtections :=
      TrickFormat.mem_decomposition_of_mem_reductions (by decide)
        (List.contains_iff_mem.mp hreduced)
    have hmeets := hall _ hrow ⟨2, 2, Nat.two_pos, Nat.two_pos⟩ (by decide) (Nat.le_refl 2)
    exact absurd hmeets.2 (by decide)
  · have hf : threePairsTrick.currentFormat = .ok (some threePairsFormat) := by cbv
    have hh : fourPairsHands.get 1 = .ok fourPairs := rfl
    have hsub : pairsApart.Subperm
        (threePairsTrick.cardsOfSuit threePairsFormat.suit fourPairs.cards) := by decide
    rw [Trick.canPlay_suited rfl hf (by decide) hh hsub rfl, Trick.verdict,
      show threePairsTrick.trump = pairFormat.trump from rfl, find?_threePairs]
    cbv
  · have hnone : (groupings pairFormat.trump threeInARow fourPairs.cards none).all
        (fun g => g.all fun u => u.members.length == 1) = true := by
      rw [cards_fourPairs]
      cbv
    intro g hg r hr
    have hone := List.all_eq_true.mp (List.all_eq_true.mp hnone g hg) _ hr
    have htwo := r.two_le_length
    rw [beq_iff_eq] at hone
    simp only [TrickUnit.members] at hone
    omega

end

end TractorRules
