import TractorRules.Proofs.Trick.Renege
import Mathlib.Data.List.Find

/-!
# Protecting longer tuples

Where longer tuples are protected, the row that a follower has to answer is the same as where they are
not, or a later one.  A play that answers it by whole tuples stays accepted, and so does every play when
the hand has no tuple that is longer than what is asked for (`accepted_under_protection`).  A play that
breaks a longer tuple can be refused: the tuple no longer counts as the shorter one
(`triple_for_pair_refused`).
-/

namespace TractorRules

variable {t : Trump} {policy : DrawPolicy} {held cards : List Card} {shapes row : Shape}
  {units : Grouping}

/-! ### Placements -/

theorem Placement.unprotected (h : Placement t policy held shapes units) :
    Placement t .noProtections held shapes units :=
  ⟨h.shapes_eq, h.runs, h.disjoint, nofun⟩

theorem canMatch_of_protected (h : canMatch t held row .longerTuplesProtected = true) :
    canMatch t held row .noProtections = true := by
  obtain ⟨hsize, units, hplace⟩ := canMatch_iff.mp h
  exact canMatch_iff.mpr ⟨hsize, units, hplace.unprotected⟩

/-- No card is held more often than a unit of several cards takes it, whatever row it is of. -/
def NothingLonger (rows : List Shape) (held : List Card) : Prop :=
  ∀ row ∈ rows, ∀ u ∈ row, u ≠ .single → ∀ c, held.count c ≤ u.copies

theorem NothingLonger.of_subperm {rows : List Shape} (h : NothingLonger rows held)
    (hsub : cards.Subperm held) : NothingLonger rows cards := fun row hrow u hu hne c =>
  (List.subperm_iff_count.mp hsub c).trans (h row hrow u hu hne c)

/-- A unit on cards that are held no more often than it takes them takes them all. -/
theorem Placement.protected (h : Placement t policy held shapes units)
    (hlong : ∀ s ∈ shapes, ∀ c, held.count c ≤ s.copies) :
    Placement t .longerTuplesProtected held shapes units := by
  refine ⟨h.shapes_eq, h.runs, h.disjoint, fun _ u hu c hc => ?_⟩
  have hshape : u.shape ∈ shapes := h.shapes_eq.mem_iff.mp (List.mem_map_of_mem hu)
  have hle := hlong _ hshape c
  have hge := List.subperm_iff_count.mp h.disjoint c
  have htaken := TrickUnit.count_le_count_cards hu hc
  rw [TrickUnit.shape_copies] at hle
  omega

theorem canMatch_protected_iff {rows : List Shape} (h : NothingLonger rows held)
    (hrow : row ∈ rows) :
    canMatch t held row .longerTuplesProtected = canMatch t held row .noProtections := by
  rw [Bool.eq_iff_iff]
  refine ⟨canMatch_of_protected, fun hmatch => ?_⟩
  obtain ⟨hsize, units, hplace⟩ := canMatch_iff.mp hmatch
  refine canMatch_iff.mpr ⟨hsize, units, hplace.protected fun s hs c => ?_⟩
  obtain ⟨hs, hne⟩ := List.mem_filter.mp hs
  exact h row hrow s hs (by simpa using hne) c

/-! ### The row that binds -/

namespace TrickFormat

theorem decomposition_protected [RowOrder] (f : TrickFormat) :
    f.decomposition .longerTuplesProtected = f.decomposition .noProtections := by
  rw [decomposition_eq (by decide), decomposition_eq (by decide)]

/-- Of the rows, which are the same under both policies, `row` is the one that binds where longer
tuples are not protected and `row'`, no earlier one, that where they are. -/
def BindsLater [RowOrder] (f : TrickFormat) (t : Trump) (held : List Card) (row row' : Shape) :
    Prop :=
  f.decomposition .longerTuplesProtected = f.decomposition .noProtections ∧ ∃ i j, i ≤ j ∧
    IsEarliest (f.decomposition .noProtections) (canMatch t held · .noProtections = true) i ∧
    (f.decomposition .noProtections)[i]? = some row ∧
    IsEarliest (f.decomposition .longerTuplesProtected)
      (canMatch t held · .longerTuplesProtected = true) j ∧
    (f.decomposition .longerTuplesProtected)[j]? = some row'

theorem exists_bindsLater [RowOrder] (f : TrickFormat) (h : f.size ≤ held.length) :
    ∃ row row', f.BindsLater t held row row' := by
  obtain ⟨i, hi⟩ := IsEarliest.exists_of_mem (p := (canMatch t held · .noProtections = true))
    (f.singles_mem_decomposition .noProtections) (canMatch_singles h)
  obtain ⟨j, hj⟩ := IsEarliest.exists_of_mem
    (p := (canMatch t held · .longerTuplesProtected = true))
    (f.singles_mem_decomposition .longerTuplesProtected) (canMatch_singles h)
  obtain ⟨row, hrow, -⟩ := hi.1
  obtain ⟨row', hrow', hmatch⟩ := hj.1
  refine ⟨row, row', f.decomposition_protected, i, j, Nat.le_of_not_lt fun hlt => ?_, hi, hrow, hj,
    hrow'⟩
  exact hi.2 j hlt row' (f.decomposition_protected ▸ hrow') (canMatch_of_protected hmatch)

namespace BindsLater

variable {f : TrickFormat} {row' : Shape}

theorem size_eq [RowOrder] (h : f.BindsLater t held row row') : row.size = f.size := by
  obtain ⟨-, i, j, -, -, hrow, -, -⟩ := h
  exact size_of_mem_decomposition (List.mem_of_getElem? hrow)

theorem find?_eq [RowOrder] (h : f.BindsLater t held row row') :
    (f.decomposition .longerTuplesProtected).find? (canMatch t held · .longerTuplesProtected) =
      some row' := by
  obtain ⟨-, i, j, -, -, -, hj, hrow'⟩ := h
  exact hj.find?_eq.trans hrow'

/-- If the first row can be answered by whole tuples, it binds under protection too. -/
theorem eq_of_canMatch [RowOrder] (h : f.BindsLater t held row row')
    (hmatch : canMatch t held row .longerTuplesProtected = true) : row = row' := by
  obtain ⟨hsame, i, j, hle, -, hrow, hj, hrow'⟩ := h
  have hge : j ≤ i := Nat.le_of_not_lt fun hlt => hj.2 i hlt row (hsame ▸ hrow) hmatch
  rw [hsame, ← Nat.le_antisymm hle hge, hrow] at hrow'
  exact Option.some.inj hrow'

end BindsLater

/-- When no card is held more than twice and no run of single cards was led, there is nothing longer
than what the rows ask for. -/
theorem nothingLonger_of_count_le_two [RowOrder] {f : TrickFormat}
    (hruns : ∀ u ∈ f.units, u.copies = 1 → u.groups = 1) (htwo : ∀ c, held.count c ≤ 2) :
    NothingLonger (f.decomposition .noProtections) held := by
  intro row hrow u hu hne c
  have hweak := weakensTo_of_mem (by decide) hrow
  have hrun : u.copies = 1 → u.groups = 1 :=
    hweak.forall_units (fun _ _ hparts hone _ => hparts.groups_eq_one hone) hruns u hu
  have hcopies : u.copies ≠ 1 := fun hone => hne (UnitShape.ext hone (hrun hone))
  have hpos := u.copies_pos
  have hle := htwo c
  omega

end TrickFormat

/-! ### Verdicts -/

namespace Trick

variable {k : Trick} {f : TrickFormat} {id : PlayerId} {hands : Hands} {hand : Hand}

/-- A play that keeps to the suit with enough cards of it is of that suit only. -/
theorem KeepsToSuit.cardsOfSuit_eq (h : k.KeepsToSuit f hand cards)
    (henough : f.size ≤ (k.cardsOfSuit f.suit hand.cards).length) :
    k.cardsOfSuit f.suit cards = cards := by
  obtain ⟨hlen, hcount⟩ := h
  exact List.filter_sublist.eq_of_length (show (k.cardsOfSuit f.suit cards).length = _ by omega)

/-- A follow with too few cards of the led suit is judged alike under all policies. -/
theorem checkFollow_of_short [RowOrder] (policy policy' : DrawPolicy)
    (hshort : (k.cardsOfSuit f.suit cards).length < f.size) :
    k.checkFollow f hand cards policy = k.checkFollow f hand cards policy' := by
  rw [checkFollow_eq, checkFollow_eq, if_pos hshort, if_pos hshort]

/-- With nothing longer in the hand, protecting longer tuples changes no verdict on cards out of it. -/
theorem checkFollow_of_nothingLonger [RowOrder] (hsub : cards.Subperm hand.cards)
    (hlong : NothingLonger (f.decomposition .noProtections) (k.cardsOfSuit f.suit hand.cards)) :
    k.checkFollow f hand cards .longerTuplesProtected =
      k.checkFollow f hand cards .noProtections := by
  have hsuit : (k.cardsOfSuit f.suit cards).Subperm (k.cardsOfSuit f.suit hand.cards) :=
    cardsOfSuit_subperm hsub
  have hfind : (f.decomposition .noProtections).find?
      (canMatch k.trump (k.cardsOfSuit f.suit hand.cards) · .longerTuplesProtected) =
      (f.decomposition .noProtections).find?
        (canMatch k.trump (k.cardsOfSuit f.suit hand.cards) · .noProtections) :=
    List.find?_congr fun row hrow => canMatch_protected_iff hlong hrow
  rw [checkFollow_eq, checkFollow_eq, TrickFormat.decomposition_protected]
  unfold verdict
  rw [hfind]
  cases hrow : (f.decomposition .noProtections).find?
      (canMatch k.trump (k.cardsOfSuit f.suit hand.cards) · .noProtections) with
  | none => rfl
  | some row =>
    simp only [canMatch_protected_iff (hlong.of_subperm hsuit) (List.mem_of_find?_eq_some hrow)]

/-- A play of the led suit is accepted under protection when it answers the row that binds without
protections by whole tuples of the hand. -/
theorem checkFollow_of_whole [RowOrder] {row row' : Shape} (hkeeps : k.KeepsToSuit f hand cards)
    (hpart : cards.Subperm (k.cardsOfSuit f.suit hand.cards))
    (hrows : f.BindsLater k.trump (k.cardsOfSuit f.suit hand.cards) row row')
    (hplace : Placement k.trump .longerTuplesProtected (k.cardsOfSuit f.suit hand.cards)
      row.structured units)
    (hunits : (Grouping.cards units).Subperm cards) :
    canMatch k.trump cards row' .longerTuplesProtected = true := by
  have hlen := hkeeps.1
  have hsize := hrows.size_eq
  have hle := hpart.length_le
  have hheld : canMatch k.trump (k.cardsOfSuit f.suit hand.cards) row .longerTuplesProtected =
      true := canMatch_iff.mpr ⟨by omega, units, hplace⟩
  rw [← hrows.eq_of_canMatch hheld]
  exact canMatch_iff.mpr ⟨by omega, units, hplace.restrict hpart hunits⟩

/-- A play that is accepted where tuples are not protected.  A lead and a follow short of the led suit
stay accepted where they are.  Otherwise the row that binds does not come earlier, and the play stays
accepted when it answers that row, by tuples that are whole among the cards played; so when it answers
the row that binds without protections by whole tuples of the hand, and whenever the hand has nothing
longer than the rows ask for, as when it has no card more than twice and no run of single cards was
led. -/
theorem accepted_under_protection [RowOrder]
    (h : k.canPlay id hands cards .noProtections = .ok ()) :
    (k.currentFormat = .ok none → k.canPlay id hands cards .longerTuplesProtected = .ok ()) ∧
    ∀ f hand, k.currentFormat = .ok (some f) → hands.get id = .ok hand →
      ((k.cardsOfSuit f.suit hand.cards).length < f.size →
        k.canPlay id hands cards .longerTuplesProtected = .ok ()) ∧
      (f.size ≤ (k.cardsOfSuit f.suit hand.cards).length → ∃ row row',
        f.BindsLater k.trump (k.cardsOfSuit f.suit hand.cards) row row' ∧
        (k.canPlay id hands cards .longerTuplesProtected = .ok () ↔
          canMatch k.trump cards row' .longerTuplesProtected = true) ∧
        ∀ units, Placement k.trump .longerTuplesProtected (k.cardsOfSuit f.suit hand.cards)
            row.structured units → (Grouping.cards units).Subperm cards →
          k.canPlay id hands cards .longerTuplesProtected = .ok ()) ∧
      (NothingLonger (f.decomposition .noProtections) (k.cardsOfSuit f.suit hand.cards) →
        k.canPlay id hands cards .longerTuplesProtected = .ok ()) ∧
      ((∀ u ∈ f.units, u.copies = 1 → u.groups = 1) →
        (∀ c, (k.cardsOfSuit f.suit hand.cards).count c ≤ 2) →
        k.canPlay id hands cards .longerTuplesProtected = .ok ()) := by
  obtain ⟨queue, hand, hq, hne, hh, hsub, hcase⟩ := canPlay_eq_ok_iff.mp h
  refine ⟨fun hnone => ?_, fun f hand' hf hh' => ?_⟩
  · rcases hcase with ⟨-, hlead⟩ | ⟨f, hf, -⟩
    · exact canPlay_eq_ok_iff.mpr ⟨queue, hand, hq, hne, hh, hsub, Or.inl ⟨hnone, hlead⟩⟩
    · rw [hnone] at hf
      cases hf
  · obtain rfl : hand = hand' := Except.ok.inj (hh.symm.trans hh')
    have hfollow (policy : DrawPolicy) : k.canPlay id hands cards policy = .ok () ↔
        k.checkFollow f hand cards policy = .ok () := by
      rw [canPlay_follow hq hne hh hsub hf, mapError_eq_ok]
    have haccepted := (hfollow .noProtections).mp h
    have hkeeps := keepsToSuit_of_checkFollow hsub haccepted
    have hnothing : NothingLonger (f.decomposition .noProtections)
          (k.cardsOfSuit f.suit hand.cards) →
        k.canPlay id hands cards .longerTuplesProtected = .ok () := fun hlong =>
      (hfollow _).mpr ((checkFollow_of_nothingLonger hsub hlong).trans haccepted)
    refine ⟨fun hshort => ?_, fun henough => ?_, hnothing, fun hruns htwo => ?_⟩
    · have hfew : (k.cardsOfSuit f.suit cards).length < f.size := by
        have hcount := hkeeps.2
        omega
      exact (hfollow _).mpr ((checkFollow_of_short _ _ hfew).trans haccepted)
    · have hpart : cards.Subperm (k.cardsOfSuit f.suit hand.cards) := by
        rw [← hkeeps.cardsOfSuit_eq henough]
        exact cardsOfSuit_subperm hsub
      have hsuit : ∀ c ∈ cards, k.trump.effectiveSuit c = f.suit := fun c hc =>
        effectiveSuit_of_mem_cardsOfSuit (hpart.subset hc)
      obtain ⟨row, row', hrows⟩ := f.exists_bindsLater (t := k.trump) henough
      have hiff : k.canPlay id hands cards .longerTuplesProtected = .ok () ↔
          canMatch k.trump cards row' .longerTuplesProtected = true := by
        rw [hfollow, checkFollow_suited hkeeps.1 hsuit, verdict_of_find hrows.find?_eq]
      exact ⟨row, row', hrows, hiff, fun units hplace hunits =>
        hiff.mpr (checkFollow_of_whole hkeeps hpart hrows hplace hunits)⟩
    · exact hnothing (TrickFormat.nothingLonger_of_count_le_two hruns htwo)

end Trick

/-! ### A triple for a pair and a single -/

/-- A pair and a single are led, and a player has to follow. -/
def throwOfPairTrick : Trick where
  trump := pairFormat.trump
  queue := [1]
  played := [⟨0, [spade 6, spade 6, spade 8]⟩]

def throwOfPairFormat : TrickFormat where
  suit := .plain .spades
  trump := pairFormat.trump
  units := unitsOf [[2], [1]]

def tripleAndPair : Hand := .ofCards [spade 3, spade 3, spade 3, spade 4, spade 4]

def tripleAndPairHands : Hands := .ofList [(1, tripleAndPair)]

theorem currentFormat_throwOfPairTrick :
    throwOfPairTrick.currentFormat = .ok (some throwOfPairFormat) := by cbv

theorem cardsOfSuit_tripleAndPair :
    throwOfPairTrick.cardsOfSuit throwOfPairFormat.suit tripleAndPair.cards =
      [spade 3, spade 3, spade 3, spade 4, spade 4] := rfl

theorem canMatch_throwOfPair (policy : DrawPolicy) :
    canMatch throwOfPairTrick.trump
      (throwOfPairTrick.cardsOfSuit throwOfPairFormat.suit tripleAndPair.cards)
      throwOfPairFormat.units policy = true := by
  rw [cardsOfSuit_tripleAndPair]
  cases policy with
  | noProtections => cbv
  | longerTuplesProtected => cbv
  | noFormatBasedDraw => cbv

/-- The hand can play a pair and a single under every policy, so that row binds. -/
theorem find?_throwOfPair [RowOrder] (policy : DrawPolicy) (hp : policy ≠ .noFormatBasedDraw) :
    (throwOfPairFormat.decomposition policy).find? (canMatch throwOfPairTrick.trump
      (throwOfPairTrick.cardsOfSuit throwOfPairFormat.suit tripleAndPair.cards) · policy) =
      some throwOfPairFormat.units := by
  rw [TrickFormat.decomposition_eq hp]
  exact List.find?_cons_of_pos (canMatch_throwOfPair policy)

section

open scoped RowOrder

/-- A triple passes for a pair and a single only where it may be broken. -/
theorem triple_for_pair_refused :
    throwOfPairTrick.canPlay 1 tripleAndPairHands [spade 3, spade 3, spade 3] .noProtections =
        .ok () ∧
      throwOfPairTrick.canPlay 1 tripleAndPairHands [spade 3, spade 3, spade 3]
        .longerTuplesProtected = .error (.play .wrongShape) := by
  have hf := currentFormat_throwOfPairTrick
  have hsub : [spade 3, spade 3, spade 3].Subperm
      (throwOfPairTrick.cardsOfSuit throwOfPairFormat.suit tripleAndPair.cards) := by decide
  have hplay (policy : DrawPolicy) :
      throwOfPairTrick.canPlay 1 tripleAndPairHands [spade 3, spade 3, spade 3] policy = _ :=
    Trick.canPlay_suited rfl hf (by decide) (rfl : tripleAndPairHands.get 1 = _) hsub rfl
  have hbinds := find?_throwOfPair .noProtections (by decide)
  have hbinds' := find?_throwOfPair .longerTuplesProtected (by decide)
  constructor
  · rw [hplay, Trick.mapError_eq_ok, Trick.verdict_of_find hbinds]
    cbv
  · rw [hplay, Trick.verdict, hbinds']
    cbv

/-- The pair and a card of the triple are accepted under both. -/
theorem pair_beside_triple_accepted :
    throwOfPairTrick.canPlay 1 tripleAndPairHands [spade 4, spade 4, spade 3] .noProtections =
        .ok () ∧
      throwOfPairTrick.canPlay 1 tripleAndPairHands [spade 4, spade 4, spade 3]
        .longerTuplesProtected = .ok () := by
  have hf := currentFormat_throwOfPairTrick
  have hh : tripleAndPairHands.get 1 = .ok tripleAndPair := rfl
  have hsub : [spade 4, spade 4, spade 3].Subperm
      (throwOfPairTrick.cardsOfSuit throwOfPairFormat.suit tripleAndPair.cards) := by decide
  have hbinds := find?_throwOfPair .noProtections (by decide)
  have hbinds' := find?_throwOfPair .longerTuplesProtected (by decide)
  have haccepted : throwOfPairTrick.canPlay 1 tripleAndPairHands [spade 4, spade 4, spade 3]
      .noProtections = .ok () := by
    rw [Trick.canPlay_suited rfl hf (by decide) hh hsub rfl, Trick.mapError_eq_ok,
      Trick.verdict_of_find hbinds]
    cbv
  obtain ⟨-, hfollow⟩ := Trick.accepted_under_protection haccepted
  obtain ⟨-, henough, -⟩ := hfollow _ _ hf hh
  obtain ⟨row, row', hrows, hiff, -⟩ := henough (by decide)
  obtain rfl : row' = throwOfPairFormat.units := Option.some.inj (hrows.find?_eq.symm.trans hbinds')
  exact ⟨haccepted, hiff.mpr (by cbv)⟩

end

end TractorRules
