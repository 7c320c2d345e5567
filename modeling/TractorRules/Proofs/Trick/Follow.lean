import TractorRules.Proofs.Format.Matching
import TractorRules.Proofs.Format.Rows
import TractorRules.Proofs.Hands
import TractorRules.Trick
import Mathlib.Data.List.Permutation
import Mathlib.Order.Nat

/-!
# Following a lead

A follower who plays the led suit only is judged by one row of the decomposition, the first that the
held cards of the suit satisfy.  A placement on held cards is one on the cards played from them
(`Placement.restrict`), which gives the rule of the closest match
(`accepted_iff_earliest_row_agrees`).
-/

namespace TractorRules

/-! ### Placements on fewer cards -/

variable {t : Trump} {policy : DrawPolicy} {cards held : List Card} {shapes : Shape}
  {units : Grouping}

theorem TrickUnit.count_le_count_cards {u : TrickUnit} {c : Card} (hu : u ∈ units)
    (hc : c ∈ u.members) : u.count ≤ (Grouping.cards units).count c := by
  have hperm := Grouping.cards_perm (List.perm_cons_erase hu)
  rw [hperm.count_eq, Grouping.cards_cons, List.count_append, TrickUnit.count_cards]
  have hpos : 0 < u.members.count c := List.count_pos_iff.mpr hc
  have hle := Nat.le_mul_of_pos_right u.count hpos
  omega

/-- A placement stays one on fewer cards as long as they have its units: a unit that takes all
copies of a card leaves no other copies to be among them. -/
theorem Placement.restrict (h : Placement t policy held shapes units) (hsub : cards.Subperm held)
    (hunits : (Grouping.cards units).Subperm cards) : Placement t policy cards shapes units := by
  refine ⟨h.shapes_eq, h.runs, hunits, fun hp u hu c hc => ?_⟩
  have hall := h.whole hp u hu c hc
  have hle := List.subperm_iff_count.mp hsub c
  have hge := List.subperm_iff_count.mp hunits c
  have hcount := TrickUnit.count_le_count_cards hu hc
  omega

/-- Of some card there are as many copies as a unit asks for. -/
theorem Placement.exists_le_count (h : Placement t policy cards shapes units) {u : UnitShape}
    (hu : u ∈ shapes) : ∃ c, u.copies ≤ cards.count c := by
  obtain ⟨v, hv, rfl⟩ := List.mem_map.mp (h.shapes_eq.mem_iff.mpr hu)
  obtain ⟨c, hc⟩ := List.exists_mem_of_ne_nil _ v.members_ne_nil
  rw [v.shape_copies]
  exact ⟨c, (TrickUnit.count_le_count_cards hv hc).trans (List.subperm_iff_count.mp h.disjoint c)⟩

theorem canMatch_of_placement {row : Shape} {singles : List Card}
    (h : Placement t policy held row.structured units) (hlen : singles.length = row.count .single)
    (hsub : (Grouping.cards units ++ singles).Subperm held)
    (hcards : cards.Perm (Grouping.cards units ++ singles)) :
    canMatch t cards row policy = true ∧ cards.length = row.size := by
  have hsize : cards.length = row.size := by
    have hunits := Grouping.length_cards units
    have hshape : Shape.size (units.map TrickUnit.shape) = row.structured.size :=
      Shape.size_perm h.shapes_eq
    have hsplit := row.size_structured
    rw [hcards.length_eq, List.length_append]
    omega
  have hunits : (Grouping.cards units).Subperm cards :=
    (List.sublist_append_left _ _).subperm.trans hcards.symm.subperm
  have hplace := h.restrict (hcards.subperm.trans hsub) hunits
  exact ⟨canMatch_iff.mpr ⟨hsize.ge, units, hplace⟩, hsize⟩

theorem exists_part_of_canMatch {row : Shape} (h : canMatch t held row policy = true) :
    ∃ part, part.Subperm held ∧ part.length = row.size ∧ canMatch t part row policy = true := by
  have hne : matchShape t held row policy none ≠ [] :=
    matchShape_ne_nil_iff.mpr (canMatch_iff.mp h)
  obtain ⟨g, hg⟩ := List.exists_mem_of_ne_nil _ hne
  obtain ⟨units, singles, -, hplace, hlen, hsub⟩ := exists_placement_of_mem hg
  obtain ⟨hmatch, hsize⟩ := canMatch_of_placement hplace hlen hsub (.refl _)
  exact ⟨_, hsub, hsize, hmatch⟩

theorem canMatch_singles {n : Nat} (h : n ≤ held.length) :
    canMatch t held (List.replicate n .single) policy = true := by
  have hstruct : Shape.structured (List.replicate n .single) = [] := by
    simp [Shape.structured]
  have hnone : Placement t policy held [] [] :=
    ⟨.refl _, by simp, by simp [Grouping.cards], by simp⟩
  rw [canMatch_iff, UnitShape.size_replicate_single, hstruct]
  exact ⟨h, [], hnone⟩

/-! ### The binding row -/

/-- What is said of a play of the led suit when the rows come in some order: the first row that the
held cards satisfy has to be satisfied by the cards as well. -/
def Trick.verdict (k : Trick) (rows : List Shape) (held cards : List Card)
    (policy : DrawPolicy) : Except PlayFault Unit :=
  match rows.find? (canMatch k.trump held · policy) with
  | some row => if canMatch k.trump cards row policy then .ok () else .error .wrongShape
  | none => .ok ()

/-- Enough held cards always satisfy a row, if only that of single cards. -/
theorem TrickFormat.exists_binding_row [RowOrder] (f : TrickFormat) (h : f.size ≤ held.length) :
    ∃ row, (f.decomposition policy).find? (canMatch t held · policy) = some row := by
  have hsingles := f.singles_mem_decomposition policy
  have hsome : ((f.decomposition policy).find? (canMatch t held · policy)).isSome = true :=
    List.find?_isSome.mpr ⟨_, hsingles, canMatch_singles h⟩
  exact Option.isSome_iff_exists.mp hsome

namespace Trick

variable {k : Trick} {f : TrickFormat} {id : PlayerId} {queue : List PlayerId} {hands : Hands}
  {hand : Hand}

theorem cardsOfSuit_eq_self {suit : EffectiveSuit} (h : ∀ c ∈ cards, k.trump.effectiveSuit c = suit) :
    k.cardsOfSuit suit cards = cards := by
  rw [cardsOfSuit, List.filter_eq_self]
  intro c hc
  simpa using h c hc

theorem effectiveSuit_of_mem_cardsOfSuit {suit : EffectiveSuit} {c : Card}
    (h : c ∈ k.cardsOfSuit suit cards) : k.trump.effectiveSuit c = suit := by
  simpa using (List.mem_filter.mp h).2

theorem subperm_hand_of_suit {suit : EffectiveSuit}
    (hsub : cards.Subperm (k.cardsOfSuit suit hand.cards)) : cards.Subperm hand.cards :=
  hsub.trans List.filter_sublist.subperm

theorem canPlay_follow [RowOrder] (hq : k.queue = id :: queue) (hne : cards ≠ [])
    (hh : hands.get id = .ok hand) (hsub : cards.Subperm hand.cards)
    (hf : k.currentFormat = .ok (some f)) :
    k.canPlay id hands cards policy = (k.checkFollow f hand cards policy).mapError .play := by
  have hcontains : hand.contains cards = true := Hand.contains_iff.mpr hsub
  have hempty : cards.isEmpty = false := by simpa using hne
  simp [canPlay, hq, hempty, hh, hcontains, hf, bind, Except.bind]

theorem checkFollow_suited [RowOrder] (hlen : cards.length = f.size)
    (hsuit : ∀ c ∈ cards, k.trump.effectiveSuit c = f.suit) :
    k.checkFollow f hand cards policy =
      k.verdict (f.decomposition policy) (k.cardsOfSuit f.suit hand.cards) cards policy := by
  unfold checkFollow
  rw [if_neg (by simpa using hlen)]
  simp only [cardsOfSuit_eq_self hsuit, hlen, Nat.lt_irrefl, if_false]
  rfl

theorem canPlay_suited [RowOrder] (hq : k.queue = id :: queue) (hf : k.currentFormat = .ok (some f))
    (hn : 1 ≤ f.size) (hh : hands.get id = .ok hand)
    (hsub : cards.Subperm (k.cardsOfSuit f.suit hand.cards)) (hlen : cards.length = f.size) :
    k.canPlay id hands cards policy =
      (k.verdict (f.decomposition policy) (k.cardsOfSuit f.suit hand.cards) cards policy).mapError
        .play := by
  have hne : cards ≠ [] := by
    rintro rfl
    simp only [List.length_nil] at hlen
    omega
  have hsuit : ∀ c ∈ cards, k.trump.effectiveSuit c = f.suit := fun c hc =>
    effectiveSuit_of_mem_cardsOfSuit (hsub.subset hc)
  rw [canPlay_follow hq hne hh (subperm_hand_of_suit hsub) hf, checkFollow_suited hlen hsuit]

theorem verdict_of_find {rows : List Shape} {row : Shape}
    (h : rows.find? (canMatch k.trump held · policy) = some row) :
    k.verdict rows held cards policy = .ok () ↔ canMatch k.trump cards row policy = true := by
  unfold verdict
  cases hm : canMatch k.trump cards row policy <;> simp [h, hm]

theorem mapError_eq_ok {e : Except PlayFault Unit} :
    e.mapError RulesFault.play = .ok () ↔ e = .ok () := by
  cases e <;> simp [Except.mapError]

end Trick

/-! ### The closest match -/

/-- The first of some rows with a property has number `i`. -/
def IsEarliest (rows : List Shape) (p : Shape → Prop) (i : Nat) : Prop :=
  (∃ row, rows[i]? = some row ∧ p row) ∧ ∀ j < i, ∀ row, rows[j]? = some row → ¬p row

namespace IsEarliest

variable {rows : List Shape} {p q : Shape → Prop} {i j : Nat}

theorem exists_of_mem {row : Shape} (hrow : row ∈ rows) (hp : p row) : ∃ i, IsEarliest rows p i := by
  classical
  have hex : ∃ i : Nat, ∃ row, rows[i]? = some row ∧ p row := by
    obtain ⟨i, hi⟩ := List.getElem?_of_mem hrow
    exact ⟨i, row, hi, hp⟩
  refine ⟨Nat.find hex, Nat.find_spec hex, fun j hj row' hr hp' => ?_⟩
  exact Nat.find_min hex hj ⟨row', hr, hp'⟩

theorem congr (h : ∀ row ∈ rows, p row ↔ q row) (hi : IsEarliest rows p i) :
    IsEarliest rows q i := by
  obtain ⟨⟨row, hr, hp⟩, hbefore⟩ := hi
  refine ⟨⟨row, hr, (h row (List.mem_of_getElem? hr)).mp hp⟩, fun j hj row' hr' hq => ?_⟩
  exact hbefore j hj row' hr' ((h row' (List.mem_of_getElem? hr')).mpr hq)

theorem find?_eq {b : Shape → Bool} (hi : IsEarliest rows (b · = true) i) :
    rows.find? b = rows[i]? := by
  obtain ⟨⟨row, hr, hb⟩, hbefore⟩ := hi
  obtain ⟨hlt, hget⟩ := List.getElem?_eq_some_iff.mp hr
  rw [hr, List.find?_eq_some_iff_getElem]
  refine ⟨hb, i, hlt, hget, fun j hj => ?_⟩
  have hnot := hbefore j hj rows[j] (List.getElem?_eq_getElem (by omega))
  simpa using hnot

/-- Of a property and a stronger one, the first rows are the same when that of the weaker property
has the stronger one too. -/
theorem eq_iff (himp : ∀ row ∈ rows, q row → p row) (hi : IsEarliest rows q i)
    (hj : IsEarliest rows p j) {row : Shape} (hrow : rows[j]? = some row) : i = j ↔ q row := by
  obtain ⟨⟨row', hr', hq'⟩, hbefore⟩ := hi
  constructor
  · rintro rfl
    rw [hr', Option.some.injEq] at hrow
    exact hrow ▸ hq'
  · intro hq
    have hle : i ≤ j := Nat.le_of_not_lt fun hlt => hbefore j hlt row hrow hq
    have hge : j ≤ i := Nat.le_of_not_lt fun hlt =>
      hj.2 i hlt row' hr' (himp row' (List.mem_of_getElem? hr') hq')
    omega

theorem unique (hi : IsEarliest rows p i) (hj : IsEarliest rows p j) : i = j := by
  obtain ⟨row, hrow, hp⟩ := hj.1
  exact (eq_iff (fun _ _ => id) hi hj hrow).mpr hp

end IsEarliest

/-- Some cards among the held ones, just enough for a format, satisfy a row exactly when the held
cards do. -/
theorem exists_part_iff [RowOrder] {f : TrickFormat} {row : Shape}
    (hrow : row ∈ f.decomposition policy) (hp : policy ≠ .longerTuplesProtected) :
    (∃ part, part.Subperm held ∧ part.length = f.size ∧ matchShape t part row policy none ≠ []) ↔
      canMatch t held row policy = true := by
  have hiff {cs : List Card} : matchShape t cs row policy none ≠ [] ↔
      canMatch t cs row policy = true := matchShape_ne_nil_iff.trans canMatch_iff.symm
  constructor
  · intro hpart
    obtain ⟨part, hsub, -, hmatch⟩ := hpart
    exact canMatch_mono hp hsub (hiff.mp hmatch)
  · intro h
    obtain ⟨part, hsub, hlen, hmatch⟩ := exists_part_of_canMatch h
    exact ⟨part, hsub, by rw [hlen, TrickFormat.size_of_mem_decomposition hrow], hiff.mpr hmatch⟩

/-- Without protections, a play of the led suit is accepted exactly when the first row that it
satisfies is the first that any cards of the suit in the hand satisfy. -/
theorem accepted_iff_earliest_row_agrees [RowOrder] {k : Trick} {f : TrickFormat} {id : PlayerId}
    {queue : List PlayerId} {hands : Hands} {hand : Hand} {cards : List Card}
    (hq : k.queue = id :: queue) (hf : k.currentFormat = .ok (some f)) (hn : 1 ≤ f.size)
    (hh : hands.get id = .ok hand) (hsub : cards.Subperm (k.cardsOfSuit f.suit hand.cards))
    (hlen : cards.length = f.size) :
    ∃ i j,
      IsEarliest (f.decomposition .noProtections)
        (fun row => matchShape k.trump cards row .noProtections none ≠ []) i ∧
      IsEarliest (f.decomposition .noProtections)
        (fun row => ∃ part, part.Subperm (k.cardsOfSuit f.suit hand.cards) ∧
          part.length = f.size ∧ matchShape k.trump part row .noProtections none ≠ []) j ∧
      (k.canPlay id hands cards .noProtections = .ok () ↔ i = j) := by
  have hpolicy : DrawPolicy.noProtections ≠ .longerTuplesProtected := by decide
  have hiff {row : Shape} : matchShape k.trump cards row .noProtections none ≠ [] ↔
      canMatch k.trump cards row .noProtections = true :=
    matchShape_ne_nil_iff.trans canMatch_iff.symm
  have hsingles := f.singles_mem_decomposition .noProtections
  obtain ⟨i, hi⟩ := IsEarliest.exists_of_mem
    (p := (canMatch k.trump cards · .noProtections = true)) hsingles (canMatch_singles hlen.ge)
  obtain ⟨j, hj⟩ := IsEarliest.exists_of_mem
    (p := (canMatch k.trump (k.cardsOfSuit f.suit hand.cards) · .noProtections = true)) hsingles
    (canMatch_singles (hlen ▸ hsub.length_le))
  refine ⟨i, j, hi.congr fun row _ => hiff.symm,
    hj.congr fun row hrow => (exists_part_iff hrow hpolicy).symm, ?_⟩
  obtain ⟨row, hrow, -⟩ := hj.1
  rw [Trick.canPlay_suited hq hf hn hh hsub hlen, Trick.mapError_eq_ok,
    Trick.verdict_of_find (hj.find?_eq.trans hrow),
    IsEarliest.eq_iff (fun _ _ => canMatch_mono hpolicy hsub) hi hj hrow]

/-- A spade of a number, which is brought into range. -/
def spade (n : Nat) : Card := .suited .spades ⟨max 2 (min n 14), by omega, by omega⟩

/-- Units as they are written; what is no unit is left out. -/
def unitsOf (tuples : List (List Int)) : Shape :=
  tuples.filterMap fun ns => (UnitShape.ofTuples ns).toOption

/-- A pair of spades is asked for while hearts and twos are trump. -/
def pairFormat : TrickFormat where
  suit := .plain .spades
  trump := ⟨some .hearts, some .two⟩
  units := unitsOf [[2]]

/-- Two players have to answer a pair of spades. -/
def pairTrick : Trick where
  trump := pairFormat.trump
  queue := [1, 2]
  format := some pairFormat

def tripleHand : Hand := .ofCards [spade 3, spade 3, spade 3, spade 9]

def tripleHands : Hands := .ofList [(1, tripleHand), (2, .ofCards [spade 4])]

def heldSpades : List Card := pairTrick.cardsOfSuit pairFormat.suit tripleHand.cards

/-- A pair can only be weakened to two singles. -/
theorem decomposition_pairFormat [RowOrder] :
    pairFormat.decomposition .noProtections = [pairFormat.units, [.single, .single]] := by
  have hstart : pairFormat.units.canonical = pairFormat.units :=
    List.mergeSort_of_pairwise (by decide)
  have hpair : Shape.unseen [pairFormat.units] pairFormat.units.reductions =
      [[.single, .single]] := by cbv
  have hsingles : Shape.reductions [.single, .single] = [] := by decide
  have hsearch : Shape.BreadthFirst [pairFormat.units] [pairFormat.units]
      [pairFormat.units, [.single, .single]] := by
    refine .next ?_
    rw [hpair]
    refine .next ?_
    rw [hsingles]
    exact .done _
  obtain ⟨seen, hseen, hperm⟩ := pairFormat.exists_breadthFirst_weaker
  rw [hstart] at hseen hperm
  rw [← (hseen _).mp hsearch] at hperm
  rw [TrickFormat.decomposition_eq (by decide), List.perm_singleton.mp hperm]

section

open scoped RowOrder

/-- The two of three threes answer the pair as well as the hand can, and a three with a nine does not. -/
theorem pair_out_of_triple_judged :
    ([spade 3, spade 3].Subperm heldSpades ∧
      IsEarliest (pairFormat.decomposition .noProtections)
        (fun row => matchShape pairTrick.trump [spade 3, spade 3] row .noProtections none ≠ []) 0 ∧
      IsEarliest (pairFormat.decomposition .noProtections)
        (fun row => ∃ part, part.Subperm heldSpades ∧ part.length = pairFormat.size ∧
          matchShape pairTrick.trump part row .noProtections none ≠ []) 0 ∧
      pairTrick.canPlay 1 tripleHands [spade 3, spade 3] .noProtections = .ok ()) ∧
    [spade 3, spade 9].Subperm heldSpades ∧
      IsEarliest (pairFormat.decomposition .noProtections)
        (fun row => matchShape pairTrick.trump [spade 3, spade 9] row .noProtections none ≠ []) 1 ∧
      pairTrick.canPlay 1 tripleHands [spade 3, spade 9] .noProtections ≠ .ok () := by
  have hf : pairTrick.currentFormat = .ok (some pairFormat) := rfl
  have hh : tripleHands.get 1 = .ok tripleHand := rfl
  have hpair : [spade 3, spade 3].Subperm heldSpades := by decide
  have hapart : [spade 3, spade 9].Subperm heldSpades := by decide
  have hplace : Placement pairTrick.trump .noProtections [spade 3, spade 3]
      pairFormat.units.structured [.repeated ⟨spade 3, 2, Nat.two_pos⟩] := by
    refine ⟨.refl _, fun u hu => ?_, by decide, fun hp => absurd hp (by decide)⟩
    rw [List.mem_singleton.mp hu]
    exact Trump.isRun_singleton _
  have hmatch : matchShape pairTrick.trump [spade 3, spade 3] pairFormat.units .noProtections none ≠
      [] := matchShape_ne_nil_iff.mpr ⟨by decide, _, hplace⟩
  have hi : IsEarliest (pairFormat.decomposition .noProtections)
      (fun row => matchShape pairTrick.trump [spade 3, spade 3] row .noProtections none ≠ []) 0 := by
    rw [decomposition_pairFormat]
    exact ⟨⟨_, rfl, hmatch⟩, fun j hj => absurd hj (Nat.not_lt_zero j)⟩
  have hj : IsEarliest (pairFormat.decomposition .noProtections)
      (fun row => ∃ part, part.Subperm heldSpades ∧ part.length = pairFormat.size ∧
        matchShape pairTrick.trump part row .noProtections none ≠ []) 0 := by
    rw [decomposition_pairFormat]
    exact ⟨⟨_, rfl, _, hpair, rfl, hmatch⟩, fun j hj => absurd hj (Nat.not_lt_zero j)⟩
  have hi' : IsEarliest (pairFormat.decomposition .noProtections)
      (fun row => matchShape pairTrick.trump [spade 3, spade 9] row .noProtections none ≠ []) 1 := by
    rw [decomposition_pairFormat]
    refine ⟨⟨_, rfl, ?_⟩, fun j hj row hrow => ?_⟩
    · exact matchShape_ne_nil_iff.mpr
        (canMatch_iff.mp (canMatch_singles (n := 2) (Nat.le_refl 2)))
    · obtain rfl : j = 0 := by omega
      obtain rfl := Option.some.inj hrow
      intro hne
      obtain ⟨-, units, hplace⟩ := matchShape_ne_nil_iff.mp hne
      obtain ⟨c, hc⟩ := hplace.exists_le_count (u := ⟨2, 1, Nat.two_pos, Nat.one_pos⟩) (by decide)
      have hone := List.nodup_iff_count_le_one.mp (by decide : [spade 3, spade 9].Nodup) c
      exact absurd (hc.trans hone) (by decide)
  refine ⟨⟨hpair, hi, hj, ?_⟩, hapart, hi', ?_⟩
  · obtain ⟨i, j, hfirst, hheld, hiff⟩ :=
      accepted_iff_earliest_row_agrees rfl hf (by decide) hh hpair rfl
    exact hiff.mpr ((hfirst.unique hi).trans (hheld.unique hj).symm)
  · obtain ⟨i, j, hfirst, hheld, hiff⟩ :=
      accepted_iff_earliest_row_agrees rfl hf (by decide) hh hapart rfl
    rw [Ne, hiff, hfirst.unique hi', hheld.unique hj]
    exact Nat.one_ne_zero

end

end TractorRules
