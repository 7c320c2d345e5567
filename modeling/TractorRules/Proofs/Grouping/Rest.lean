import TractorRules.Grouping.Suit
import TractorRules.Proofs.Copies
import Mathlib.Algebra.Order.Group.Multiset
import Mathlib.Data.Multiset.Bind
import Mathlib.Data.Multiset.Dedup

/-!
# Tractors with the rest of the cards

Units as multisets: what cards they hold (`cardsOf`), and the grouping that a choice of tractors makes,
with all copies of each other card in one unit (`withRest`).  The choice can be read off the grouping
(`withRest_injective`), and disjoint cards can be grouped apart (`withRest_add`).
-/

namespace TractorRules

/-! ### Cards of several units -/

def cardsOf (units : Multiset TrickUnit) : Multiset Card := units.bind fun u => (u.cards : Multiset Card)

theorem cardsOf_coe (g : Grouping) : cardsOf g = (Grouping.cards g : Multiset Card) :=
  Multiset.coe_bind g TrickUnit.cards

theorem cardsOf_add (units units' : Multiset TrickUnit) :
    cardsOf (units + units') = cardsOf units + cardsOf units' := Multiset.add_bind ..

theorem cardsOf_cons (u : TrickUnit) (units : Multiset TrickUnit) :
    cardsOf (u ::ₘ units) = u.cards + cardsOf units := Multiset.cons_bind ..

theorem cardsOf_mono {units units' : Multiset TrickUnit} (h : units ≤ units') :
    cardsOf units ≤ cardsOf units' := by
  obtain ⟨more, rfl⟩ := Multiset.le_iff_exists_add.mp h
  rw [cardsOf_add]
  exact Multiset.le_add_right _ _

theorem mem_cardsOf {units : Multiset TrickUnit} {c : Card} :
    c ∈ cardsOf units ↔ ∃ u ∈ units, c ∈ u.members := by
  simp only [cardsOf, Multiset.mem_bind, Multiset.mem_coe, TrickUnit.mem_cards]

theorem mem_cardsOf_tractors {T : Multiset Tractor} {c : Card} :
    c ∈ cardsOf (T.map .tractor) ↔ ∃ r ∈ T, c ∈ r.members := by
  rw [mem_cardsOf]
  constructor
  · intro h
    obtain ⟨u, hu, hc⟩ := h
    obtain ⟨r, hr, rfl⟩ := Multiset.mem_map.mp hu
    exact ⟨r, hr, hc⟩
  · intro h
    obtain ⟨r, hr, hc⟩ := h
    exact ⟨.tractor r, Multiset.mem_map_of_mem _ hr, hc⟩

/-! ### Cards in one unit each -/

/-- So many copies of a card in one unit, if there are any. -/
def pile (copies : Card → Nat) (c : Card) : Option TrickUnit :=
  (Repeated.ofNat? c (copies c)).map .repeated

theorem pile_eq_some_iff {copies : Card → Nat} {c : Card} {u : TrickUnit} :
    pile copies c = some u ↔ ∃ h : 0 < copies c, u = .repeated ⟨c, copies c, h⟩ := by
  unfold pile Repeated.ofNat?
  by_cases h : 0 < copies c
  · simp [h, eq_comm]
  · simp [h]

theorem pile_injective (copies : Card → Nat) (c c' : Card) (u : TrickUnit) (h : u ∈ pile copies c)
    (h' : u ∈ pile copies c') : c = c' := by
  obtain ⟨_, rfl⟩ := pile_eq_some_iff.mp h
  obtain ⟨_, heq⟩ := pile_eq_some_iff.mp h'
  exact (Repeated.mk.inj (TrickUnit.repeated.inj heq)).1

/-- All copies of each card in one unit. -/
def together (cards : Multiset Card) : Multiset TrickUnit := cards.dedup.filterMap (pile cards.count)

theorem mem_together {cards : Multiset Card} {u : TrickUnit} :
    u ∈ together cards ↔ ∃ c, ∃ h : 0 < cards.count c, u = .repeated ⟨c, cards.count c, h⟩ := by
  simp only [together, Multiset.mem_filterMap, Multiset.mem_dedup, pile_eq_some_iff]
  constructor
  · intro h
    obtain ⟨c, -, hu⟩ := h
    exact ⟨c, hu⟩
  · intro h
    obtain ⟨c, hpos, hu⟩ := h
    exact ⟨c, Multiset.count_pos.mp hpos, hpos, hu⟩

theorem nodup_together (cards : Multiset Card) : (together cards).Nodup :=
  Multiset.Nodup.filterMap _ (pile_injective _) (Multiset.nodup_dedup cards)

theorem coe_leftovers {held : Tally} {order : List Card} {cards : Multiset Card} (hn : order.Nodup)
    (hcount : ∀ c, held.count c = cards.count c) (horder : ∀ c ∈ cards, c ∈ order) :
    (held.leftovers order : Multiset TrickUnit) = together cards := by
  have hpiles : held.leftovers order = order.filterMap (pile cards.count) :=
    List.filterMap_congr fun c _ => by rw [pile, hcount]
  have hnodup : (order.filterMap (pile cards.count)).Nodup :=
    List.Nodup.filterMap (pile_injective _) hn
  rw [hpiles]
  refine (Multiset.Nodup.ext (Multiset.coe_nodup.mpr hnodup) (nodup_together cards)).mpr fun u => ?_
  simp only [Multiset.mem_coe, List.mem_filterMap, pile_eq_some_iff, mem_together]
  constructor
  · intro h
    obtain ⟨c, -, hu⟩ := h
    exact ⟨c, hu⟩
  · intro h
    obtain ⟨c, hpos, hu⟩ := h
    exact ⟨c, horder c (Multiset.count_pos.mp hpos), hpos, hu⟩

theorem cards_leftovers (held : Tally) (order : List Card) :
    Grouping.cards (held.leftovers order) = Copies.expand order held.count := by
  induction order with
  | nil => rfl
  | cons c order ih =>
    have hexpand : Copies.expand (c :: order) held.count =
        List.replicate (held.count c) c ++ Copies.expand order held.count := List.flatMap_cons
    rw [hexpand, ← ih, Tally.leftovers, List.filterMap_cons]
    by_cases hc : 0 < held.count c
    · simp only [Repeated.ofNat?, dif_pos hc, Option.map_some]
      rw [Grouping.cards_cons]
      rfl
    · have hzero : held.count c = 0 := by omega
      simp only [hzero, List.replicate_zero, List.nil_append]
      rfl

theorem cardsOf_together (cards : Multiset Card) : cardsOf (together cards) = cards := by
  induction cards using Quotient.inductionOn with
  | h cards =>
    have hn := Copies.nodup_eraseDups cards
    have hpiles : (((Tally.ofList cards).leftovers cards.eraseDups : Grouping) : Multiset TrickUnit) =
        together cards :=
      coe_leftovers hn (fun c => by rw [Tally.count_ofList, Multiset.coe_count])
        fun c hc => List.mem_eraseDups.mpr hc
    show cardsOf (together cards) = cards
    rw [← hpiles, cardsOf_coe, cards_leftovers, Multiset.coe_eq_coe]
    exact Copies.expand_perm hn _ (fun c hc => List.mem_eraseDups.mpr hc)
      fun c _ => Tally.count_ofList cards c

theorem together_add {cards cards' : Multiset Card} (h : Disjoint cards cards') :
    together (cards + cards') = together cards + together cards' := by
  have hleft {c : Card} (hc : 0 < cards.count c) : cards'.count c = 0 :=
    Multiset.count_eq_zero_of_notMem (Multiset.disjoint_left.mp h (Multiset.count_pos.mp hc))
  have hright {c : Card} (hc : 0 < cards'.count c) : cards.count c = 0 :=
    Multiset.count_eq_zero_of_notMem (Multiset.disjoint_right.mp h (Multiset.count_pos.mp hc))
  have hapart : Disjoint (together cards) (together cards') := by
    refine Multiset.disjoint_left.mpr fun {u} hu hu' => ?_
    obtain ⟨c, hpos, rfl⟩ := mem_together.mp hu
    obtain ⟨c', hpos', heq⟩ := mem_together.mp hu'
    obtain ⟨rfl, -⟩ := Repeated.mk.inj (TrickUnit.repeated.inj heq)
    have hzero := hleft hpos
    omega
  refine (Multiset.Nodup.ext (nodup_together _)
    (Multiset.nodup_add.mpr ⟨nodup_together _, nodup_together _, hapart⟩)).mpr fun u => ?_
  simp only [Multiset.mem_add, mem_together, Multiset.count_add]
  constructor
  · intro hu
    obtain ⟨c, hpos, rfl⟩ := hu
    by_cases hc : 0 < cards.count c
    · exact Or.inl ⟨c, hc, by simp [hleft hc]⟩
    · exact Or.inr ⟨c, by omega, by simp [Nat.eq_zero_of_not_pos hc]⟩
  · intro hu
    rcases hu with ⟨c, hpos, rfl⟩ | ⟨c, hpos, rfl⟩
    · exact ⟨c, by omega, by simp [hleft hpos]⟩
    · exact ⟨c, by omega, by simp [hright hpos]⟩

/-! ### The grouping of a choice of tractors -/

/-- The tractors with the rest of the cards, all copies of each in one unit. -/
def withRest (cards : Multiset Card) (T : Multiset Tractor) : Multiset TrickUnit :=
  T.map .tractor + together (cards - cardsOf (T.map .tractor))

def tractorsOf (units : Multiset TrickUnit) : Multiset Tractor :=
  units.filterMap fun u =>
    match u with
    | .repeated _ => none
    | .tractor r => some r

theorem tractorsOf_withRest (cards : Multiset Card) (T : Multiset Tractor) :
    tractorsOf (withRest cards T) = T := by
  have hrest : tractorsOf (together (cards - cardsOf (T.map .tractor))) = 0 := by
    refine Multiset.eq_zero_of_forall_notMem fun r hr => ?_
    obtain ⟨u, hu, hur⟩ := (Multiset.mem_filterMap _ _).mp hr
    obtain ⟨c, _, rfl⟩ := mem_together.mp hu
    simp at hur
  have htractors : tractorsOf (T.map .tractor) = T := by
    rw [tractorsOf, Multiset.filterMap_map]
    exact Multiset.filterMap_some T
  rw [withRest, tractorsOf, Multiset.filterMap_add]
  show tractorsOf (T.map .tractor) + tractorsOf (together _) = T
  rw [htractors, hrest, add_zero]

theorem withRest_injective (cards : Multiset Card) : Function.Injective (withRest cards) := by
  intro T T' h
  rw [← tractorsOf_withRest cards T, h, tractorsOf_withRest]

theorem cardsOf_withRest {cards : Multiset Card} {T : Multiset Tractor}
    (h : cardsOf (T.map .tractor) ≤ cards) : cardsOf (withRest cards T) = cards := by
  rw [withRest, cardsOf_add, cardsOf_together, add_tsub_cancel_of_le h]

theorem withRest_add {cards cards' : Multiset Card} (h : Disjoint cards cards')
    {T T' : Multiset Tractor} (hT : cardsOf (T.map .tractor) ≤ cards)
    (hT' : cardsOf (T'.map .tractor) ≤ cards') :
    withRest (cards + cards') (T + T') = withRest cards T + withRest cards' T' := by
  have hrest : cards + cards' - (cardsOf (T.map .tractor) + cardsOf (T'.map .tractor)) =
      (cards - cardsOf (T.map .tractor)) + (cards' - cardsOf (T'.map .tractor)) :=
    (tsub_add_tsub_comm hT hT').symm
  have hapart : Disjoint (cards - cardsOf (T.map .tractor)) (cards' - cardsOf (T'.map .tractor)) :=
    h.mono (Multiset.sub_le_self _ _) (Multiset.sub_le_self _ _)
  rw [withRest, Multiset.map_add, cardsOf_add, hrest, together_add hapart, withRest, withRest,
    add_add_add_comm]

end TractorRules
