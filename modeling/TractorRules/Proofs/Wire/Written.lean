import TractorRules.Proofs.Hands
import TractorRules.Wire.Table
import Mathlib.Algebra.BigOperators.Group.Multiset.Basic
import Mathlib.Data.List.Forall2

/-!
# The cards that hands write

A hand is written as a list of cards or by the counts of labels, and several labels may be read as the
same card.  Either way it writes a multiset of cards, and that is what the player then holds
(`held_of_readHands`).
-/

namespace TractorRules

theorem bind_eq_ok_iff {ε α β : Type} {result : Except ε α} {next : α → Except ε β} {b : β} :
    (result >>= next) = .ok b ↔ ∃ a, result = .ok a ∧ next a = .ok b := by
  cases result with
  | error fault => exact ⟨nofun, fun ⟨_, h, _⟩ => nomatch h⟩
  | ok a =>
    constructor
    · intro h
      exact ⟨a, rfl, h⟩
    · intro h
      obtain ⟨a', ha, hb⟩ := h
      exact Except.ok.inj ha ▸ hb

theorem mapM_eq_ok_iff {ε α β : Type} {f : α → Except ε β} {xs : List α} {ys : List β} :
    xs.mapM f = .ok ys ↔ List.Forall₂ (fun x y => f x = .ok y) xs ys := by
  induction xs generalizing ys with
  | nil => simp [pure, Except.pure, eq_comm]
  | cons x xs ih =>
    simp only [List.mapM_cons, bind_eq_ok_iff, List.forall₂_cons_left_iff, ih, pure, Except.pure,
      Except.ok.injEq]
    constructor
    · intro h
      obtain ⟨y, hy, ys, hys, rfl⟩ := h
      exact ⟨y, ys, hy, hys, rfl⟩
    · intro h
      obtain ⟨y, ys, hy, hys, rfl⟩ := h
      exact ⟨y, hy, ys, hys, rfl⟩

/-- The last pair of a key is the one that is found. -/
theorem Entries.lookup_ofList {κ α : Type} [DecidableEq κ] (pairs : List (κ × α)) (k : κ) :
    (ofList pairs).lookup k = pairs.reverse.lookup k := by
  suffices h : ∀ es : Entries κ α, (pairs.foldl (fun es p => put p.1 p.2 es) es).lookup k =
      (pairs.reverse ++ es).lookup k by
    rw [ofList, h, List.append_nil]
  induction pairs with
  | nil => exact fun es => rfl
  | cons p rest ih =>
    intro es
    have hput : (put p.1 p.2 es).lookup k = (p :: es).lookup k :=
      (lookup_put p.1 p.2 es k).trans (lookup_cons p.1 p.2 es k).symm
    rw [List.foldl_cons, ih, List.reverse_cons, List.append_assoc, List.lookup_append, hput,
      ← List.lookup_append]
    rfl

/-! ### Hands from counts and from cards -/

namespace Hand

theorem coe_ofCounts (counts : Counts Card) : ((ofCounts counts).cards : Multiset Card) =
    (counts.map fun e => Multiset.replicate e.2 e.1).sum := by
  ext c
  rw [Multiset.coe_count, count_cards, count_ofCounts]
  induction counts with
  | nil => rfl
  | cons e counts ih =>
    rw [Counts.total_cons, ih, List.map_cons, List.sum_cons, Multiset.count_add,
      Multiset.count_replicate]
    simp only [eq_comm]

theorem coe_ofCards (cards : List Card) : ((ofCards cards).cards : Multiset Card) = cards := by
  rw [ofCards, coe_ofCounts, List.map_map]
  induction cards with
  | nil => rfl
  | cons c cards ih =>
    rw [List.map_cons, List.sum_cons, ih]
    rfl

end Hand

namespace Wire

/-! ### What is written -/

/-- The cards that an entry of a hand writes: of the card of its label, so many copies as it counts. -/
def copiesWritten (label : Text) (count : Json) : Multiset Card :=
  match readCard (.text label), count with
  | .ok card, .int n => Multiset.replicate n.toNat card
  | _, _ => 0

/-- The cards that a hand writes, or a list of cards. -/
def cardsWritten : Json → Multiset Card
  | .object entries => (entries.map fun (label, count) => copiesWritten label count).sum
  | .array items => (items.filterMap fun item => (readCard item).toOption : List Card)
  | _ => 0

/-- The cards that hands write for a player, if they name the player; the last hand of a player
counts. -/
def handWritten (hands : Json) (id : PlayerId) : Option (Multiset Card) :=
  ((fieldsOf hands).reverse.find? fun (key, _) => (readPlayerId (.text key)).toOption == some id).map
    fun (_, hand) => cardsWritten hand

/-! ### And read -/

theorem filterMap_toOption {ε α β : Type} {f : α → Except ε β} {xs : List α} {ys : List β}
    (h : List.Forall₂ (fun x y => f x = .ok y) xs ys) :
    xs.filterMap (fun x => (f x).toOption) = ys := by
  induction h with
  | nil => rfl
  | cons hy hrest ih =>
    rw [List.filterMap_cons, hy]
    exact congrArg (List.cons _) ih

theorem coe_of_readCards {value : Json} {what : String} {cards : List Card}
    (h : readCards value what = .ok cards) : (cards : Multiset Card) = cardsWritten value := by
  obtain ⟨items, hitems, hcards⟩ := bind_eq_ok_iff.mp h
  cases value with
  | array items' =>
    obtain rfl := Except.ok.inj hitems
    exact congrArg _ (filterMap_toOption (mapM_eq_ok_iff.mp hcards)).symm
  | _ => cases hitems

theorem copiesWritten_of_read {label : Text} {count : Json} {card : Card} {n : Nat}
    (h : readCardCount label count = .ok (card, n)) :
    copiesWritten label count = Multiset.replicate n card := by
  obtain ⟨k, hk, h⟩ := bind_eq_ok_iff.mp h
  split at h
  · cases h
  · obtain ⟨c, hc, h⟩ := bind_eq_ok_iff.mp h
    obtain ⟨rfl, rfl⟩ := Prod.mk.inj (Except.ok.inj h)
    cases count with
    | int k' =>
      obtain rfl := Except.ok.inj hk
      unfold copiesWritten
      rw [hc]
    | _ => cases hk

theorem copiesWritten_of_reads {entries : Fields} {counts : Counts Card}
    (h : List.Forall₂ (fun entry e => readCardCount entry.1 entry.2 = .ok e) entries counts) :
    (entries.map fun (label, count) => copiesWritten label count) =
      counts.map fun e => Multiset.replicate e.2 e.1 := by
  induction h with
  | nil => rfl
  | cons hentry hrest ih => exact congrArg₂ _ (copiesWritten_of_read hentry) ih

theorem coe_of_readHand {id : PlayerId} {value : Json} {hand : Hand}
    (h : readHand id value = .ok hand) : (hand.cards : Multiset Card) = cardsWritten value := by
  unfold readHand at h
  split at h
  · obtain ⟨counts, hcounts, h⟩ := bind_eq_ok_iff.mp h
    obtain rfl := Except.ok.inj h
    rw [Hand.coe_ofCounts, cardsWritten, copiesWritten_of_reads (mapM_eq_ok_iff.mp hcounts)]
  · obtain ⟨cards, hcards, h⟩ := bind_eq_ok_iff.mp h
    obtain rfl := Except.ok.inj h
    rw [Hand.coe_ofCards, coe_of_readCards hcards]

theorem lookup_of_reads {fields : Fields} {pairs : List (PlayerId × Hand)}
    (h : List.Forall₂ (fun field p => readPlayerId (.text field.1) = .ok p.1 ∧
      readHand p.1 field.2 = .ok p.2) fields pairs) (id : PlayerId) :
    (pairs.lookup id).map (fun hand => (hand.cards : Multiset Card)) =
      (fields.find? fun (key, _) => (readPlayerId (.text key)).toOption == some id).map
        fun (_, hand) => cardsWritten hand := by
  induction h with
  | nil => rfl
  | @cons field p rest pairs hfield hrest ih =>
    obtain ⟨hid, hhand⟩ := hfield
    have hkey : ((readPlayerId (.text field.1)).toOption == some id) = (id == p.1) := by
      rw [hid, Bool.eq_iff_iff, beq_iff_eq, beq_iff_eq]
      exact ⟨fun h => (Option.some.inj h).symm, fun h => congrArg some h.symm⟩
    rw [List.lookup_cons, List.find?_cons]
    simp only [hkey]
    cases id == p.1 with
    | true => exact congrArg some (coe_of_readHand hhand)
    | false => exact ih

/-- A player holds the cards that the hands write for the player. -/
theorem held_of_readHands {value : Json} {hands : Hands} (h : readHands value = .ok hands)
    (id : PlayerId) : hands.held id = handWritten value id := by
  obtain ⟨fields, hfields, h⟩ := bind_eq_ok_iff.mp h
  obtain ⟨pairs, hpairs, h⟩ := bind_eq_ok_iff.mp h
  obtain rfl := Except.ok.inj h
  cases value with
  | object fields' =>
    obtain rfl := Except.ok.inj hfields
    have hreads : List.Forall₂ (fun field p => readPlayerId (.text field.1) = .ok p.1 ∧
        readHand p.1 field.2 = .ok p.2) fields' pairs := by
      refine (mapM_eq_ok_iff.mp hpairs).imp fun field p hp => ?_
      obtain ⟨id, hid, hp⟩ := bind_eq_ok_iff.mp hp
      obtain ⟨hand, hhand, hp⟩ := bind_eq_ok_iff.mp hp
      obtain rfl := Except.ok.inj hp
      exact ⟨hid, hhand⟩
    rw [Hands.held, Hands.ofList, Entries.lookup_ofList]
    exact lookup_of_reads (List.forall₂_reverse_iff.mpr hreads) id
  | _ => cases hfields

end Wire

end TractorRules
