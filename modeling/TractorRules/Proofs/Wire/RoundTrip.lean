import TractorRules.Deck
import TractorRules.Operation.Basic
import TractorRules.Wire.Table
import TractorRules.Proofs.TrickUnit.Cards
import TractorRules.Proofs.Wire.Written

/-!
# Written values are read back

Readers take back what the writers wrote: cards by their notation, units, shapes alone or in an object,
and bids.  A bid is read with any numbers, as its count and epoch are not checked.
-/

namespace TractorRules

/-! ### Cards -/

theorem Rank.ofInt?_number (r : Rank) : ofInt? r.number = some r := by
  have hlo := r.two_le
  have hhi := r.le_ace
  rw [ofInt?, dif_pos ⟨by omega, by omega⟩]
  rfl

theorem Card.mem_wholeDeck (c : Card) : c ∈ ({} : Deck).cards := by
  simp only [Deck.cards, List.mem_append, List.mem_flatMap, List.mem_map]
  cases c with
  | joker j => cases j <;> simp
  | suited s r =>
    have hlo := r.two_le
    have hhi := r.le_ace
    have hs : s ∈ Suit.all := by cases s <;> decide
    have hr : r ∈ ({} : Deck).ranks :=
      List.mem_filterMap.mpr ⟨r.number, List.mem_range'_1.mpr ⟨hlo, by omega⟩, r.ofInt?_number⟩
    exact Or.inl (Or.inl ⟨s, hs, r, hr, rfl⟩)

theorem Card.read_short (c : Card) : read (.ofString c.short) = .ok c := by
  have hall : ∀ c ∈ ({} : Deck).cards, (read (.ofString c.short)).toOption = some c := by
    decide +kernel
  have hc := hall c c.mem_wholeDeck
  cases hread : read (.ofString c.short) with
  | ok d =>
    rw [hread] at hc
    exact congrArg _ (Option.some.inj hc)
  | error fault =>
    rw [hread] at hc
    cases hc

/-! ### Units -/

theorem Repeated.ofInt_count (r : Repeated) : ofInt r.card r.count = .ok r := by
  have hpos := r.count_pos
  rw [ofInt, dif_neg (by omega)]
  rfl

theorem Tractor.ofInt_count (t : Tractor) : ofInt t.count t.members = .ok t := by
  have hpos := t.count_pos
  have htwo := t.two_le_length
  rw [ofInt, dif_neg (by omega), dif_neg (by omega)]
  rfl

namespace Wire

theorem mapM_map_eq_ok {ε α β : Type} {write : α → β} {read : β → Except ε α}
    (h : ∀ a, read (write a) = .ok a) (as : List α) : (as.map write).mapM read = .ok as := by
  rw [mapM_eq_ok_iff, List.forall₂_map_left_iff]
  exact List.forall₂_same.mpr fun a _ => h a

theorem readCard_writeCard (c : Card) : readCard (writeCard c) = .ok c := by
  have hread : Card.read (.text (Text.ofString c.short)) = .ok c := c.read_short
  simp only [writeCard, Json.ofString, readCard, hread]
  rfl

theorem readCards_writeCards (cards : List Card) (what : String) :
    readCards (writeCards cards) what = .ok cards := mapM_map_eq_ok readCard_writeCard cards

/-! ### Units and shapes -/

section

variable {fields : Fields}

theorem lower_kind (kind : String) (h : kind ∈ ["repeated", "tractor"]) :
    (Json.ofString kind).plainText.lower = Text.ofString kind := by
  revert kind
  decide

theorem readUnit_repeated {r : Repeated}
    (hkind : requireField fields "type" "unit" = .ok (.ofString "repeated"))
    (hcount : intField fields "count" = .ok r.count)
    (hcard : requireField fields "card" "unit" = .ok (writeCard r.card)) :
    readUnit (.object fields) = .ok (.repeated r) := by
  have hlower := lower_kind "repeated" (by decide)
  simp only [readUnit, asObject, hkind, hcount, hcard, hlower, readCard_writeCard, r.ofInt_count,
    bind, Except.bind, if_true]
  rfl

theorem readUnit_tractor {t : Tractor}
    (hkind : requireField fields "type" "unit" = .ok (.ofString "tractor"))
    (hcount : intField fields "count" = .ok t.count)
    (hmembers : requireField fields "members" "unit" = .ok (writeCards t.members)) :
    readUnit (.object fields) = .ok (.tractor t) := by
  have hlower := lower_kind "tractor" (by decide)
  have hne : Text.ofString "tractor" ≠ Text.ofString "repeated" := by decide
  simp only [readUnit, asObject, hkind, hcount, hmembers, hlower, readCards_writeCards,
    t.ofInt_count, bind, Except.bind, if_true, if_neg hne]
  rfl

theorem readUnit_writeUnit (u : TrickUnit) : readUnit (writeUnit u) = .ok u := by
  cases u with
  | repeated r => exact readUnit_repeated rfl rfl rfl
  | tractor t => exact readUnit_tractor rfl rfl rfl

end

theorem readShape_writeTuples (s : UnitShape) : readShape (writeTuples s) = .ok s := by
  have htuples : (s.tuples.map Json.ofNat).mapM (fun n => asInt n "adjacent_tuples") =
      .ok (s.tuples.map Int.ofNat) := by
    rw [mapM_eq_ok_iff, List.forall₂_map_left_iff, List.forall₂_map_right_iff]
    exact List.forall₂_same.mpr fun n _ => rfl
  have hread : readShape (writeTuples s) =
      ((s.tuples.map Json.ofNat).mapM (fun n => asInt n "adjacent_tuples") >>= fun tuples =>
        (ofValue (UnitShape.ofTuples tuples)).naming .shape) := rfl
  rw [hread, htuples]
  show (ofValue (UnitShape.ofTuples (s.tuples.map Int.ofNat))).naming _ = _
  rw [s.ofTuples_tuples]
  rfl

theorem readShape_writeShape (s : UnitShape) : readShape (writeShape s) = .ok s :=
  readShape_writeTuples s

/-! ### Bids -/

theorem readBid_writeBid (b : Bid) : readBid (writeBid b) = .ok b := by
  have hid : requireField (fieldsOf (writeBid b)) "id" "bid" = .ok (.int b.id) := rfl
  have hcard : requireField (fieldsOf (writeBid b)) "card" "bid" = .ok (writeCard b.card) := rfl
  have hcount : intField (fieldsOf (writeBid b)) "count" = .ok b.count := rfl
  have hepoch : intFieldOr (fieldsOf (writeBid b)) "epoch" 0 = .ok b.epoch := rfl
  have hfields : asObject (writeBid b) "bid" = .ok (fieldsOf (writeBid b)) := rfl
  simp only [readBid, hfields, hid, hcard, hcount, hepoch, readCard_writeCard, bind, Except.bind]
  rfl

/-! ### Answers -/

/-- The items of the list in a field, none if there is no list. -/
def itemsAt (key : String) (value : Json) : List Json :=
  match field (fieldsOf value) key with
  | .array items => items
  | _ => []

theorem itemsAt_writeResults (rows : List Json) : itemsAt "results" (writeResults rows) = rows := rfl

end Wire

end TractorRules
