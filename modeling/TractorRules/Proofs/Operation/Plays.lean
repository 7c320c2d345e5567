import TractorRules.Proofs.Grouping.Cover
import TractorRules.Proofs.Operation.Reading
import TractorRules.Proofs.Trick.Follow
import TractorRules.Proofs.Wire.RoundTrip
import TractorRules.Proofs.Wire.Rewritten

/-!
# Answers about plays are read back

The engine reads what it writes (`written_is_read_back`): units, shapes and bids come back as they were,
and every grouping that answers a request for plays comes back as units of the cards that the request
writes.
-/

namespace TractorRules

open Wire

variable {request : Json} {inputs : Inputs}

theorem Wire.field_of_require {key : String} {value : Json} (h : require request key = .ok value) :
    field (fieldsOf request) key = value := by
  cases request with
  | object fields =>
    rw [require_object, requireField_eq_ok_iff] at h
    show field fields key = value
    rw [field, h]
    rfl
  | _ => cases h

theorem Operation.exists_plays_of_read (h : findViablePlays.read request = .ok inputs) :
    ∃ t req cards, inputs = .plays t req cards ∧
      readCards (field (fieldsOf request) "cards") "cards" = .ok cards := by
  obtain ⟨value, -, h⟩ := bind_eq_ok_iff.mp h
  obtain ⟨t, -, h⟩ := bind_eq_ok_iff.mp h
  obtain ⟨req, -, h⟩ := bind_eq_ok_iff.mp h
  obtain ⟨list, hlist, h⟩ := bind_eq_ok_iff.mp h
  obtain ⟨cards, hcards, h⟩ := bind_eq_ok_iff.mp h
  rw [← field_of_require hlist] at hcards
  exact ⟨t, req, cards, (Except.ok.inj h).symm, hcards⟩

theorem groupings_eq_nil_iff {t : Trump} {req : TractorRequirements} {cards : List Card} {n : Nat}
    (hn : 0 < n) : groupings t req cards (some n) = [] ↔ cards = [] := by
  constructor
  · intro hnil
    by_contra hne
    have hall : groupings t req cards none ≠ [] := groupings_ne_nil hne
    obtain ⟨g, gs, hg⟩ := List.exists_cons_of_ne_nil hall
    obtain ⟨m, rfl⟩ : ∃ m, n = m + 1 := ⟨n - 1, by omega⟩
    rw [groupings_eq_cut, hg] at hnil
    exact List.cons_ne_nil _ _ hnil
  · rintro rfl
    simp [groupings, Trump.groupBySuit, Trump.groupRuns, Trump.sort]

/-- Units, shapes and bids are read back as they were written, and a unit that was read is read again
after it is written.  So the groupings in the answer to a request for plays are read back as units,
and these have just the cards that the request writes. -/
theorem written_is_read_back [RowOrder] :
    (∀ u, readUnit (writeUnit u) = .ok u) ∧
    (∀ s, readShape (writeShape s) = .ok s ∧ readShape (writeTuples s) = .ok s) ∧
    (∀ b, readBid (writeBid b) = .ok b) ∧
    (∀ value u, readUnit value = .ok u → readUnit (writeUnit u) = readUnit value) ∧
    ∀ request inputs, Operation.findViablePlays.read request = .ok inputs →
      ∃ rows, (dispatch (Text.ofString "find_viable_plays") request).result =
          .ok (writeResults rows) ∧
        (rows = [] ↔ cardsWritten (field (fieldsOf request) "cards") = 0) ∧
        ∀ row ∈ rows, ∃ units, (itemsAt "grouping" row).mapM readUnit = .ok units ∧
          (Grouping.cards units : Multiset Card) =
            cardsWritten (field (fieldsOf request) "cards") := by
  refine ⟨readUnit_writeUnit, fun s => ⟨readShape_writeShape s, readShape_writeTuples s⟩,
    readBid_writeBid, fun value u hu => hu ▸ readUnit_writeUnit u, fun request inputs h => ?_⟩
  obtain ⟨t, req, cards, rfl, hcards⟩ := Operation.exists_plays_of_read h
  rw [← coe_of_readCards hcards]
  refine ⟨_, dispatch_of_read h, ?_, fun row hrow => ?_⟩
  · rw [List.map_eq_nil_iff, groupings_eq_nil_iff (by decide), Multiset.coe_eq_zero]
  · obtain ⟨g, hg, rfl⟩ := List.mem_map.mp hrow
    refine ⟨g, mapM_map_eq_ok readUnit_writeUnit g, ?_⟩
    exact Multiset.coe_eq_coe.mpr (perm_of_mem_groupings hg)

/-- Two pairs in a row, whose cards are written in four ways. -/
def twoPairsRequest : Json := .record [("trump", .null), ("cards", .array [.ofString "3S",
  .ofString " 4s", .ofString "3s", .record [("suit", .ofString "spades"), ("number", .int 4)]])]

section

open scoped RowOrder

theorem twoPairs_read_back :
    (∃ inputs, Operation.findViablePlays.read twoPairsRequest = .ok inputs) ∧
      ∃ rows, (dispatch (Text.ofString "find_viable_plays") twoPairsRequest).result =
          .ok (writeResults rows) ∧
        rows ≠ [] ∧ ∀ row ∈ rows, ∃ units, (itemsAt "grouping" row).mapM readUnit = .ok units ∧
          (Grouping.cards units : Multiset Card) = {spade 3, spade 4, spade 3, spade 4} := by
  have hread : ∃ inputs, Operation.findViablePlays.read twoPairsRequest = .ok inputs := ⟨_, rfl⟩
  have hcards : cardsWritten (field (fieldsOf twoPairsRequest) "cards") =
      {spade 3, spade 4, spade 3, spade 4} := rfl
  obtain ⟨inputs, h⟩ := hread
  obtain ⟨-, -, -, -, hplays⟩ := written_is_read_back
  obtain ⟨rows, hrows, hnil, hunits⟩ := hplays twoPairsRequest inputs h
  rw [hcards] at hnil hunits
  refine ⟨⟨inputs, h⟩, rows, hrows, fun hempty => ?_, hunits⟩
  exact Multiset.cons_ne_zero (hnil.mp hempty)

end

end TractorRules
