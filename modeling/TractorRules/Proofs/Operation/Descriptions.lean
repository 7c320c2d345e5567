import TractorRules.Proofs.Format.Rows
import TractorRules.Proofs.Operation.Reading
import TractorRules.Proofs.TrickUnit.Description
import TractorRules.Proofs.Wire.RoundTrip

/-!
# Answers with descriptions

Descriptions are faithful (`descriptions_are_faithful`): they are equal just when the shapes are the
same, counted in the same order, and so no two rows that answer a request for the shapes of a format
are described alike.
-/

namespace TractorRules

open Wire

variable {request response : Json} {inputs : Inputs}

theorem Text.ofString_injective : Function.Injective Text.ofString := by
  intro s s' h
  have hcodes : s.toList.map Char.toNat = s'.toList.map Char.toNat := Text.mk.inj h
  exact String.toList_inj.mp (List.map_injective_iff.mpr (fun _ _ => Char.toNat_inj.mp) hcodes)

/-- A request that is answered was read, except that a request for bids can be refused by an answer. -/
theorem exists_read_of_dispatch [RowOrder] (op : Operation) (hop : op ≠ .findValidBids)
    (h : (dispatch (Text.ofString op.name) request).result = .ok response) :
    ∃ inputs, op.read request = .ok inputs ∧ inputs.response = .ok response := by
  cases hread : op.read request with
  | ok inputs => exact ⟨inputs, rfl, (dispatch_of_read hread).symm.trans h⟩
  | error fault =>
    rw [dispatch, Operation.ofName?_name] at h
    change (op.answer request).result = .ok response at h
    rcases op.answer_cases request with hr | ⟨-, -, hr⟩
    · rw [hr, Reply.noting_result, Operation.run_eq_bind hop, hread] at h
      cases h
    · rw [hr] at h
      cases h

theorem Operation.exists_rows_of_read (h : decomposeTrickFormat.read request = .ok inputs) :
    ∃ f hands id policy, inputs = .rows f hands id policy := by
  obtain ⟨_, -, h⟩ := bind_eq_ok_iff.mp h
  obtain ⟨f, -, h⟩ := bind_eq_ok_iff.mp h
  obtain ⟨_, -, h⟩ := bind_eq_ok_iff.mp h
  obtain ⟨hands, -, h⟩ := bind_eq_ok_iff.mp h
  obtain ⟨_, -, h⟩ := bind_eq_ok_iff.mp h
  obtain ⟨id, -, h⟩ := bind_eq_ok_iff.mp h
  obtain ⟨policy, -, h⟩ := bind_eq_ok_iff.mp h
  exact ⟨f, hands, id, policy, (Except.ok.inj h).symm⟩

theorem Inputs.rows_of_response [RowOrder] {f : TrickFormat} {hands : Hands} {id : PlayerId}
    {policy : DrawPolicy} (h : (Inputs.rows f hands id policy).response = .ok response) :
    ∃ held, itemsAt "results" response =
      (f.decomposition policy).map (Answer.writeRow f held policy) := by
  rw [Inputs.response] at h
  cases hhand : ofRules (hands.cardsOf id) with
  | error fault =>
    rw [hhand] at h
    cases h
  | ok hand =>
    rw [hhand] at h
    obtain rfl := Except.ok.inj h
    exact ⟨_, itemsAt_writeResults _⟩

/-- The descriptions that an answer lists, row by row. -/
def Answer.descriptions (response : Json) : List Json :=
  (itemsAt "results" response).map fun row => field (fieldsOf row) "description"

theorem Shape.perm_of_describe_eq {s s' : Shape} (h : s.describe = s'.describe) : s.Perm s' :=
  List.perm_iff_count.mpr ((describe_eq_iff s s').mp h).2

theorem TrickFormat.nodup_describe_decomposition [RowOrder] (f : TrickFormat)
    (policy : DrawPolicy) :
    ((f.decomposition policy).map Shape.describe).Nodup := by
  by_cases hp : policy = .noFormatBasedDraw
  · subst hp
    rw [f.decomposition_noFormat]
    exact List.nodup_singleton _
  · refine List.pairwise_map.mpr ((f.pairwise_not_perm_decomposition hp).imp ?_)
    exact fun hperm heq => hperm (Shape.perm_of_describe_eq heq)

/-- Lists of shapes, and of units by their shapes, are described alike just when they have the same
shapes in the order of their first places, each the same number of times.  So the rows that answer a
request for the shapes of a format, which are described by their shapes, are all described in
different words. -/
theorem descriptions_are_faithful [RowOrder] :
    (∀ s s' : Shape, s.describe = s'.describe ↔
      s.eraseDups = s'.eraseDups ∧ ∀ u, s.count u = s'.count u) ∧
    (∀ g g' : Grouping, g.describe = g'.describe ↔
      (g.map TrickUnit.shape).eraseDups = (g'.map TrickUnit.shape).eraseDups ∧
        ∀ u, (g.map TrickUnit.shape).count u = (g'.map TrickUnit.shape).count u) ∧
    ∀ request response,
      (dispatch (Text.ofString "decompose_trick_format") request).result = .ok response →
      ∃ rows : List Shape, rows ≠ [] ∧
        (itemsAt "results" response).map (fun row => field (fieldsOf row) "format") =
          rows.map (fun s => .array (s.map writeShape)) ∧
        Answer.descriptions response = rows.map (fun s => .ofString s.describe) ∧
        (Answer.descriptions response).Nodup := by
  refine ⟨Shape.describe_eq_iff, fun g g' => Shape.describe_eq_iff _ _, fun request response h => ?_⟩
  obtain ⟨inputs, hread, hresponse⟩ := exists_read_of_dispatch .decomposeTrickFormat nofun h
  obtain ⟨f, hands, id, policy, rfl⟩ := Operation.exists_rows_of_read hread
  obtain ⟨held, hrows⟩ := Inputs.rows_of_response hresponse
  have hdescriptions : Answer.descriptions response =
      (f.decomposition policy).map fun s => .ofString s.describe := by
    rw [Answer.descriptions, hrows, List.map_map]
    rfl
  refine ⟨f.decomposition policy, ?_, ?_, hdescriptions, ?_⟩
  · exact List.ne_nil_of_mem (f.singles_mem_decomposition policy)
  · rw [hrows, List.map_map]
    rfl
  · rw [hdescriptions]
    refine List.pairwise_map.mpr ((List.pairwise_map.mp (f.nodup_describe_decomposition policy)).imp ?_)
    exact fun hne heq => hne (Text.ofString_injective (Json.text.inj heq))

/-- A tractor of two pairs is led, and the player has such a tractor. -/
def twoPairsLed : Json := .record [
  ("trick_format", .record [("suit", .ofString "SPADES"),
    ("trump", .record [("suit", .ofString "HEARTS"), ("number", .int 2)]),
    ("units", .array [.array [.int 2, .int 2]])]),
  ("hands", .record [("1", .array (["6S", "6S", "7S", "7S", "KD"].map .ofString))]),
  ("player_id", .int 1)]

section

open scoped RowOrder

theorem twoPairsLed_described : ∃ response,
    (dispatch (Text.ofString "decompose_trick_format") twoPairsLed).result = .ok response ∧
      Answer.descriptions response ≠ [] ∧ (Answer.descriptions response).Nodup := by
  have hread : ∃ inputs response, Operation.decomposeTrickFormat.read twoPairsLed = .ok inputs ∧
      inputs.response = .ok response := ⟨_, _, rfl, rfl⟩
  obtain ⟨inputs, response, hread, hresponse⟩ := hread
  have hanswer := (dispatch_of_read hread).trans hresponse
  obtain ⟨-, -, hrows⟩ := descriptions_are_faithful
  obtain ⟨rows, hne, -, hdescriptions, hnodup⟩ := hrows twoPairsLed response hanswer
  refine ⟨response, hanswer, ?_, hnodup⟩
  rw [hdescriptions]
  exact mt List.map_eq_nil_iff.mp hne

end

end TractorRules
