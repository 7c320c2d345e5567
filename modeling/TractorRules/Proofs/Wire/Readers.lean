import TractorRules.Proofs.Wire.Field
import TractorRules.Proofs.Hands
import TractorRules.Wire.Scores
import Mathlib.Algebra.Order.Ring.Nat
import Mathlib.Algebra.Order.Group.Nat

/-!
# What the readers give and fail with

One lemma for each reader, in the order in which they are built on each other.  Readers of cards,
trump and shapes name every fault.  Numbers of players and of decks may also come as a text, and there
the fault of stray digits gets through, unless the reader of a player around it names it.  The integers
that are read stay within the room of the request.
-/

namespace TractorRules

open Wire

/-! ### Cards and units -/

section Values

variable {depth : Nat} {value : Json}

theorem Suit.read_failsBy (h : value.Legible depth) :
    FailsBy (ValueFault.Described depth) (Suit.read value) := by
  unfold Suit.read
  dsimp only
  split
  · trivial
  · exact ValueFault.described (List.forall_mem_singleton.2 h) nofun

theorem Joker.read_failsBy (value : Json) :
    FailsBy (ValueFault.Described depth) (Joker.read value) := by
  unfold Joker.read
  dsimp only
  split
  · trivial
  · exact ValueFault.described (List.forall_mem_nil _) nofun

theorem Rank.read_failsBy (h : value.Legible depth) :
    FailsBy (ValueFault.Described depth) (Rank.read value) := by
  have number : FailsBy (ValueFault.Described depth) (Rank.readNumber value) := by
    unfold Rank.readNumber
    dsimp only
    split
    · exact ValueFault.described (List.forall_mem_singleton.2 h) nofun
    · trivial
    · split
      · trivial
      · split
        · exact Text.readInteger_failsBy depth _
        · exact ValueFault.described (List.forall_mem_singleton.2 h) nofun
  refine number.bind fun n _ => ?_
  split
  · trivial
  · exact ValueFault.described (List.forall_mem_singleton.2 h) nofun

theorem Card.read_failsBy (h : value.Legible depth) :
    FailsBy (ValueFault.Described depth) (Card.read value) := by
  unfold Card.read
  dsimp only
  split
  · trivial
  · split
    · split
      · exact (Rank.read_failsBy (.text _)).bind fun r _ => FailsBy.ok _
      · exact ValueFault.described (List.forall_mem_singleton.2 h) nofun
    · exact ValueFault.described (List.forall_mem_singleton.2 h) nofun

theorem TractorRequirements.ofInts_failsBy {minCount minLength : Int}
    (hc : Text.isWritable minCount) (hl : Text.isWritable minLength) :
    FailsBy (ValueFault.Described depth) (TractorRequirements.ofInts minCount minLength) := by
  unfold TractorRequirements.ofInts
  split_ifs
  · exact ValueFault.described (List.forall_mem_singleton.2 (.int hc)) nofun
  · exact ValueFault.described (List.forall_mem_singleton.2 (.int hl)) nofun
  · trivial

theorem UnitShape.ofTuples_ensures {tuples : List Int} {most : Nat}
    (hw : ∀ n ∈ tuples, Text.isWritable n) (hm : ∀ n ∈ tuples, n.natAbs ≤ most) :
    Ensures (ValueFault.Described depth) (fun u => u.size ≤ most * tuples.length)
      (UnitShape.ofTuples tuples) := by
  have legible : ∀ v ∈ tuples.map Json.int, v.Legible depth := by
    intro v hv
    obtain ⟨n, hn, rfl⟩ := List.mem_map.1 hv
    exact .int (hw n hn)
  unfold UnitShape.ofTuples
  split
  · exact ValueFault.described legible nofun
  · split_ifs
    · exact ValueFault.described legible nofun
    · rename_i n rest _ _
      have hn := hm n List.mem_cons_self
      have hcopies : n.toNat ≤ most := by omega
      exact Nat.mul_le_mul_right _ hcopies
    · exact ValueFault.described legible nofun

theorem ScoringParameters.ofInts_ensures (stepPerDeck turnoverSteps deadzone : Int)
    (adjustments : Entries Int Int) (bonus : BonusLevelPolicy) :
    Ensures (ValueFault.Described depth)
      (fun p => p.stepPerDeck = stepPerDeck ∧ p.turnoverSteps = turnoverSteps ∧
        p.adjustments = adjustments)
      (ScoringParameters.ofInts stepPerDeck turnoverSteps deadzone adjustments bonus) := by
  unfold ScoringParameters.ofInts
  split_ifs
  · exact ValueFault.described (List.forall_mem_nil _) nofun
  · exact ValueFault.described (List.forall_mem_nil _) nofun
  · exact ⟨rfl, rfl, rfl⟩

end Values

namespace Wire

variable {s : Json.Scope} {q : ValueFault → Prop} {value : Json} {fields : Fields}

/-- The description of a fault that is named together with the value. -/
theorem named_legible {v : ValueFault} (h : value.Within s) (hv : v.Described s.depth) :
    ∀ w ∈ value :: v.shown, w.Legible s.depth :=
  List.forall_mem_cons.2 ⟨h.legible, hv.2⟩

theorem cardField_ensures (h : Json.FieldsWithin s fields) {key : String} (hk : Printable key) :
    Ensures (ValueFault.Described s.depth) (·.Within s) (cardField fields key) := by
  unfold cardField
  split
  · rename_i hv
    exact lookup_within h hv
  · exact ValueFault.described (List.forall_mem_nil _) fun _ he => ValueFault.cardField.inj he ▸ hk

theorem readCardFields_failsBy (h : Json.FieldsWithin s fields) :
    FailsBy (ValueFault.Described s.depth) (readCardFields fields) := by
  unfold readCardFields
  split
  · exact (Joker.read_failsBy _).bind fun j _ => FailsBy.ok _
  · refine (cardField_ensures h (by decide)).bind fun suit hs => ?_
    refine (Suit.read_failsBy hs.legible).bind fun s _ => ?_
    refine (cardField_ensures h (by decide)).bind fun number hn => ?_
    exact (Rank.read_failsBy hn.legible).bind fun r _ => FailsBy.ok _

theorem readCard_failsBy (h : value.Within s) : FailsBy (Fault.Proper s q) (readCard value) := by
  have named (v : ValueFault) (hv : v.Described s.depth) :
      (RequestFault.card value (some v)).Described s.depth :=
    ⟨fun c hc => Option.some.inj hc ▸ hv.1, named_legible h hv⟩
  unfold readCard
  split
  · exact naming_ensures (ofValue_ensures (Card.read_failsBy h.legible)) named
  · exact naming_ensures (ofValue_ensures (readCardFields_failsBy h.fields)) named
  · exact refuse_ensures ⟨nofun, List.forall_mem_singleton.2 h.legible⟩

/-- There are no more cards than values in the request. -/
theorem readCards_ensures (h : value.Within s) {what : String} (hw : Printable what) :
    Ensures (Fault.Proper s q) (fun cards => cards.length ≤ s.request.size)
      (readCards value what) := by
  refine (asList_ensures h hw).bind ?_
  rintro items rfl
  refine (Ensures.mapM_all fun item hm => readCard_failsBy (h.item hm)).imp_value ?_
  rintro cards ⟨hlen, -⟩
  rw [hlen]
  exact (Json.length_lt_size items).le.trans h.size

theorem readTrump_failsBy (h : value.Within s) : FailsBy (Fault.Proper s q) (readTrump value) := by
  unfold readTrump
  split
  · trivial
  · refine (asObject_ensures h (by decide)).bind ?_
    rintro fields rfl
    refine naming_ensures ?_ fun v hv => ⟨hv.1, named_legible h hv⟩
    have suit := field_within h.fields "suit"
    have number := field_within h.fields "number"
    refine (optional_ensures (ofValue_ensures (Suit.read_failsBy suit.legible))).bind fun suit _ => ?_
    exact (optional_ensures (ofValue_ensures (Rank.read_failsBy number.legible))).bind fun rank _ =>
      FailsBy.ok _

theorem readRequirements_failsBy (h : value.Within s) :
    FailsBy (Fault.Proper s q) (readRequirements value) := by
  unfold readRequirements
  split
  · trivial
  · refine (asObject_ensures h (by decide)).bind ?_
    rintro fields rfl
    refine (intFieldOr_ensures h.fields (by decide) (by decide)).bind fun minCount hc => ?_
    refine (intFieldOr_ensures h.fields (by decide) (by decide)).bind fun minLength hl => ?_
    exact naming_ensures (ofValue_ensures (TractorRequirements.ofInts_failsBy
      (s.isWritable_of_le_peak hc) (s.isWritable_of_le_peak hl))) fun v hv => hv

/-! ### Names -/

/-- The names of a type and of its members have no line ends. -/
def Named.Worded (α : Type) [Named α] : Prop :=
  Printable (Named.typeName α) ∧ ∀ m ∈ Named.members (α := α), Printable m.1

instance (α : Type) [Named α] : Decidable (Named.Worded α) :=
  inferInstanceAs (Decidable (_ ∧ _))

theorem readMember_failsBy {α : Type} [Named α] (hw : Named.Worded α) (h : value.Within s) :
    FailsBy (Fault.Proper s q) (readMember (α := α) value) := by
  unfold readMember
  dsimp only
  split
  · trivial
  · refine refuse_ensures ⟨⟨hw.1, fun name hn => ?_⟩, List.forall_mem_singleton.2 h.legible⟩
    obtain ⟨m, hm, rfl⟩ := List.mem_map.1 hn
    exact hw.2 m hm

theorem readMemberOr_failsBy {α : Type} [Named α] (hw : Named.Worded α) (h : value.Within s)
    (default : α) : FailsBy (Fault.Proper s q) (readMemberOr value default) := by
  unfold readMemberOr
  split
  · trivial
  · exact readMember_failsBy hw h

/-! ### Shapes -/

theorem size_field_le (fields : Fields) (key : String) :
    (field fields key).size ≤ (Json.object fields).size := by
  unfold field
  cases hv : Json.lookup key fields with
  | none => exact (Json.object fields).size_pos
  | some value => exact (Json.size_lt_of_lookup hv).le

/-- A shape has no more cards than its list has room for. -/
theorem readShape_ensures (h : value.Within s) :
    Ensures (Fault.Proper s q) (fun u => u.size ≤ s.peak * value.size) (readShape value) := by
  have list : ∀ raw : Json, raw.Within s → raw.size ≤ value.size →
      Ensures (Fault.Proper s q) (fun u => u.size ≤ s.peak * value.size) (do
        let tuples ← (← asList raw "shape").mapM fun n => asInt n "adjacent_tuples"
        (ofValue (UnitShape.ofTuples tuples)).naming .shape) := by
    intro raw hr hsize
    refine (asList_ensures hr (by decide)).bind ?_
    rintro items rfl
    refine (Ensures.mapM_all fun item hm => asInt_ensures (hr.item hm) (by decide)).bind ?_
    rintro tuples ⟨hlen, most⟩
    have writable : ∀ n ∈ tuples, Text.isWritable n := fun n hn => s.isWritable_of_le_peak (most n hn)
    refine naming_ensures (ofValue_ensures ?_) fun v hv => hv
    refine (UnitShape.ofTuples_ensures writable most).imp_value fun u hu => ?_
    rw [hlen] at hu
    exact hu.trans (Nat.mul_le_mul_left _ ((Json.length_lt_size items).le.trans hsize))
  unfold readShape
  cases value with
  | object fields =>
    exact list _ (field_within h.fields _) (size_field_le fields _)
  | _ => exact list _ h (Nat.le_refl _)

theorem size_le_of_forall₂ {items : List Json} {units : Shape} {most : Nat}
    (h : List.Forall₂ (fun item u => u.size ≤ most * item.size) items units) :
    Shape.size units ≤ most * (items.map Json.size).sum := by
  induction h with
  | nil => exact Nat.zero_le _
  | cons hu _ ih =>
    rw [List.map_cons, List.sum_cons, Nat.mul_add]
    exact Nat.add_le_add hu ih

theorem readFormat_ensures (h : value.Within s) :
    Ensures (Fault.Proper s q) (fun f => f.size ≤ s.room) (readFormat value) := by
  refine (asObject_ensures h (by decide)).bind ?_
  rintro fields rfl
  refine (requireField_ensures h.fields (by decide) (by decide)).bind fun name hn => ?_
  refine (readMember_failsBy (by decide) hn).bind fun suit _ => ?_
  refine (readTrump_failsBy (field_within h.fields _)).bind fun trump _ => ?_
  refine (requireField_ensures h.fields (by decide) (by decide)).bind fun list hl => ?_
  refine (asList_ensures hl (by decide)).bind ?_
  rintro items rfl
  refine (Ensures.mapM fun item hm => readShape_ensures (hl.item hm)).bind fun units hu => ?_
  have total := size_le_of_forall₂ hu
  have size := hl.size
  rw [Json.size_array] at size
  exact total.trans (s.mul_le_room (by omega))

/-! ### Numbers of players -/

theorem readIntegerKey_ensures (h : value.Within s) {what : String} (hw : Printable what) :
    Ensures (Fault.Proper s (ValueFault.Stray s)) (fun n => Text.isWritable n)
      (readIntegerKey value what) := by
  have number := (asInt_ensures (q := ValueFault.Stray s) h hw).imp_value fun _ =>
    s.isWritable_of_le_peak
  unfold readIntegerKey
  split
  · rename_i t
    split
    · rename_i digits
      apply ofValue_ensures
      cases hread : t.readInteger with
      | ok n => exact Text.isWritable_of_readInteger hread
      | error fault =>
        -- Of all texts in the request, the fault is that of the one that is read here.
        have unread : t.toInteger?.isNone := Text.toInteger?_isNone_of_readInteger hread
        have stray : t.isStrayDigits := by rw [Text.isStrayDigits, digits, unread]; rfl
        exact ⟨t, h.texts List.mem_cons_self, stray, hread⟩
    · exact number
  · exact number

theorem readPlayerId_ensures (h : value.Within s) :
    Ensures (Fault.Proper s (ValueFault.Stray s)) (fun id => Text.isWritable id)
      (readPlayerId value) :=
  readIntegerKey_ensures h (by decide)

/-! ### Hands and players -/

theorem readCardCount_ensures {label : Text} {count : Json} (hl : (Json.text label).Within s)
    (hc : count.Within s) :
    Ensures (Fault.Proper s q) (fun e => e.2 ≤ s.peak) (readCardCount label count) := by
  have what : Printable ("count of " ++ label.quoted) :=
    .append (by decide) (printable_quoted label)
  refine (asInt_ensures hc what).bind fun n hn => ?_
  split
  · exact refuse_ensures ⟨trivial, List.forall_mem_nil _⟩
  · refine (readCard_failsBy hl).bind fun c _ => ?_
    change n.toNat ≤ s.peak
    omega

theorem total_le {counts : Counts Card} {most : Nat} (h : ∀ e ∈ counts, e.2 ≤ most) (c : Card) :
    counts.total c ≤ most * counts.length := by
  induction counts with
  | nil => exact Nat.zero_le _
  | cons e rest ih =>
    obtain ⟨he, hrest⟩ := List.forall_mem_cons.1 h
    have hle := ih hrest
    rw [Counts.total_cons, List.length_cons, Nat.mul_succ]
    split
    · omega
    · omega

/-- Of no card more copies are held than the request has room for. -/
theorem readHand_ensures (id : PlayerId) (h : value.Within s) :
    Ensures (Fault.Proper s q) (fun hand => ∀ c, hand.count c ≤ s.room) (readHand id value) := by
  have most {counts : Counts Card} (hm : ∀ e ∈ counts, e.2 ≤ s.peak)
      (hlen : counts.length ≤ s.request.size) (c : Card) :
      (Hand.ofCounts counts).count c ≤ s.room := by
    rw [Hand.count_ofCounts]
    exact (total_le hm c).trans (s.mul_le_room hlen)
  unfold readHand
  split
  · rename_i fields
    refine (Ensures.mapM_all fun e he =>
      readCardCount_ensures (h.fields e he).1 (h.fields e he).2).bind ?_
    rintro counts ⟨hlen, hcounts⟩
    refine most hcounts ?_
    rw [hlen]
    exact (Json.length_lt_size_object fields).le.trans h.size
  · have what : Printable ("hand of player " ++ toString id) :=
      .append (by decide) (printable_int id)
    refine (readCards_ensures h what).bind fun cards hlen => ?_
    refine most (fun e he => ?_) ((List.length_map _).trans_le hlen)
    obtain ⟨c, -, rfl⟩ := List.mem_map.1 he
    have hundred := s.hundred_le_peak
    change 1 ≤ s.peak
    omega

theorem readHands_ensures (h : value.Within s) :
    Ensures (Fault.Proper s (ValueFault.Stray s))
      (fun hands => ∀ id hand, hands.get id = .ok hand → ∀ c, hand.count c ≤ s.room)
      (readHands value) := by
  refine (asObject_ensures h (by decide)).bind ?_
  rintro fields rfl
  refine (Ensures.mapM_all (R := fun e => ∀ c, e.2.count c ≤ s.room) ?_).bind ?_
  · rintro ⟨key, hand⟩ he
    obtain ⟨hkey, hhand⟩ := h.fields _ he
    refine (readPlayerId_ensures hkey).bind fun id _ => ?_
    exact (readHand_ensures id hhand).bind fun _ hc => hc
  · rintro entries ⟨-, hentries⟩ id hand hget
    have hlookup := Hands.get_ok_iff.1 hget
    exact hentries _ (Entries.mem_of_lookup_ofList hlookup)

theorem readPlayer_failsBy (h : value.Within s) :
    FailsBy (Fault.Proper s q) (readPlayer value) := by
  refine (asObject_ensures h (by decide)).bind ?_
  rintro fields rfl
  refine naming_ensures ?_ fun v hv => ⟨hv.1, named_legible h hv⟩
  refine (requireField_ensures h.fields (by decide) (by decide)).bind fun number hn => ?_
  -- Here stray digits are one more fault of the player, so all that counts is their description.
  refine ((readPlayerId_ensures hn).imp ?_).bind fun id _ => ?_
  · intro fault hf
    cases fault with
    | rules fault => exact hf
    | value v => exact ValueFault.Stray.described hf
  · have level := field_within h.fields "level"
    exact (optional_ensures (ofValue_ensures (Rank.read_failsBy level.legible))).bind fun level _ =>
      FailsBy.ok _

theorem readPlayers_failsBy (h : value.Within s) :
    FailsBy (Fault.Proper s q) (readPlayers value) := by
  refine (asList_ensures h (by decide)).bind ?_
  rintro items rfl
  exact FailsBy.mapM fun item hm => readPlayer_failsBy (h.item hm)

/-! ### Tricks and bids -/

theorem readPlayedCards_ensures (h : value.Within s) :
    Ensures (Fault.Proper s (ValueFault.Stray s)) (fun p => p.cards.length ≤ s.request.size)
      (readPlayedCards value) := by
  refine (asObject_ensures h (by decide)).bind ?_
  rintro fields rfl
  refine (requireField_ensures h.fields (by decide) (by decide)).bind fun number hn => ?_
  refine (readPlayerId_ensures hn).bind fun id _ => ?_
  refine (requireField_ensures h.fields (by decide) (by decide)).bind fun list hl => ?_
  exact (readCards_ensures hl (by decide)).bind fun cards hc => hc

/-- The format and the plays of a trick have no more cards than the request has room for. -/
structure TrickWithin (s : Json.Scope) (k : Trick) : Prop where
  format : ∀ f ∈ k.format, f.size ≤ s.room
  played : ∀ p ∈ k.played, p.cards.length ≤ s.request.size

theorem readTrick_ensures (h : value.Within s) :
    Ensures (Fault.Proper s (ValueFault.Stray s)) (TrickWithin s) (readTrick value) := by
  refine (asObject_ensures h (by decide)).bind ?_
  rintro fields rfl
  have inFields := field_within h.fields
  refine (asList_orEmptyList_ensures (inFields _) (by decide)).bind fun plays hp => ?_
  refine (Ensures.mapM_all fun p hm => readPlayedCards_ensures (hp p hm)).bind ?_
  rintro played ⟨-, hplayed⟩
  refine (readTrump_failsBy (inFields _)).bind fun trump _ => ?_
  refine (requireField_ensures h.fields (by decide) (by decide)).bind fun list hl => ?_
  refine (asList_ensures hl (by decide)).bind ?_
  rintro items rfl
  refine (FailsBy.mapM fun p hm => (readPlayerId_ensures (hl.item hm)).failsBy).bind fun queue _ => ?_
  refine (optional_ensures (readFormat_ensures (inFields _))).bind fun format hformat => ?_
  refine (readRequirements_failsBy (inFields _)).bind fun requirements _ => ?_
  exact ⟨hformat, hplayed⟩

theorem readBid_failsBy (h : value.Within s) :
    FailsBy (Fault.Proper s (ValueFault.Stray s)) (readBid value) := by
  refine (asObject_ensures h (by decide)).bind ?_
  rintro fields rfl
  refine (requireField_ensures h.fields (by decide) (by decide)).bind fun number hn => ?_
  refine (readPlayerId_ensures hn).bind fun id _ => ?_
  refine (requireField_ensures h.fields (by decide) (by decide)).bind fun card hc => ?_
  refine (readCard_failsBy hc).bind fun card _ => ?_
  refine (intField_ensures h.fields (by decide)).bind fun count _ => ?_
  exact (intFieldOr_ensures h.fields (by decide) (by decide)).bind fun epoch _ => FailsBy.ok _

theorem readBids_orEmptyList_failsBy (h : value.Within s) :
    FailsBy (Fault.Proper s (ValueFault.Stray s)) (readBids (orEmptyList value)) := by
  refine (asList_orEmptyList_ensures h (by decide)).bind fun items hi => ?_
  exact FailsBy.mapM fun item hm => readBid_failsBy (hi item hm)

/-! ### Decks and parameters -/

theorem readDeck_failsBy (h : value.Within s) : FailsBy (Fault.Proper s q) (readDeck value) := by
  have given : FailsBy (Fault.Proper s q) (do
      let fields ← asObject value "deck"
      Result.naming (RequestFault.deck value) do
        let withoutSmall ← boolField fields "exclude_small_joker"
        let withoutBig ← boolField fields "exclude_big_joker"
        let minimum ← optional (field fields "min") fun v => ofValue (Rank.read v)
        return (⟨withoutSmall, withoutBig, minimum.getD .two⟩ : Deck)) := by
    refine (asObject_ensures h (by decide)).bind ?_
    rintro fields rfl
    refine naming_ensures ?_ fun v hv => ⟨hv.1, named_legible h hv⟩
    have minimum := field_within h.fields "min"
    refine (boolField_failsBy h.fields (by decide)).bind fun withoutSmall _ => ?_
    refine (boolField_failsBy h.fields (by decide)).bind fun withoutBig _ => ?_
    exact (optional_ensures (ofValue_ensures (Rank.read_failsBy minimum.legible))).bind fun minimum _ =>
      FailsBy.ok _
  unfold readDeck
  cases value with
  | null => exact FailsBy.ok _
  | _ => exact given

/-- There are fewer decks than values in the request. -/
theorem readDecks_ensures (h : value.Within s) :
    Ensures (Fault.Proper s q) (fun decks => decks.length < s.request.size) (readDecks value) := by
  refine (asList_ensures h (by decide)).bind ?_
  rintro items rfl
  refine (Ensures.mapM_all fun item hm => readDeck_failsBy (h.item hm)).imp_value ?_
  rintro decks ⟨hlen, -⟩
  rw [hlen]
  exact (Json.length_lt_size items).trans_le h.size

theorem readAdjustments_ensures (h : value.Within s) :
    Ensures (Fault.Proper s (ValueFault.Stray s))
      (fun adjustments => ∀ decks n, adjustments.lookup decks = some n → n.natAbs ≤ s.peak)
      (readAdjustments value) := by
  refine (asObject_orEmptyObject_ensures h (by decide)).bind fun fields hf => ?_
  refine (Ensures.mapM_all (R := fun e => e.2.natAbs ≤ s.peak) ?_).bind ?_
  · rintro ⟨key, adjustment⟩ he
    obtain ⟨hkey, hadjustment⟩ := hf _ he
    refine (readIntegerKey_ensures hkey (by decide)).bind fun decks _ => ?_
    have what : Printable ("step_adjustments[" ++ key.quoted ++ "]") :=
      (Printable.append (by decide) (printable_quoted key)).append (by decide)
    exact (asInt_ensures hadjustment what).bind fun n hn => hn
  · rintro pairs ⟨-, hpairs⟩ decks n hlookup
    exact hpairs _ (Entries.mem_of_lookup_ofList hlookup)

/-- The integers of the parameters are no greater than those of the request. -/
structure ParametersWithin (s : Json.Scope) (p : ScoringParameters) : Prop where
  step : p.stepPerDeck.natAbs ≤ s.peak
  turnover : p.turnoverSteps.natAbs ≤ s.peak
  adjustments : ∀ decks n, p.adjustments.lookup decks = some n → n.natAbs ≤ s.peak

theorem readParameters_ensures (h : value.Within s) :
    Ensures (Fault.Proper s (ValueFault.Stray s)) (ParametersWithin s) (readParameters value) := by
  have hundred := s.hundred_le_peak
  unfold readParameters
  split
  · exact ⟨Nat.le_trans (by decide) hundred, Nat.le_trans (by decide) hundred, nofun⟩
  · refine (asObject_ensures h (by decide)).bind ?_
    rintro fields rfl
    have inFields := field_within h.fields
    dsimp only
    split
    · exact refuse_ensures ⟨trivial, List.forall_mem_nil _⟩
    · refine (readAdjustments_ensures (inFields _)).bind fun adjustments ha => ?_
      refine (intFieldOr_ensures h.fields (by decide) (by decide)).bind fun stepPerDeck hs => ?_
      refine (intFieldOr_ensures h.fields (by decide) (by decide)).bind fun turnoverSteps ht => ?_
      refine (intFieldOr_ensures h.fields (by decide) (by decide)).bind fun deadzone _ => ?_
      refine (readMemberOr_failsBy (by decide) (inFields _) _).bind fun bonus _ => ?_
      refine naming_ensures (ofValue_ensures ?_) fun v hv => hv
      refine (ScoringParameters.ofInts_ensures stepPerDeck turnoverSteps deadzone adjustments
        bonus).imp_value fun p hp => ?_
      obtain ⟨hstep, hturnover, hadjustments⟩ := hp
      exact ⟨hstep ▸ hs, hturnover ▸ ht, hadjustments ▸ ha⟩

end Wire

end TractorRules
