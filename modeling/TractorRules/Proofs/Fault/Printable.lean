import Mathlib.Tactic.SplitIfs
import TractorRules.Fault.Rules

/-!
# Messages stay on one line

Values show in messages as texts in quotes, whose control characters and line ends are escaped.  So a
message has none, as long as the names that the program itself puts in it have none.
-/

namespace TractorRules

/-- A string of printable characters; a line end is none. -/
def Printable (s : String) : Prop := ∀ c ∈ s.toList, Text.isPrintable c.toNat

namespace Printable

/-- Looks only at the characters in the string, not at all there are. -/
instance : DecidablePred Printable := fun s =>
  decidable_of_iff (s.toList.all fun c => Text.isPrintable c.toNat) List.all_eq_true

variable {s t : String} {parts : List String} {cs : List Char}

theorem append (hs : Printable s) (ht : Printable t) : Printable (s ++ t) := by
  rw [Printable, String.toList_append, List.forall_mem_append]
  exact ⟨hs, ht⟩

theorem ofList (h : ∀ c ∈ cs, Text.isPrintable c.toNat) : Printable (String.ofList cs) := by
  rwa [Printable, String.toList_ofList]

theorem ite {p : Prop} [Decidable p] (hs : Printable s) (ht : Printable t) :
    Printable (if p then s else t) := by
  split
  · exact hs
  · exact ht

theorem take (h : Printable s) (n : Nat) : Printable (String.ofList (s.toList.take n)) :=
  ofList fun c hc => h c (List.mem_of_mem_take hc)

theorem join (h : ∀ s ∈ parts, Printable s) : Printable (String.join parts) := by
  intro c hc
  rw [String.toList_join, List.mem_flatMap] at hc
  obtain ⟨s, hs, hc⟩ := hc
  exact h s hs c hc

theorem intercalate (hs : Printable s) (h : ∀ t ∈ parts, Printable t) :
    Printable (s.intercalate parts) := by
  induction parts with
  | nil =>
    rw [String.intercalate_nil]
    decide
  | cons t rest ih =>
    have ht : Printable t := h t List.mem_cons_self
    cases rest with
    | nil => rwa [String.intercalate_singleton]
    | cons u rest =>
      rw [String.intercalate_cons_cons]
      exact (ht.append hs).append (ih fun v hv => h v (List.mem_cons_of_mem t hv))

theorem oneLine (h : Printable s) : '\n' ∉ s.toList := by
  intro hc
  have : Text.isPrintable 10 := h '\n' hc
  revert this
  decide

end Printable

/-! ### Numbers -/

theorem isPrintable_of_isDigit {c : Char} (h : c.isDigit) : Text.isPrintable c.toNat := by
  simp only [Char.isDigit, Bool.and_eq_true, decide_eq_true_eq] at h
  have low : 48 ≤ c.toNat := h.1
  have high : c.toNat ≤ 57 := h.2
  rw [Text.isPrintable, if_pos (Nat.lt_of_le_of_lt high (by decide))]
  exact decide_eq_true (Nat.le_trans (by decide) low)

theorem isPrintable_toDigits {n : Nat} {c : Char} (h : c ∈ Nat.toDigits 10 n) :
    Text.isPrintable c.toNat :=
  isPrintable_of_isDigit (Nat.isDigit_of_mem_toDigits (by decide) (by decide) h)

theorem printable_nat (n : Nat) : Printable (toString n) := by
  rw [Nat.toString_eq_ofList_toDigits]
  exact .ofList fun c hc => isPrintable_toDigits hc

theorem printable_int (n : Int) : Printable (toString n) := by
  cases n with
  | ofNat n => exact printable_nat n
  | negSucc n => exact .append (by decide) (printable_nat (n + 1))

theorem Decimal.printable_zeros (n : Nat) : Printable (zeros n) := by
  apply Printable.ofList
  intro c hc
  rw [List.eq_of_mem_replicate hc]
  decide

theorem Decimal.printable_layout (d : Decimal) : Printable d.layout := by
  have digits (n : Nat) : Printable (String.ofList (Nat.toDigits 10 n)) :=
    .ofList fun _ hc => isPrintable_toDigits hc
  have front (n k : Nat) : Printable (String.ofList ((Nat.toDigits 10 n).take k)) :=
    .ofList fun _ hc => isPrintable_toDigits (List.mem_of_mem_take hc)
  have back (n k : Nat) : Printable (String.ofList ((Nat.toDigits 10 n).drop k)) :=
    .ofList fun _ hc => isPrintable_toDigits (List.mem_of_mem_drop hc)
  unfold layout
  dsimp only
  split
  · split
    · exact ((digits _).append (printable_zeros _)).append (by decide)
    · split
      · exact ((front _ _).append (by decide)).append (back _ _)
      · exact (Printable.append (by decide) (printable_zeros _)).append (digits _)
  · have fraction := Printable.append (by decide : Printable ".") (back d.digits 1)
    have sign : Printable (if d.exponent + (Nat.toDigits 10 d.digits).length - 1 < 0 then "e-"
        else "e+") := .ite (by decide) (by decide)
    exact ((((front _ _).append (.ite (by decide) fraction)).append sign).append
      (printable_zeros _)).append (digits _)

theorem printable_binary64 (x : Binary64) : Printable x.display := by
  cases x with
  | nan => decide
  | infinite negative => exact .ite (by decide) (by decide)
  | finite negative m q =>
    exact .append (.ite (by decide) (by decide)) (.ite (by decide) (Decimal.printable_layout _))

/-! ### Texts and values -/

theorem isPrintable_charOf {c : CodePoint} (h : Text.isPrintable c) :
    Text.isPrintable (Text.charOf c).toNat := by
  rw [Text.charOf]
  split
  · rename_i hv
    rwa [Char.ofNat, dif_pos hv]
  -- The replacement character lies far up in the table of ranges.
  · decide +kernel

theorem printable_hex (width n : Nat) : Printable (Text.hex width n) := by
  apply Printable.ofList
  intro c hc
  obtain ⟨i, -, rfl⟩ := List.mem_map.1 hc
  have hd : ∀ d < 16, Text.isPrintable (Nat.digitChar d).toNat := by decide
  exact hd _ (Nat.mod_lt _ (by decide))

theorem printable_quotePoint {quote : CodePoint} (h : Text.isPrintable quote) (c : CodePoint) :
    Printable (Text.quotePoint quote c) := by
  unfold Text.quotePoint
  split_ifs with hq _ _ _ hp
  · have hc : Text.isPrintable c := by
      rcases hq with rfl | rfl
      · exact h
      · decide
    apply Printable.ofList
    rw [List.forall_mem_cons, List.forall_mem_singleton]
    exact ⟨by decide, isPrintable_charOf hc⟩
  · decide
  · decide
  · decide
  · intro d hd
    rw [String.toList_singleton, List.mem_singleton] at hd
    exact hd ▸ isPrintable_charOf hp
  · unfold Text.escapePoint
    split_ifs <;> exact .append (by decide) (printable_hex _ _)

theorem printable_quoted (t : Text) : Printable t.quoted := by
  have quote : Text.isPrintable t.quoteFor := by
    rw [Text.quoteFor]
    split <;> decide
  have mark : Printable (String.singleton (Text.charOf t.quoteFor)) := by
    rw [Text.quoteFor]
    split <;> decide
  refine (mark.append (Printable.join fun s hs => ?_)).append mark
  obtain ⟨c, -, rfl⟩ := List.mem_map.1 hs
  exact printable_quotePoint quote c

mutual

theorem printable_display : ∀ value : Json, Printable value.display
  | .null => by decide
  | .bool true => by decide
  | .bool false => by decide
  | .int n => printable_int n
  | .float x => printable_binary64 x
  | .text t => printable_quoted t
  | .array items =>
    .append (.append (by decide) (.intercalate (by decide) (printable_displayItems items)))
      (by decide)
  | .object fields =>
    .append (.append (by decide) (.intercalate (by decide) (printable_displayFields fields)))
      (by decide)

theorem printable_displayItems : ∀ items : List Json, ∀ s ∈ Json.displayItems items, Printable s
  | [], s, h => by cases h
  | item :: rest, s, h => by
    cases h with
    | head => exact printable_display item
    | tail _ h => exact printable_displayItems rest s h

theorem printable_displayFields :
    ∀ fields : List (Text × Json), ∀ s ∈ Json.displayFields fields, Printable s
  | [], s, h => by cases h
  | (key, value) :: rest, s, h => by
    cases h with
    | head => exact ((printable_quoted key).append (by decide)).append (printable_display value)
    | tail _ h => exact printable_displayFields rest s h

end

/-! ### Faults -/

theorem printable_numberLabel (n : Int) : Printable (numberLabel n) :=
  .ite (by decide) (.ite (by decide) (.ite (by decide) (.ite (by decide) (printable_int n))))

theorem Card.printable_display (c : Card) : Printable c.display := by
  cases c with
  | suited s r =>
    have letter : Printable s.letter := by cases s <;> decide
    exact (Printable.append (by decide) ((printable_numberLabel r.number).append letter)).append
      (by decide)
  | joker j => cases j <;> decide

theorem ValueFault.printable_tuple (ns : List Int) : Printable (tuple ns) := by
  have h : ∀ s ∈ ns.map toString, Printable s := by
    intro s hs
    obtain ⟨n, -, rfl⟩ := List.mem_map.1 hs
    exact printable_int n
  unfold tuple
  split
  · exact (Printable.append (by decide) (printable_int _)).append (by decide)
  · exact (Printable.append (by decide) (.intercalate (by decide) h)).append (by decide)

theorem ValueFault.printable_digitLimit : Printable digitLimit :=
  (Printable.append (by decide) (printable_nat Text.maxDigits)).append (by decide)

/-- The message of a value's fault; only one for a missing field of a card has a name in it. -/
theorem ValueFault.printable_message {fault : ValueFault}
    (h : ∀ name, fault = .cardField name → Printable name) : Printable fault.message := by
  cases fault with
  | integerText t => exact .append (by decide) ((printable_quoted t).take _)
  | integerLength digits =>
    exact (((printable_digitLimit.append (by decide)).append (printable_nat digits)).append
      (by decide)).append (by decide)
  | integerUnwritable => exact (printable_digitLimit.append (by decide)).append (by decide)
  | cardNumber v | cardNumberRange v | suit v | card v =>
    exact .append (by decide) (TractorRules.printable_display v)
  | joker name => exact (printable_quoted name).append (by decide)
  | cardField name => exact (Printable.append (by decide) (h name rfl)).append (by decide)
  | trumpNumberRange n | deckMinimumRange n | tractorMinCount n | tractorMinLength n
  | unitCount n => exact .append (by decide) (printable_int n)
  | emptyShape ns | mixedShape ns => exact .append (by decide) (printable_tuple ns)
  | negativeCount c => exact .append (by decide) c.printable_display
  | jokerWithFace | cardWithoutFace | tractorMembers | turnoverSteps | deadzone | nullInPath =>
    decide

/-- The names that the program itself puts in a fault, and the message of its cause, are printable. -/
def RequestFault.Worded : RequestFault → Prop
  | .kind _ what _ => Printable what
  | .missing field place => Printable field ∧ ∀ p ∈ place, Printable p
  | .member typeName _ members => Printable typeName ∧ ∀ m ∈ members, Printable m
  | .card _ cause => ∀ c ∈ cause, Printable c.message
  | .trump _ cause | .requirements cause | .shape cause | .unit _ cause | .player _ cause
  | .deck _ cause | .parameters cause => Printable cause.message
  | .notAnObject operation _ => Printable operation
  | .unitType _ | .negativeCount _ | .unknownParameters _ | .unknownOperation _ => True

theorem RequestFault.printable_invalid {what : String} (value : Json) {cause : ValueFault}
    (hw : Printable what) (hc : Printable cause.message) :
    Printable (invalid what value cause) :=
  (((((Printable.append (by decide) hw).append (by decide)).append (printable_display value)).append
    (by decide)).append hc).append (by decide)

theorem RequestFault.Worded.printable_message {fault : RequestFault} (h : fault.Worded) :
    Printable fault.message := by
  cases fault with
  | kind wanted what v =>
    have phrase : Printable wanted.phrase := by cases wanted <;> decide
    exact ((((Printable.append (by decide) phrase).append (by decide)).append h).append
      (by decide)).append (printable_display v)
  | missing field place =>
    have start := (Printable.append (by decide : Printable "Missing field '") h.1)
    cases place with
    | none => exact start.append (by decide)
    | some place => exact (start.append (by decide)).append (h.2 place rfl)
  | member typeName v members =>
    exact (((((Printable.append (by decide) h.1).append (by decide)).append
      (printable_display v)).append (by decide)).append (.intercalate (by decide) h.2)).append
      (by decide)
  | card v cause =>
    cases cause with
    | none => exact .append (by decide) (printable_display v)
    | some cause => exact printable_invalid v (by decide) (h cause rfl)
  | trump v cause | unit v cause | player v cause | deck v cause =>
    exact printable_invalid v (by decide) h
  | requirements cause | shape cause => exact h
  | unitType name | negativeCount name | unknownOperation name =>
    exact .append (by decide) (printable_quoted name)
  | unknownParameters names =>
    have quoted : ∀ s ∈ names.map Text.quoted, Printable s := by
      intro s hs
      obtain ⟨t, -, rfl⟩ := List.mem_map.1 hs
      exact printable_quoted t
    exact (Printable.append (by decide) (.intercalate (by decide) quoted)).append (by decide)
  | parameters cause => exact .append (by decide) h
  | notAnObject operation v =>
    have word : Printable v.kindWord := by
      unfold Json.kindWord
      split <;> decide
    exact ((Printable.append (by decide) h).append (by decide)).append word

theorem RulesFault.printable_message {fault : RulesFault}
    (h : ∀ f, fault = .request f → f.Worded) : Printable fault.message := by
  cases fault with
  | request f => exact (h f rfl).printable_message
  | unknownPlayer id => exact .append (by decide) (printable_int id)
  | play f =>
    cases f with
    | wrongNumberOfCards expected got =>
      exact ((Printable.append (by decide) (printable_nat expected)).append (by decide)).append
        (printable_nat got)
    | _ => decide
  | scoring f =>
    cases f with
    | noDecks => decide
    | stepNotPositive step | stepNotMultiple step => exact .append (by decide) (printable_int step)
  | deckCount count => exact .append (by decide) (printable_int count)
  | emptyLead | mixedLead => decide

end TractorRules
