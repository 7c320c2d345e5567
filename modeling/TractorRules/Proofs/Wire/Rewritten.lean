import TractorRules.Proofs.Trick.Alike
import TractorRules.Proofs.Wire.Written

/-!
# Rewritten values

Two readings are compared step by step: where the first gives something, the second gives something
related to it (`Follows`).  A trick whose plays list their cards in another order is read as one that
looks alike (`readTrick_follows`).
-/

namespace TractorRules

open Wire

/-! ### Two readings -/

/-- Nothing is said of a first reading that fails. -/
def Follows {ε α α' : Type} (R : α → α' → Prop) (first : Except ε α) (second : Except ε α') : Prop :=
  ∀ a, first = .ok a → ∃ b, second = .ok b ∧ R a b

namespace Follows

variable {ε α α' β β' : Type} {P : α → α' → Prop} {R : β → β' → Prop} {first : Except ε α}
  {second : Except ε α'}

theorem ok {a : α} {a' : α'} (h : P a a') : Follows P (.ok a : Except ε α) (.ok a') := by
  intro b hb
  exact ⟨a', rfl, Except.ok.inj hb ▸ h⟩

theorem bind {next : α → Except ε β} {next' : α' → Except ε β'} (h : Follows P first second)
    (hn : ∀ a a', P a a' → Follows R (next a) (next' a')) :
    Follows R (first >>= next) (second >>= next') := by
  intro b hb
  obtain ⟨a, ha, hb⟩ := bind_eq_ok_iff.mp hb
  obtain ⟨a', ha', hp⟩ := h a ha
  obtain ⟨b', hb', hr⟩ := hn a a' hp b hb
  exact ⟨b', bind_eq_ok_iff.mpr ⟨a', ha', hb'⟩, hr⟩

theorem bind_same {next : α → Except ε β} {next' : α → Except ε β'}
    (hn : ∀ a, first = .ok a → Follows R (next a) (next' a)) :
    Follows R (first >>= next) (first >>= next') := by
  intro b hb
  obtain ⟨a, ha, hb⟩ := bind_eq_ok_iff.mp hb
  obtain ⟨b', hb', hr⟩ := hn a ha b hb
  exact ⟨b', bind_eq_ok_iff.mpr ⟨a, ha, hb'⟩, hr⟩

theorem mapM {f : α → Except ε β} {f' : α' → Except ε β'} {xs : List α} {xs' : List α'}
    (hxs : List.Forall₂ P xs xs') (hf : ∀ x x', P x x' → Follows R (f x) (f' x')) :
    Follows (List.Forall₂ R) (xs.mapM f) (xs'.mapM f') := by
  induction hxs with
  | nil => exact ok .nil
  | cons hx hrest ih =>
    rw [List.mapM_cons, List.mapM_cons]
    exact (hf _ _ hx).bind fun y y' hy => ih.bind fun ys ys' hys => ok (.cons hy hys)

end Follows

namespace Wire

/-! ### Fields -/

variable {keys : List String} {fields fields' : Fields} {key place : String}
  {R : Json → Json → Prop}

theorem require_object (fields : Fields) (key : String) :
    require (.object fields) key = requireField fields key "request" := rfl

theorem requireField_eq_ok_iff {value : Json} :
    requireField fields key place = .ok value ↔ Json.lookup key fields = some value := by
  unfold requireField
  cases Json.lookup key fields with
  | none => exact ⟨nofun, nofun⟩
  | some found => rw [Except.ok.injEq, Option.some.injEq]

def AgreeBut (keys : List String) (fields fields' : Fields) : Prop :=
  ∀ key : Text, key ∉ keys.map Text.ofString → fields.lookup key = fields'.lookup key

theorem AgreeBut.refl (keys : List String) (fields : Fields) : AgreeBut keys fields fields :=
  fun _ _ => rfl

theorem AgreeBut.keep {entry : Text × Json} (h : AgreeBut keys fields fields') :
    AgreeBut keys (entry :: fields) (entry :: fields') := by
  intro key hkey
  rw [Entries.lookup_cons, Entries.lookup_cons, h key hkey]

theorem AgreeBut.replace {name : Text} {value value' : Json} (hname : name ∈ keys.map Text.ofString)
    (h : AgreeBut keys fields fields') :
    AgreeBut keys ((name, value) :: fields) ((name, value') :: fields') := by
  intro key hkey
  have hne : key ≠ name := fun heq => hkey (heq ▸ hname)
  rw [Entries.lookup_cons, Entries.lookup_cons, if_neg hne, if_neg hne, h key hkey]

theorem AgreeBut.field_eq (h : AgreeBut keys fields fields')
    (hkey : Text.ofString key ∉ keys.map Text.ofString) : field fields key = field fields' key :=
  congrArg (·.getD .null) (h _ hkey)

theorem AgreeBut.requireField_eq (h : AgreeBut keys fields fields')
    (hkey : Text.ofString key ∉ keys.map Text.ofString) :
    requireField fields key place = requireField fields' key place := by
  rw [requireField, requireField, Json.lookup, Json.lookup, h _ hkey]

theorem AgreeBut.intFieldOr_eq (h : AgreeBut keys fields fields') (default : Int)
    (hkey : Text.ofString key ∉ keys.map Text.ofString) :
    intFieldOr fields key default = intFieldOr fields' key default := by
  rw [intFieldOr, intFieldOr, Json.present, Json.present, Json.lookup, Json.lookup, h _ hkey]

theorem requireField_follows (h : Option.Rel R (Json.lookup key fields) (Json.lookup key fields')) :
    Follows R (requireField fields key place) (requireField fields' key place) := by
  unfold requireField
  generalize Json.lookup key fields = value?, Json.lookup key fields' = value?' at h
  cases h with
  | some hvalue => exact Follows.ok hvalue
  | none => exact fun _ h => nomatch h

theorem asObject_follows (fields fields' : Fields) (what : String) :
    Follows (fun found found' => found = fields ∧ found' = fields') (asObject (.object fields) what)
      (asObject (.object fields') what) :=
  Follows.ok ⟨rfl, rfl⟩

theorem field_rel (h : Option.Rel R (Json.lookup key fields) (Json.lookup key fields'))
    (hnull : R .null .null) : R (field fields key) (field fields' key) := by
  unfold field
  generalize Json.lookup key fields = value?, Json.lookup key fields' = value?' at h
  cases h with
  | some hvalue => exact hvalue
  | none => exact hnull

/-! ### Other orders of cards -/

/-- The same items in any order, or the same value. -/
inductive CardsReordered : Json → Json → Prop
  | same (value : Json) : CardsReordered value value
  | items {items items' : List Json} (h : items.Perm items') :
    CardsReordered (.array items) (.array items')

/-- A play whose cards are in another order. -/
inductive PlayReordered : Json → Json → Prop
  | same (value : Json) : PlayReordered value value
  | fields {fields fields' : Fields} (others : AgreeBut ["cards"] fields fields')
    (cards : Option.Rel CardsReordered (Json.lookup "cards" fields) (Json.lookup "cards" fields')) :
    PlayReordered (.object fields) (.object fields')

inductive PlaysReordered : Json → Json → Prop
  | same (value : Json) : PlaysReordered value value
  | items {items items' : List Json} (h : List.Forall₂ PlayReordered items items') :
    PlaysReordered (.array items) (.array items')

/-- A trick with the cards of its plays in another order. -/
inductive TrickReordered : Json → Json → Prop
  | same (value : Json) : TrickReordered value value
  | fields {fields fields' : Fields} (others : AgreeBut ["played_cards"] fields fields')
    (plays : Option.Rel PlaysReordered (Json.lookup "played_cards" fields)
      (Json.lookup "played_cards" fields')) :
    TrickReordered (.object fields) (.object fields')

variable {value value' : Json}

theorem readCards_follows (h : CardsReordered value value') (what : String) :
    Follows List.Perm (readCards value what) (readCards value' what) := by
  cases h with
  | same => exact fun cards hcards => ⟨cards, hcards, .refl cards⟩
  | items hperm =>
    intro cards hcards
    obtain ⟨cards', hcards', hp⟩ := List.perm_comp_forall₂ hperm.symm (mapM_eq_ok_iff.mp hcards)
    exact ⟨cards', mapM_eq_ok_iff.mpr hcards', hp.symm⟩

theorem readPlayedCards_follows (h : PlayReordered value value') :
    Follows (fun p p' => p.cards.Perm p'.cards) (readPlayedCards value) (readPlayedCards value') := by
  cases h with
  | same => exact fun p hp => ⟨p, hp, .refl p.cards⟩
  | @fields fields fields' others cards =>
    refine (asObject_follows fields fields' _).bind ?_
    rintro _ _ ⟨rfl, rfl⟩
    rw [others.requireField_eq (by decide)]
    refine Follows.bind_same fun number _ => Follows.bind_same fun id _ => ?_
    refine (requireField_follows cards).bind fun list list' hlist => ?_
    exact (readCards_follows hlist _).bind fun cards cards' hcards => Follows.ok hcards

theorem PlaysReordered.orEmptyList (h : PlaysReordered value value') :
    PlaysReordered (orEmptyList value) (orEmptyList value') := by
  cases h with
  | same => exact .same _
  | items hplays =>
    cases hplays with
    | nil => exact .same _
    | cons hplay hrest => exact .items (.cons hplay hrest)

theorem asList_follows (h : PlaysReordered value value') (what : String) :
    Follows (List.Forall₂ PlayReordered) (asList value what) (asList value' what) := by
  cases h with
  | same => exact fun plays hplays => ⟨plays, hplays, List.forall₂_same.mpr fun p _ => .same p⟩
  | items hplays => exact Follows.ok hplays

theorem readTrick_follows (h : TrickReordered value value') :
    Follows Trick.Alike (readTrick value) (readTrick value') := by
  cases h with
  | same =>
    exact fun k hk => ⟨k, hk, rfl, rfl, rfl, rfl, List.forall₂_same.mpr fun p _ => .refl p.cards⟩
  | @fields fields fields' others plays =>
    refine (asObject_follows fields fields' _).bind ?_
    rintro _ _ ⟨rfl, rfl⟩
    rw [others.field_eq (by decide : Text.ofString "trump" ∉ _),
      others.requireField_eq (by decide : Text.ofString "player_queue" ∉ _),
      others.field_eq (by decide : Text.ofString "trick_format" ∉ _),
      others.field_eq (by decide : Text.ofString "tractor_requirements" ∉ _)]
    have hplays := (field_rel plays (.same .null)).orEmptyList
    refine (asList_follows hplays _).bind fun items items' hitems => ?_
    refine (Follows.mapM hitems fun _ _ => readPlayedCards_follows).bind fun played played' hp => ?_
    refine Follows.bind_same fun trump _ => Follows.bind_same fun value _ => ?_
    refine Follows.bind_same fun list _ => Follows.bind_same fun queue _ => ?_
    refine Follows.bind_same fun format _ => Follows.bind_same fun requirements _ => ?_
    exact Follows.ok ⟨rfl, rfl, rfl, rfl, hp⟩

end Wire

end TractorRules
