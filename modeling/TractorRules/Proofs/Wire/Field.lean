import TractorRules.Proofs.Fault.Shown
import TractorRules.Proofs.Text.Digit
import TractorRules.Wire.Table
import Mathlib.Data.List.Forall2

/-!
# What reading can fail with

A reader either gives a value or names what is wrong with the request.  The one fault that no reader
names is that of digits which no integer is read from, and then the digits stand in the request.
This module has the rules for such statements and the readers of fields.
-/

namespace TractorRules

/-! ### Results -/

/-- A result gives a value with `Q`, or it fails with `p`. -/
def Ensures {ε α : Type} (p : ε → Prop) (Q : α → Prop) : Except ε α → Prop
  | .ok a => Q a
  | .error e => p e

abbrev FailsBy {ε α : Type} (p : ε → Prop) (result : Except ε α) : Prop :=
  Ensures p (fun _ => True) result

section

variable {ε ε' α β : Type} {p p' : ε → Prop} {q : ε' → Prop} {Q Q' : α → Prop} {R : β → Prop}
  {result : Except ε α}

theorem Ensures.bind {next : α → Except ε β} (h : Ensures p Q result)
    (hn : ∀ a, Q a → Ensures p R (next a)) : Ensures p R (result >>= next) := by
  cases result with
  | ok a => exact hn a h
  | error e => exact h

theorem Ensures.imp (h : Ensures p Q result) (hp : ∀ e, p e → p' e) : Ensures p' Q result := by
  cases result with
  | ok a => exact h
  | error e => exact hp e h

theorem Ensures.imp_value (h : Ensures p Q result) (hQ : ∀ a, Q a → Q' a) :
    Ensures p Q' result := by
  cases result with
  | ok a => exact hQ a h
  | error e => exact h

theorem Ensures.failsBy (h : Ensures p Q result) : FailsBy p result :=
  h.imp_value fun _ _ => trivial

theorem Ensures.map {f : α → β} (h : Ensures p Q result) (hf : ∀ a, Q a → R (f a)) :
    Ensures p R (f <$> result) := by
  cases result with
  | ok a => exact hf a h
  | error e => exact h

theorem Ensures.mapError {f : ε → ε'} (h : Ensures p Q result) (hf : ∀ e, p e → q (f e)) :
    Ensures q Q (result.mapError f) := by
  cases result with
  | ok a => exact h
  | error e => exact hf e h

theorem FailsBy.ok (a : α) : FailsBy p (Except.ok a) := trivial

/-- Each item is read to something with a property. -/
theorem Ensures.mapM {f : α → Except ε β} {items : List α} {R : α → β → Prop}
    (h : ∀ a ∈ items, Ensures p (R a) (f a)) : Ensures p (List.Forall₂ R items) (items.mapM f) := by
  induction items with
  | nil => exact List.Forall₂.nil
  | cons a rest ih =>
    rw [List.mapM_cons]
    refine (h a List.mem_cons_self).bind fun b hb => ?_
    refine (ih fun c hc => h c (List.mem_cons_of_mem a hc)).bind fun bs hbs => ?_
    exact List.Forall₂.cons hb hbs

theorem forall_right_of_forall₂ {as : List α} {bs : List β}
    (h : List.Forall₂ (fun _ b => R b) as bs) : ∀ b ∈ bs, R b := by
  induction h with
  | nil => exact List.forall_mem_nil _
  | cons hb _ ih => exact List.forall_mem_cons.2 ⟨hb, ih⟩

theorem Ensures.mapM_all {f : α → Except ε β} {items : List α}
    (h : ∀ a ∈ items, Ensures p R (f a)) :
    Ensures p (fun bs => bs.length = items.length ∧ ∀ b ∈ bs, R b) (items.mapM f) :=
  (Ensures.mapM h).imp_value fun _ hb => ⟨hb.length_eq.symm, forall_right_of_forall₂ hb⟩

theorem FailsBy.mapM {f : α → Except ε β} {items : List α} (h : ∀ a ∈ items, FailsBy p (f a)) :
    FailsBy p (items.mapM f) :=
  (Ensures.mapM_all h).failsBy

end

/-! ### Faults -/

/-- Whether a text counts as digits and no integer is read from it. -/
def Text.isStrayDigits (t : Text) : Bool := t.trim.isDigits && t.toInteger?.isNone

/-- The fault of digits in the request that no integer is read from. -/
def ValueFault.Stray (s : Json.Scope) (fault : ValueFault) : Prop :=
  ∃ t ∈ s.request.texts, t.isStrayDigits ∧ t.readInteger = .error fault

theorem Text.readInteger_failsBy (depth : Nat) (t : Text) :
    FailsBy (ValueFault.Described depth) t.readInteger := by
  unfold readInteger
  split
  · trivial
  · split
    · exact ValueFault.described (List.forall_mem_nil _) nofun
    · exact ValueFault.described (List.forall_mem_nil _) nofun

theorem Text.toInteger?_isNone_of_readInteger {t : Text} {fault : ValueFault}
    (h : t.readInteger = .error fault) : t.toInteger?.isNone := by
  unfold readInteger at h
  split at h
  · cases h
  · rename_i hnone
    rw [hnone]
    rfl

theorem ValueFault.Stray.described {s : Json.Scope} {fault : ValueFault} (h : fault.Stray s) :
    fault.Described s.depth := by
  obtain ⟨t, -, -, hread⟩ := h
  have hfails := t.readInteger_failsBy s.depth
  rwa [hread] at hfails

/-- A refusal can be written, and a value's fault that no field names is one of `q`. -/
def Fault.Proper (s : Json.Scope) (q : ValueFault → Prop) : Fault → Prop
  | .rules fault => fault.Described s.depth
  | .value fault => q fault

namespace Wire

variable {s : Json.Scope} {q : ValueFault → Prop} {α : Type} {Q : α → Prop} {value : Json}
  {fields : Fields}

theorem refuse_ensures {fault : RequestFault} (h : fault.Described s.depth) :
    Ensures (Fault.Proper s q) Q (refuse fault) :=
  h.rules

theorem ofValue_ensures {result : Except ValueFault α} (h : Ensures q Q result) :
    Ensures (Fault.Proper s q) Q (ofValue result) :=
  h.mapError fun _ hv => hv

/-- Naming a fault keeps its description. -/
theorem naming_ensures {name : ValueFault → RequestFault} {result : Result α}
    (h : Ensures (Fault.Proper s (ValueFault.Described s.depth)) Q result)
    (hn : ∀ v : ValueFault, v.Described s.depth → (name v).Described s.depth) :
    Ensures (Fault.Proper s q) Q (result.naming name) := by
  cases result with
  | ok a => exact h
  | error fault =>
    cases fault with
    | rules fault => exact h
    | value v => exact refuse_ensures (hn v h)

/-! ### Kinds of values -/

theorem kind_described (h : value.Within s) {wanted : FieldKind} {what : String}
    (hw : Printable what) : (RequestFault.kind wanted what value).Described s.depth :=
  ⟨hw, List.forall_mem_singleton.2 h.legible⟩

theorem asObject_ensures (h : value.Within s) {what : String} (hw : Printable what) :
    Ensures (Fault.Proper s q) (fun fields => value = .object fields) (asObject value what) := by
  unfold asObject
  split
  · rfl
  · exact refuse_ensures (kind_described h hw)

theorem asList_ensures (h : value.Within s) {what : String} (hw : Printable what) :
    Ensures (Fault.Proper s q) (fun items => value = .array items) (asList value what) := by
  unfold asList
  split
  · rfl
  · exact refuse_ensures (kind_described h hw)

theorem asInt_ensures (h : value.Within s) {what : String} (hw : Printable what) :
    Ensures (Fault.Proper s q) (fun n => n.natAbs ≤ s.peak) (asInt value what) := by
  unfold asInt
  split
  · exact h.natAbs_le
  · exact refuse_ensures (kind_described h hw)

theorem asBool_failsBy (h : value.Within s) {what : String} (hw : Printable what) :
    FailsBy (Fault.Proper s q) (asBool value what) := by
  unfold asBool
  split
  · trivial
  · exact refuse_ensures (kind_described h hw)

/-! ### Fields -/

theorem lookup_within (h : Json.FieldsWithin s fields) {key : String}
    (hv : Json.lookup key fields = some value) : value.Within s := by
  obtain ⟨before, after, rfl, -⟩ := List.lookup_eq_some_iff.1 hv
  exact (h _ (List.mem_append_right before List.mem_cons_self)).2

theorem present_within (h : Json.FieldsWithin s fields) {key : String}
    (hv : Json.present key fields = some value) : value.Within s := by
  unfold Json.present at hv
  split at hv
  · cases hv
  · cases hv
  · rename_i hl
    exact Option.some.inj hv ▸ lookup_within h hl

theorem field_within (h : Json.FieldsWithin s fields) (key : String) :
    (field fields key).Within s := by
  unfold field
  cases hv : Json.lookup key fields with
  | none => exact .null
  | some value => exact lookup_within h hv

theorem fieldsOf_within {request : Json} (h : request.Within s) :
    Json.FieldsWithin s (fieldsOf request) := by
  unfold fieldsOf
  split
  · exact h.fields
  · exact List.forall_mem_nil _

theorem asList_orEmptyList_ensures (h : value.Within s) {what : String} (hw : Printable what) :
    Ensures (Fault.Proper s q) (fun items => ∀ item ∈ items, item.Within s)
      (asList (orEmptyList value) what) := by
  unfold orEmptyList
  split
  · exact List.forall_mem_nil _
  · refine (asList_ensures h hw).imp_value ?_
    rintro items rfl item
    exact h.item

theorem asObject_orEmptyObject_ensures (h : value.Within s) {what : String} (hw : Printable what) :
    Ensures (Fault.Proper s q) (Json.FieldsWithin s) (asObject (orEmptyObject value) what) := by
  unfold orEmptyObject
  split
  · exact List.forall_mem_nil _
  · refine (asObject_ensures h hw).imp_value ?_
    rintro fields rfl
    exact h.fields

theorem requireField_ensures {key place : String} (h : Json.FieldsWithin s fields)
    (hk : Printable key) (hp : Printable place) :
    Ensures (Fault.Proper s q) (·.Within s) (requireField fields key place) := by
  unfold requireField
  split
  · rename_i hv
    exact lookup_within h hv
  · exact refuse_ensures ⟨⟨hk, fun p hp' => Option.some.inj hp' ▸ hp⟩, List.forall_mem_nil _⟩

theorem require_ensures {request : Json} {key : String} (h : request.Within s)
    (hk : Printable key) : Ensures (Fault.Proper s q) (·.Within s) (require request key) := by
  refine (asObject_ensures h (by decide)).bind ?_
  rintro fields rfl
  exact requireField_ensures h.fields hk (by decide)

theorem intField_ensures (h : Json.FieldsWithin s fields) {key : String} (hk : Printable key) :
    Ensures (Fault.Proper s q) (fun n => n.natAbs ≤ s.peak) (intField fields key) := by
  unfold intField
  split
  · rename_i hv
    exact asInt_ensures (present_within h hv) hk
  · exact refuse_ensures ⟨⟨hk, nofun⟩, List.forall_mem_nil _⟩

theorem intFieldOr_ensures (h : Json.FieldsWithin s fields) {key : String} {default : Int}
    (hd : default.natAbs ≤ 100) (hk : Printable key) :
    Ensures (Fault.Proper s q) (fun n => n.natAbs ≤ s.peak)
      (intFieldOr fields key default) := by
  unfold intFieldOr
  split
  · rename_i hv
    exact asInt_ensures (present_within h hv) hk
  · exact hd.trans s.hundred_le_peak

theorem boolField_failsBy (h : Json.FieldsWithin s fields) {key : String} (hk : Printable key) :
    FailsBy (Fault.Proper s q) (boolField fields key) := by
  unfold boolField
  split
  · rename_i hv
    exact asBool_failsBy (present_within h hv) hk
  · trivial

theorem optional_ensures {read : Json → Result α} (h : Ensures (Fault.Proper s q) Q (read value)) :
    Ensures (Fault.Proper s q) (fun a? => ∀ a ∈ a?, Q a) (optional value read) := by
  unfold optional
  split
  · exact nofun
  · refine h.map fun a ha => ?_
    intro a' ha'
    exact Option.some.inj ha' ▸ ha

end Wire

end TractorRules
