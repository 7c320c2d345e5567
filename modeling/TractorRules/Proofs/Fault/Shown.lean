import TractorRules.Proofs.Fault.Printable
import Mathlib.Algebra.GroupWithZero.Nat
import Mathlib.Order.Nat

/-!
# What messages show

A message shows values of the request, and the integers that were read from it or computed.  The host
writes integers of `Text.maxDigits` digits and follows values to some depth (`Json.Legible`).  A request
fits it when there is room for a sum over all its values (`Json.Fits`); then whatever is found in the
request is legible (`Json.Within.legible`).
-/

namespace TractorRules

namespace Json

mutual

/-- How deep arrays and objects stand in each other. -/
def depth : Json → Nat
  | .array items => itemDepth items + 1
  | .object fields => fieldDepth fields + 1
  | _ => 0

def itemDepth : List Json → Nat
  | [] => 0
  | item :: rest => max item.depth (itemDepth rest)

def fieldDepth : List (Text × Json) → Nat
  | [] => 0
  | (_, value) :: rest => max value.depth (fieldDepth rest)

end

def size (value : Json) : Nat := value.parts.length

def text? : Json → Option Text
  | .text t => some t
  | _ => none

def texts (value : Json) : List Text := value.parts.filterMap text?

/-- The greatest magnitude of an integer in a value, and no less than the points of a deck. -/
def peak (value : Json) : Nat := value.integers.foldr (fun n m => max n.natAbs m) 100

def Writable (value : Json) : Prop := ∀ n ∈ value.integers, Text.isWritable n

/-- A value that the host can show. -/
structure Legible (depth : Nat) (value : Json) : Prop where
  nesting : value.depth ≤ depth
  writable : value.Writable

/-- A request that the host can show, with room for as many integers of the greatest magnitude as there
are values. -/
structure Fits (depth : Nat) (request : Json) : Prop where
  nesting : request.depth ≤ depth
  room : request.peak * request.size < Text.digitBound

instance (depth : Nat) (request : Json) : Decidable (request.Fits depth) :=
  decidable_of_iff (request.depth ≤ depth ∧ request.peak * request.size < Text.digitBound)
    ⟨fun h => ⟨h.1, h.2⟩, fun h => ⟨h.1, h.2⟩⟩

/-- The request that is being read, and how deep a value may be. -/
structure Scope where
  depth : Nat
  request : Json
  fits : request.Fits depth

namespace Scope

/-- The greatest magnitude of an integer in the request. -/
def peak (s : Scope) : Nat := s.request.peak

/-- The greatest magnitude that a sum over the values of the request comes to. -/
def room (s : Scope) : Nat := s.request.peak * s.request.size

end Scope

/-- What can be found in a request. -/
structure Within (s : Scope) (value : Json) : Prop where
  texts : value.texts ⊆ s.request.texts
  integers : value.integers ⊆ s.request.integers
  size : value.size ≤ s.request.size
  depth : value.depth ≤ s.request.depth

def FieldsWithin (s : Scope) (fields : List (Text × Json)) : Prop :=
  ∀ e ∈ fields, (text e.1).Within s ∧ e.2.Within s

/-! ### Parts -/

section Parts

variable {items : List Json} {fields : List (Text × Json)} {value item : Json}

theorem size_pos (value : Json) : 0 < value.size := by
  cases value <;> exact Nat.succ_pos _

theorem size_array (items : List Json) : (array items).size = (items.map size).sum + 1 := by
  change (itemParts items).length + 1 = _
  induction items with
  | nil => rfl
  | cons item rest ih =>
    rw [itemParts, List.length_append, List.map_cons, List.sum_cons, Nat.add_assoc, ih,
      Nat.add_assoc]
    rfl

theorem length_lt_size (items : List Json) : items.length < (array items).size := by
  rw [size_array]
  induction items with
  | nil => exact Nat.one_pos
  | cons item rest ih =>
    have hpos := item.size_pos
    rw [List.map_cons, List.sum_cons, List.length_cons]
    omega

theorem length_lt_size_object (fields : List (Text × Json)) :
    fields.length < (object fields).size := by
  suffices fields.length ≤ (fieldParts fields).length from Nat.lt_succ_of_le this
  induction fields with
  | nil => exact Nat.le_refl _
  | cons first rest ih =>
    rw [fieldParts, List.length_cons, List.length_cons, List.length_append]
    omega

theorem parts_of_mem_items (h : item ∈ items) : item.parts.Sublist (array items).parts := by
  suffices item.parts.Sublist (itemParts items) from this.cons _
  induction items with
  | nil => cases h
  | cons first rest ih =>
    cases h with
    | head => exact List.sublist_append_left _ _
    | tail _ h => exact (ih h).trans (List.sublist_append_right _ _)

theorem parts_of_mem_fields {key : Text} (h : (key, value) ∈ fields) :
    (text key :: value.parts).Sublist (object fields).parts := by
  suffices (text key :: value.parts).Sublist (fieldParts fields) from this.cons _
  induction fields with
  | nil => cases h
  | cons first rest ih =>
    cases h with
    | head => exact (List.sublist_append_left _ _).cons_cons _
    | tail _ h => exact (ih h).trans ((List.sublist_append_right _ _).cons _)

theorem size_lt_of_lookup {key : String} (h : Json.lookup key fields = some value) :
    value.size < (object fields).size := by
  obtain ⟨before, after, rfl, -⟩ := List.lookup_eq_some_iff.1 h
  exact (parts_of_mem_fields (List.mem_append_right before List.mem_cons_self)).length_le

theorem depth_of_mem_items (h : item ∈ items) : item.depth < (array items).depth := by
  suffices item.depth ≤ itemDepth items from Nat.lt_succ_of_le this
  induction items with
  | nil => cases h
  | cons first rest ih =>
    cases h with
    | head => exact Nat.le_max_left _ _
    | tail _ h => exact (ih h).trans (Nat.le_max_right _ _)

theorem depth_of_mem_fields {key : Text} (h : (key, value) ∈ fields) :
    value.depth < (object fields).depth := by
  suffices value.depth ≤ fieldDepth fields from Nat.lt_succ_of_le this
  induction fields with
  | nil => cases h
  | cons first rest ih =>
    cases h with
    | head => exact Nat.le_max_left _ _
    | tail _ h => exact (ih h).trans (Nat.le_max_right _ _)

theorem hundred_le_peak (value : Json) : 100 ≤ value.peak := by
  unfold peak
  induction value.integers with
  | nil => exact Nat.le_refl _
  | cons n rest ih => exact ih.trans (Nat.le_max_right _ _)

theorem natAbs_le_peak {n : Int} (h : n ∈ value.integers) : n.natAbs ≤ value.peak := by
  unfold peak
  generalize value.integers = ns at h
  induction ns with
  | nil => cases h
  | cons m rest ih =>
    cases h with
    | head => exact Nat.le_max_left _ _
    | tail _ h => exact (ih h).trans (Nat.le_max_right _ _)

end Parts

/-! ### In a request -/

namespace Scope

variable {s : Scope} {n : Int}

theorem hundred_le_peak (s : Scope) : 100 ≤ s.peak := s.request.hundred_le_peak

theorem peak_le_room (s : Scope) : s.peak ≤ s.room :=
  Nat.le_mul_of_pos_right _ s.request.size_pos

theorem mul_le_room {m : Nat} (h : m ≤ s.request.size) : s.peak * m ≤ s.room :=
  Nat.mul_le_mul_left _ h

theorem hundred_mul_le_room {m : Nat} (h : m ≤ s.request.size) : 100 * m ≤ s.room :=
  (Nat.mul_le_mul_right _ s.hundred_le_peak).trans (s.mul_le_room h)

theorem size_le_room (s : Scope) : s.request.size ≤ s.room :=
  Nat.le_mul_of_pos_left _ (Nat.lt_of_lt_of_le (by decide) s.hundred_le_peak)

theorem isWritable (h : n.natAbs ≤ s.room) : Text.isWritable n :=
  decide_eq_true (Nat.lt_of_le_of_lt h s.fits.room)

theorem isWritable_of_le_peak (h : n.natAbs ≤ s.peak) : Text.isWritable n :=
  s.isWritable (h.trans s.peak_le_room)

end Scope

namespace Within

variable {s : Scope} {value outer : Json} {items : List Json} {entries : List (Text × Json)}

theorem request (s : Scope) : s.request.Within s :=
  ⟨List.Subset.refl _, List.Subset.refl _, Nat.le_refl _, Nat.le_refl _⟩

theorem of_parts (h : outer.Within s) (hp : value.parts.Sublist outer.parts)
    (hd : value.depth ≤ outer.depth) : value.Within s where
  texts := List.Subset.trans (hp.filterMap _).subset h.texts
  integers := List.Subset.trans (hp.filterMap _).subset h.integers
  size := hp.length_le.trans h.size
  depth := hd.trans h.depth

theorem null : Json.null.Within s :=
  ⟨List.nil_subset _, List.nil_subset _, s.request.size_pos, Nat.zero_le _⟩

theorem item (h : (Json.array items).Within s) (hv : value ∈ items) : value.Within s :=
  h.of_parts (parts_of_mem_items hv) (depth_of_mem_items hv).le

theorem fields (h : (Json.object entries).Within s) : FieldsWithin s entries := by
  rintro ⟨key, value⟩ he
  have hparts := parts_of_mem_fields he
  constructor
  · exact h.of_parts (List.singleton_sublist.2 (hparts.subset List.mem_cons_self)) (Nat.zero_le _)
  · exact h.of_parts ((List.sublist_cons_self _ _).trans hparts) (depth_of_mem_fields he).le

theorem natAbs_le {n : Int} (h : (Json.int n).Within s) : n.natAbs ≤ s.peak :=
  natAbs_le_peak (h.integers List.mem_cons_self)

theorem legible (h : value.Within s) : value.Legible s.depth where
  nesting := h.depth.trans s.fits.nesting
  writable := fun _ hn => s.isWritable_of_le_peak (natAbs_le_peak (h.integers hn))

end Within

namespace Legible

variable {depth : Nat}

theorem text (t : Text) : (Json.text t).Legible depth := ⟨Nat.zero_le _, List.forall_mem_nil _⟩

theorem int {n : Int} (h : Text.isWritable n) : (Json.int n).Legible depth :=
  ⟨Nat.zero_le _, List.forall_mem_singleton.2 h⟩

end Legible

/-! ### Composed values -/

namespace Writable

theorem int {n : Int} (h : Text.isWritable n) : (Json.int n).Writable :=
  List.forall_mem_singleton.2 h

theorem ofNat {n : Nat} (h : Text.isWritable n) : (Json.ofNat n).Writable := int h

theorem bool (b : Bool) : (Json.bool b).Writable := List.forall_mem_nil _

theorem text (t : Text) : (Json.text t).Writable := List.forall_mem_nil _

theorem array {items : List Json} (h : ∀ item ∈ items, item.Writable) : (array items).Writable := by
  suffices ∀ n ∈ (itemParts items).filterMap integer?, Text.isWritable n from this
  induction items with
  | nil => exact List.forall_mem_nil _
  | cons item rest ih =>
    obtain ⟨hitem, hrest⟩ := List.forall_mem_cons.1 h
    rw [itemParts, List.filterMap_append]
    exact List.forall_mem_append.2 ⟨hitem, ih hrest⟩

theorem record {fields : List (String × Json)} (h : ∀ e ∈ fields, e.2.Writable) :
    (record fields).Writable := by
  suffices ∀ n ∈ (fieldParts (fields.map fun e => (Text.ofString e.1, e.2))).filterMap integer?,
      Text.isWritable n from this
  induction fields with
  | nil => exact List.forall_mem_nil _
  | cons first rest ih =>
    obtain ⟨hfirst, hrest⟩ := List.forall_mem_cons.1 h
    rw [List.map_cons, fieldParts, List.filterMap_cons_none rfl, List.filterMap_append]
    exact List.forall_mem_append.2 ⟨hfirst, ih hrest⟩

end Writable

end Json

/-! ### Values in messages -/

/-- The values that the message of a fault shows. -/
def ValueFault.shown : ValueFault → List Json
  | .cardNumber v | .cardNumberRange v | .suit v | .card v => [v]
  | .trumpNumberRange n | .deckMinimumRange n | .tractorMinCount n | .tractorMinLength n
  | .unitCount n => [.int n]
  | .emptyShape ns | .mixedShape ns => ns.map .int
  | _ => []

def RequestFault.shown : RequestFault → List Json
  | .kind _ _ v | .member _ v _ => [v]
  | .card v cause => v :: cause.elim [] ValueFault.shown
  | .trump v cause | .unit v cause | .player v cause | .deck v cause => v :: cause.shown
  | .requirements cause | .shape cause | .parameters cause => cause.shown
  | _ => []

def PlayFault.shown : PlayFault → List Json
  | .wrongNumberOfCards expected got => [.ofNat expected, .ofNat got]
  | _ => []

def ScoringFault.shown : ScoringFault → List Json
  | .stepNotPositive step | .stepNotMultiple step => [.int step]
  | .noDecks => []

def RulesFault.shown : RulesFault → List Json
  | .request fault => fault.shown
  | .unknownPlayer id => [.int id]
  | .play fault => fault.shown
  | .scoring fault => fault.shown
  | .deckCount count => [.int count]
  | .emptyLead | .mixedLead => []

/-- A fault with a message of one line that the host can write. -/
def ValueFault.Described (depth : Nat) (fault : ValueFault) : Prop :=
  Printable fault.message ∧ ∀ v ∈ fault.shown, v.Legible depth

def RequestFault.Described (depth : Nat) (fault : RequestFault) : Prop :=
  fault.Worded ∧ ∀ v ∈ fault.shown, v.Legible depth

def RulesFault.Described (depth : Nat) (fault : RulesFault) : Prop :=
  Printable fault.message ∧ ∀ v ∈ fault.shown, v.Legible depth

section

variable {depth : Nat}

theorem ValueFault.described {fault : ValueFault} (hs : ∀ v ∈ fault.shown, v.Legible depth)
    (h : ∀ name, fault = .cardField name → Printable name) : fault.Described depth :=
  ⟨printable_message h, hs⟩

theorem RequestFault.Described.rules {fault : RequestFault} (h : fault.Described depth) :
    (RulesFault.request fault).Described depth :=
  ⟨h.1.printable_message, h.2⟩

theorem RulesFault.described {fault : RulesFault} (hs : ∀ v ∈ fault.shown, v.Legible depth)
    (h : ∀ f, fault ≠ .request f) : fault.Described depth :=
  ⟨printable_message fun f hf => absurd hf (h f), hs⟩

end

end TractorRules
