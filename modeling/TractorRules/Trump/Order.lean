import TractorRules.Trump.Basic

/-!
# Order of cards

Under a trump the cards are ordered by effective suit, then rung, then suit.  Sorting and grouping
by effective suit follow that order.
-/

namespace TractorRules

/-- What cards are compared by: effective suit, rung, and the suit to break ties. -/
structure SortKey where
  suit : Nat
  rung : Nat
  tie : Nat
deriving DecidableEq, Repr

namespace SortKey

def le (a b : SortKey) : Prop :=
  a.suit < b.suit ∨ a.suit = b.suit ∧ (a.rung < b.rung ∨ a.rung = b.rung ∧ a.tie ≤ b.tie)

instance (a b : SortKey) : Decidable (a.le b) :=
  inferInstanceAs (Decidable (_ ∨ _ ∧ (_ ∨ _ ∧ _)))

theorem le_refl (a : SortKey) : a.le a := by simp [le]

theorem le_total (a b : SortKey) : a.le b ∨ b.le a := by simp only [le]; omega

theorem le_trans {a b c : SortKey} : a.le b → b.le c → a.le c := by simp only [le]; omega

theorem le_antisymm {a b : SortKey} (h : a.le b) (h' : b.le a) : a = b := by
  obtain ⟨a₁, a₂, a₃⟩ := a
  obtain ⟨b₁, b₂, b₃⟩ := b
  simp only [le] at h h'
  simp only [mk.injEq]
  omega

def compare (a b : SortKey) : Ordering :=
  if a.le b then if b.le a then .eq else .lt else .gt

/-- Whether a list of keys comes before another: at the first difference the lesser key decides, and
a list comes before its extensions. -/
def listLt : List SortKey → List SortKey → Bool
  | _, [] => false
  | [], _ :: _ => true
  | a :: as, b :: bs =>
    match a.compare b with
    | .lt => true
    | .eq => listLt as bs
    | .gt => false

end SortKey

namespace Trump

def sortKey (t : Trump) (c : Card) : SortKey :=
  ⟨(t.effectiveSuit c).index, t.rung c, (c.suit?.map Suit.index).getD 0⟩

def compare (t : Trump) (a b : Card) : Ordering := (t.sortKey a).compare (t.sortKey b)

def cardLe (t : Trump) (a b : Card) : Bool := decide ((t.sortKey a).le (t.sortKey b))

def sort (t : Trump) (cards : List Card) : List Card := cards.mergeSort t.cardLe

/-- Sorted cards of one effective suit. -/
structure SuitGroup where
  suit : EffectiveSuit
  cards : List Card
deriving DecidableEq, Repr

/-- Puts a card in front of the groups: into the first one, if it is of its effective suit. -/
def consGroup (t : Trump) (c : Card) : List SuitGroup → List SuitGroup
  | [] => [⟨t.effectiveSuit c, [c]⟩]
  | g :: rest =>
    if t.effectiveSuit c = g.suit then ⟨g.suit, c :: g.cards⟩ :: rest
    else ⟨t.effectiveSuit c, [c]⟩ :: g :: rest

def groupRuns (t : Trump) (cards : List Card) : List SuitGroup := cards.foldr t.consGroup []

def groupBySuit (t : Trump) (cards : List Card) : List SuitGroup := t.groupRuns (t.sort cards)

end Trump

end TractorRules
