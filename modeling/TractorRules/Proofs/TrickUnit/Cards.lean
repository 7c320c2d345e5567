import TractorRules.TrickUnit.Shape
import TractorRules.Tally
import Mathlib.Algebra.GroupWithZero.Nat
import Mathlib.Data.List.Perm.Subperm

/-!
# Cards of units

How often each card comes in a unit and in a grouping, and what a tally loses with a unit.
-/

namespace TractorRules

/-! ### Units -/

theorem Tractor.members_ne_nil (r : Tractor) : r.members ≠ [] := List.ne_nil_of_length_pos r.length_pos

namespace TrickUnit

theorem members_ne_nil (u : TrickUnit) : u.members ≠ [] := by
  cases u with
  | repeated r => exact List.cons_ne_nil _ _
  | tractor r => exact r.members_ne_nil

theorem count_pos (u : TrickUnit) : 0 < u.count := by
  cases u with
  | repeated r => exact r.count_pos
  | tractor t => exact t.count_pos

theorem shape_copies (u : TrickUnit) : u.shape.copies = u.count := by cases u <;> rfl

theorem eq_of_shape_of_members {u v : TrickUnit} (hs : u.shape = v.shape)
    (hm : u.members = v.members) : u = v := by
  have hc : u.count = v.count := by rw [← shape_copies, ← shape_copies, hs]
  cases u with
  | repeated r =>
    cases v with
    | repeated r' =>
      obtain ⟨c, n, hn⟩ := r
      obtain ⟨c', n', hn'⟩ := r'
      simp only [members, List.cons.injEq, and_true] at hm
      simp only [count] at hc
      subst hm hc
      rfl
    | tractor t' =>
      have htwo := t'.two_le_length
      simp only [members] at hm
      rw [← hm] at htwo
      simp at htwo
  | tractor t =>
    cases v with
    | repeated r' =>
      have htwo := t.two_le_length
      simp only [members] at hm
      rw [hm] at htwo
      simp at htwo
    | tractor t' =>
      obtain ⟨n, ms, hn, hl⟩ := t
      obtain ⟨n', ms', hn', hl'⟩ := t'
      simp only [members] at hm
      simp only [count] at hc
      subst hm hc
      rfl

theorem count_cards (u : TrickUnit) (c : Card) : u.cards.count c = u.count * u.members.count c := by
  cases u with
  | repeated r =>
    simp only [cards, Repeated.cards, count, members, List.count_replicate, List.count_singleton]
    split <;> simp
  | tractor t =>
    simp only [cards, Tractor.cards, count, members]
    induction t.members with
    | nil => simp
    | cons d ds ih =>
      rw [List.flatMap_cons, List.count_append, ih, List.count_cons, List.count_replicate]
      split
      · rw [Nat.mul_add, Nat.mul_one, Nat.add_comm]
      · simp

theorem mem_cards {u : TrickUnit} {c : Card} : c ∈ u.cards ↔ c ∈ u.members := by
  rw [← List.count_pos_iff, ← List.count_pos_iff, count_cards, Nat.mul_pos_iff_of_pos_left u.count_pos]

theorem length_cards (u : TrickUnit) : u.cards.length = u.shape.size := by
  cases u with
  | repeated r => simp [cards, Repeated.cards, shape, UnitShape.size]
  | tractor t =>
    simp only [cards, Tractor.cards, shape, UnitShape.size]
    induction t.members with
    | nil => rfl
    | cons d ds ih =>
      rw [List.flatMap_cons, List.length_append, ih, List.length_replicate, List.length_cons,
        Nat.mul_add, Nat.mul_one, Nat.add_comm]

end TrickUnit

/-! ### Shapes -/

/-- The written form of a shape passes the check of shapes and is read as the shape. -/
theorem UnitShape.ofTuples_tuples (u : UnitShape) : ofTuples (u.tuples.map Int.ofNat) = .ok u := by
  obtain ⟨copies, groups, hc, hg⟩ := u
  obtain ⟨n, rfl⟩ : ∃ n, groups = n + 1 := ⟨groups - 1, by omega⟩
  have hpos : ¬(copies : Int) < 1 := by omega
  have hone : 1 ≤ (copies : Int) := by omega
  simp [ofTuples, tuples, List.replicate_succ, hpos, hone]

namespace Shape

theorem size_eq_sum (s : Shape) : s.size = (s.map UnitShape.size).sum := rfl

theorem size_cons (u : UnitShape) (s : Shape) : size (u :: s) = u.size + size s := rfl

theorem size_perm {s s' : Shape} (h : s.Perm s') : size s = size s' := (h.map _).sum_nat

def structured (s : Shape) : Shape := s.filter (· != .single)

theorem size_structured (s : Shape) : s.size = s.structured.size + s.count .single := by
  induction s with
  | nil => rfl
  | cons u s ih =>
    rw [size_cons, ih, List.count_cons]
    by_cases hu : u = .single
    · subst hu
      have hone : UnitShape.single.size = 1 := rfl
      have hdrop : structured (.single :: s) = structured s := rfl
      rw [hone, hdrop, beq_self_eq_true, if_pos rfl]
      omega
    · have hkeep : structured (u :: s) = u :: structured s :=
        List.filter_cons_of_pos (by simpa using hu)
      rw [hkeep, size_cons, if_neg (by simpa using hu)]
      omega

end Shape

/-! ### Groupings -/

namespace Grouping

theorem cards_cons (u : TrickUnit) (g : Grouping) : cards (u :: g) = u.cards ++ cards g :=
  List.flatMap_cons ..

theorem cards_append (g g' : Grouping) : cards (g ++ g') = cards g ++ cards g' :=
  List.flatMap_append ..

theorem cards_perm {g g' : Grouping} (h : List.Perm g g') : (cards g).Perm (cards g') :=
  h.flatMap_right _

theorem length_cards (g : Grouping) : (cards g).length = Shape.size (g.map TrickUnit.shape) := by
  induction g with
  | nil => rfl
  | cons u g ih =>
    rw [cards_cons, List.length_append, ih, u.length_cards]
    rfl

end Grouping

/-! ### Tallies -/

theorem Tally.insert_comm (held : Tally) (c d : Card) :
    (held.insert c).insert d = (held.insert d).insert c := by
  by_cases h : c = d
  · rw [h]
  · have hi : (c.index : Nat) ≠ d.index := fun e => h (Card.index_injective (Fin.ext e))
    have hc : (held.insert c).count d = held.count d := by simp [count_insert, h]
    have hd : (held.insert d).count c = held.count c := by simp [count_insert, Ne.symm h]
    calc (held.insert c).insert d = (held.insert c).set d (held.count d + 1) := by
          rw [← hc, insert]
      _ = (held.insert d).set c (held.count c + 1) := by
          simp only [insert, set]
          rw [Vector.set_comm _ _ hi]
      _ = (held.insert d).insert c := by
          rw [← hd, ← insert]

theorem Tally.ofList_perm {cards cards' : List Card} (h : cards.Perm cards') :
    ofList cards = ofList cards' :=
  h.foldl_eq' (fun c _ d _ held => held.insert_comm c d) empty

theorem Tally.count_removeEach (held : Tally) (cs : List Card) (n : Nat) (c : Card) :
    (held.removeEach cs n).count c = held.count c - n * cs.count c := by
  induction cs generalizing held with
  | nil => simp [removeEach]
  | cons d ds ih =>
    have hstep : held.removeEach (d :: ds) n = (held.remove d n).removeEach ds n := rfl
    rw [hstep, ih, count_remove, List.count_cons]
    by_cases hd : d = c
    · subst hd
      simp only [if_true, beq_self_eq_true, Nat.mul_add, Nat.mul_one]
      omega
    · simp [hd]

end TractorRules
