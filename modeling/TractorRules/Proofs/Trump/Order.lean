import TractorRules.Trump.Order
import Mathlib.Data.List.Sort

/-!
# Order of cards

The sort key separates all cards under every trump (`sortKey_injective`), so that sorting has one
result for a multiset of cards, and a card one rung up comes later in a sorted list.
-/

namespace TractorRules

/-! ### Sorting -/

/-- Where no two members tie, the order in which they came leaves no trace. -/
theorem mergeSort_eq_of_perm {α : Type} {le : α → α → Bool} {xs ys : List α}
    (trans : ∀ a b c, le a b = true → le b c = true → le a c = true)
    (total : ∀ a b, (le a b || le b a) = true)
    (antisymm : ∀ a b, a ∈ xs → b ∈ xs → le a b = true → le b a = true → a = b) (h : xs.Perm ys) :
    xs.mergeSort le = ys.mergeSort le := by
  have hsorted (zs : List α) := List.pairwise_mergeSort trans total zs
  have hperm := (List.mergeSort_perm xs le).trans (h.trans (List.mergeSort_perm ys le).symm)
  refine hperm.eq_of_pairwise (fun a b ha hb => ?_) (hsorted xs) (hsorted ys)
  exact antisymm a b (List.mem_mergeSort.mp ha) (h.mem_iff.mpr (List.mem_mergeSort.mp hb))

/-! ### Lists of keys -/

namespace SortKey

theorem compare_eq_lt {a b : SortKey} : a.compare b = .lt ↔ a.le b ∧ a ≠ b := by
  unfold compare
  by_cases hab : a.le b
  · by_cases hba : b.le a
    · obtain rfl := le_antisymm hab hba
      simp [hab]
    · have hne : a ≠ b := fun e => hba (e ▸ le_refl a)
      simp [hab, hba, hne]
  · simp [hab]

theorem compare_eq_eq {a b : SortKey} : a.compare b = .eq ↔ a = b := by
  unfold compare
  by_cases hab : a.le b
  · by_cases hba : b.le a
    · obtain rfl := le_antisymm hab hba
      simp [hab]
    · have hne : a ≠ b := fun e => hba (e ▸ le_refl a)
      simp [hab, hba, hne]
  · have hne : a ≠ b := fun e => hab (e ▸ le_refl a)
    simp [hab, hne]

theorem listLt_cons {a b : SortKey} {as bs : List SortKey} :
    listLt (a :: as) (b :: bs) = true ↔ (a.le b ∧ a ≠ b) ∨ a = b ∧ listLt as bs = true := by
  rw [listLt]
  split
  · rename_i h
    simp [compare_eq_lt.mp h]
  · rename_i h
    simp [compare_eq_eq.mp h]
  · rename_i h
    have heq : a ≠ b := fun e => by simp [compare_eq_eq.mpr e] at h
    have hle : ¬a.le b := fun hle => by simp [compare_eq_lt.mpr ⟨hle, heq⟩] at h
    simp [hle, heq]

theorem listLt_irrefl (as : List SortKey) : listLt as as = false := by
  induction as with
  | nil => rfl
  | cons a as ih =>
    rw [Bool.eq_false_iff]
    intro h
    rcases listLt_cons.mp h with ⟨-, hne⟩ | ⟨-, h⟩
    · exact hne rfl
    · rw [ih] at h
      contradiction

theorem listLt_trans {as bs cs : List SortKey} (hab : listLt as bs = true)
    (hbc : listLt bs cs = true) : listLt as cs = true := by
  induction as generalizing bs cs with
  | nil =>
    cases cs with
    | nil => cases bs <;> simp [listLt] at hbc
    | cons c cs => rfl
  | cons a as ih =>
    cases bs with
    | nil => simp [listLt] at hab
    | cons b bs =>
      cases cs with
      | nil => simp [listLt] at hbc
      | cons c cs =>
        rw [listLt_cons] at *
        rcases hab with ⟨hab, hne⟩ | ⟨rfl, hab⟩
        · rcases hbc with ⟨hbc, hne'⟩ | ⟨rfl, -⟩
          · refine Or.inl ⟨le_trans hab hbc, fun e => hne ?_⟩
            subst e
            exact le_antisymm hab hbc
          · exact Or.inl ⟨hab, hne⟩
        · rcases hbc with ⟨hbc, hne'⟩ | ⟨rfl, hbc⟩
          · exact Or.inl ⟨hbc, hne'⟩
          · exact Or.inr ⟨rfl, ih hab hbc⟩

theorem eq_of_not_listLt {as bs : List SortKey} (h : listLt as bs = false)
    (h' : listLt bs as = false) : as = bs := by
  induction as generalizing bs with
  | nil =>
    cases bs with
    | nil => rfl
    | cons b bs => simp [listLt] at h
  | cons a as ih =>
    cases bs with
    | nil => simp [listLt] at h'
    | cons b bs =>
      rw [Bool.eq_false_iff, Ne, listLt_cons, not_or, not_and, not_and] at h h'
      have hab : a = b := by
        by_contra hne
        rcases le_total a b with hle | hle
        · exact h.1 hle hne
        · exact h'.1 hle (Ne.symm hne)
      subst hab
      rw [ih (Bool.eq_false_iff.mpr (h.2 rfl)) (Bool.eq_false_iff.mpr (h'.2 rfl))]

theorem not_listLt_trans {as bs cs : List SortKey} (hab : listLt bs as = false)
    (hbc : listLt cs bs = false) : listLt cs as = false := by
  rw [Bool.eq_false_iff]
  intro hca
  cases hlt : listLt as bs with
  | true =>
    have hcb := listLt_trans hca hlt
    rw [hbc] at hcb
    contradiction
  | false =>
    rw [eq_of_not_listLt hlt hab, hbc] at hca
    contradiction

/-- Of several things one has a key that no other's key is below. -/
theorem exists_lowest {α : Type} (key : α → List SortKey) {xs : List α} (h : xs ≠ []) :
    ∃ x ∈ xs, ∀ y ∈ xs, listLt (key y) (key x) = false := by
  induction xs with
  | nil => exact absurd rfl h
  | cons z zs ih =>
    by_cases hz : zs = []
    · subst hz
      exact ⟨z, by simp, by simp [listLt_irrefl]⟩
    · obtain ⟨x, hx, hlow⟩ := ih hz
      cases hlt : listLt (key z) (key x) with
      | false =>
        refine ⟨x, List.mem_cons_of_mem _ hx, fun y hy => ?_⟩
        rcases List.mem_cons.mp hy with rfl | hy
        · exact hlt
        · exact hlow y hy
      | true =>
        refine ⟨z, by simp, fun y hy => ?_⟩
        rcases List.mem_cons.mp hy with rfl | hy
        · exact listLt_irrefl _
        · rw [Bool.eq_false_iff]
          intro hyz
          have hyx := listLt_trans hyz hlt
          rw [hlow y hy] at hyx
          contradiction

end SortKey

/-! ### Keys of cards -/

theorem Suit.index_injective {s s' : Suit} (h : s.index = s'.index) : s = s' := by
  cases s <;> cases s' <;> first | rfl | exact absurd h (by decide)

theorem Rank.ext_number {r r' : Rank} (h : r.number = r'.number) : r = r' := by
  cases r
  cases r'
  simpa using h

namespace Trump

variable (t : Trump)

theorem plainRung_lt {r : Rank} (h : t.rank ≠ some r) :
    t.plainRung r < if t.rank = none then 13 else 12 := by
  have hlo := r.two_le
  have hhi := r.le_ace
  cases hk : t.rank with
  | none =>
    simp only [plainRung, hk, if_true]
    omega
  | some k =>
    have hlo' := k.two_le
    have hhi' := k.le_ace
    have hne : k.number ≠ r.number := fun e => h (by rw [hk, Rank.ext_number e])
    simp only [plainRung, hk, reduceCtorEq, if_false]
    split <;> omega

theorem plainRung_injective {r r' : Rank} (h : t.rank ≠ some r) (h' : t.rank ≠ some r')
    (he : t.plainRung r = t.plainRung r') : r = r' := by
  have hlo := r.two_le
  have hlo' := r'.two_le
  apply Rank.ext_number
  cases hk : t.rank with
  | none =>
    simp only [plainRung, hk] at he
    omega
  | some k =>
    have hlok := k.two_le
    have hne : k.number ≠ r.number := fun e => h (by rw [hk, Rank.ext_number e])
    have hne' : k.number ≠ r'.number := fun e => h' (by rw [hk, Rank.ext_number e])
    simp only [plainRung, hk] at he
    split at he <;> split at he <;> omega

theorem rung_lt_of_isTrump {s : Suit} {r : Rank} (h : t.isTrump (.suited s r)) :
    t.rung (.suited s r) < t.rungsBelowJokers := by
  simp only [isTrump, Bool.or_eq_true, beq_iff_eq] at h
  by_cases hr : t.rank = some r
  · cases hs : t.suit with
    | none => simp [rung, rungsBelowJokers, suitRungs, hr, hs]
    | some s' =>
      have hle : (if some s' = some s then 1 else 0) ≤ 1 := by split <;> omega
      simp only [rung, rungsBelowJokers, suitRungs, hr, hs, if_true]
      omega
  · have hs : t.suit = some s := h.resolve_left hr
    have hlt := t.plainRung_lt hr
    cases hk : t.rank with
    | none =>
      simp only [hk, if_true] at hlt
      simp only [rung, rungsBelowJokers, suitRungs, hk, hs, reduceCtorEq, if_false]
      omega
    | some k =>
      have hne : (some k : Option Rank) ≠ some r := hk ▸ hr
      simp only [hk, reduceCtorEq, if_false] at hlt
      simp only [rung, rungsBelowJokers, suitRungs, hk, hs, hne, if_false]
      omega

theorem effectiveSuit_eq_trump {c : Card} : t.effectiveSuit c = .trump ↔ t.isTrump c = true := by
  cases c with
  | joker j => simp [effectiveSuit, isTrump]
  | suited s r =>
    simp only [effectiveSuit]
    split <;> simp_all

end Trump

theorem EffectiveSuit.index_injective {e e' : EffectiveSuit} (h : e.index = e'.index) : e = e' := by
  cases e with
  | trump =>
    cases e' with
    | trump => rfl
    | plain s => exact absurd h (by have := s.index_lt; simp only [index]; omega)
  | plain s =>
    cases e' with
    | trump => exact absurd h (by have := s.index_lt; simp only [index]; omega)
    | plain s' =>
      have hs : s = s' := Suit.index_injective h
      rw [hs]

namespace Trump

variable (t : Trump)

theorem suited_rank_eq {s : Suit} {r r' : Rank}
    (he : t.effectiveSuit (.suited s r) = t.effectiveSuit (.suited s r'))
    (hr : t.rung (.suited s r) = t.rung (.suited s r')) : r = r' := by
  -- a card of the trump rank stands above every card of the trump suit that is not
  have above {q q' : Rank} (hq : t.rank = some q) (hq' : t.rank ≠ some q')
      (he : t.effectiveSuit (.suited s q) = t.effectiveSuit (.suited s q')) :
      t.rung (.suited s q') < t.rung (.suited s q) := by
    have htr : t.effectiveSuit (.suited s q) = .trump := by
      rw [effectiveSuit_eq_trump]
      simp [isTrump, hq]
    have hs : t.suit = some s := by
      rw [he, effectiveSuit_eq_trump] at htr
      simpa [isTrump, hq'] using htr
    have hlt := t.plainRung_lt hq'
    simp only [hq, reduceCtorEq, if_false] at hlt
    have hne : (some q : Option Rank) ≠ some q' := hq ▸ hq'
    simp only [rung, hq, hne, hs, if_true, if_false, suitRungs]
    omega
  by_cases h : t.rank = some r <;> by_cases h' : t.rank = some r'
  · exact Option.some.inj (h.symm.trans h')
  · have := above h h' he
    omega
  · have := above h' h he.symm
    omega
  · simp only [rung, if_neg h, if_neg h'] at hr
    exact t.plainRung_injective h h' hr

theorem suited_key_ne_joker {s : Suit} {r : Rank} {j : Joker} :
    t.sortKey (.suited s r) ≠ t.sortKey (.joker j) := by
  intro h
  simp only [sortKey, SortKey.mk.injEq] at h
  have htr : t.isTrump (.suited s r) = true := by
    rw [← effectiveSuit_eq_trump]
    exact EffectiveSuit.index_injective h.1
  have hlt := t.rung_lt_of_isTrump htr
  have hr : t.rung (.suited s r) = t.rungsBelowJokers + j.index := h.2.1
  omega

/-- No two cards have the same key, whatever the trump. -/
theorem sortKey_injective {a b : Card} (h : t.sortKey a = t.sortKey b) : a = b := by
  cases a with
  | suited s r =>
    cases b with
    | suited s' r' =>
      simp only [sortKey, SortKey.mk.injEq, Card.suit?, Option.map_some, Option.getD_some] at h
      obtain ⟨he, hr, hs⟩ := h
      obtain rfl := Suit.index_injective hs
      rw [t.suited_rank_eq (EffectiveSuit.index_injective he) hr]
    | joker j => exact absurd h t.suited_key_ne_joker
  | joker j =>
    cases b with
    | suited s r => exact absurd h.symm t.suited_key_ne_joker
    | joker j' =>
      simp only [sortKey, SortKey.mk.injEq, rung] at h
      have hj : j.index = j'.index := by omega
      cases j <;> cases j' <;> first | rfl | exact absurd hj (by decide)

/-! ### Sorting -/

theorem cardLe_iff {a b : Card} : t.cardLe a b = true ↔ (t.sortKey a).le (t.sortKey b) := by
  simp [cardLe]

theorem cardLe_trans (a b c : Card) (hab : t.cardLe a b = true) (hbc : t.cardLe b c = true) :
    t.cardLe a c = true :=
  t.cardLe_iff.mpr (SortKey.le_trans (t.cardLe_iff.mp hab) (t.cardLe_iff.mp hbc))

theorem cardLe_total (a b : Card) : (t.cardLe a b || t.cardLe b a) = true := by
  rw [Bool.or_eq_true, cardLe_iff, cardLe_iff]
  exact SortKey.le_total _ _

theorem cardLe_antisymm {a b : Card} (hab : t.cardLe a b = true) (hba : t.cardLe b a = true) :
    a = b :=
  t.sortKey_injective (SortKey.le_antisymm (t.cardLe_iff.mp hab) (t.cardLe_iff.mp hba))

theorem sort_perm (cards : List Card) : (t.sort cards).Perm cards := List.mergeSort_perm _ _

theorem pairwise_sort (cards : List Card) :
    (t.sort cards).Pairwise fun a b => t.cardLe a b = true :=
  List.pairwise_mergeSort t.cardLe_trans t.cardLe_total cards

/-- Cards in a different order are sorted to the same list. -/
theorem sort_eq_of_perm {cards cards' : List Card} (h : cards.Perm cards') :
    t.sort cards = t.sort cards' :=
  mergeSort_eq_of_perm t.cardLe_trans t.cardLe_total (fun _ _ _ _ => t.cardLe_antisymm) h

/-- A list of distinct cards in a sorted list's order is a part of it as soon as its cards are. -/
theorem sublist_of_subset {run order : List Card} (hn : run.Nodup) (hsub : run ⊆ order)
    (hr : run.Pairwise fun a b => t.cardLe a b = true)
    (ho : order.Pairwise fun a b => t.cardLe a b = true) : run.Sublist order := by
  have : Std.Antisymm fun a b => t.cardLe a b = true := ⟨fun _ _ => t.cardLe_antisymm⟩
  exact List.sublist_of_subperm_of_pairwise (List.subperm_of_subset hn hsub) hr ho

end Trump

end TractorRules
