import TractorRules.Proofs.TrickUnit.Cards
import TractorRules.Format.Decomposition
import Mathlib.Algebra.BigOperators.Group.Multiset.Basic
import Mathlib.Logic.Relation

/-!
# Decomposition of a format

The rows of a decomposition are the format's own shape and, each in its canonical order, the other
multisets of units that come from it by weakening one unit at a time (`mem_decomposition_iff`).
Weakening keeps the number of cards and makes more units, so that the search level by level misses
nothing, and it ends in single cards.
-/

namespace TractorRules

/-! ### Weakening one unit -/

/-- A unit is replaced by weaker parts: a run is split in two, or lowered by one copy of each card,
which leaves only singles when fewer than pairs are left, or a tuple is lowered by one card. -/
inductive UnitShape.WeakensInto : UnitShape → Shape → Prop
  | split (copies k l : Nat) (hc : 0 < copies) (hk : 0 < k) (hl : 0 < l) :
    WeakensInto ⟨copies, k + l, hc, by omega⟩ [⟨copies, k, hc, hk⟩, ⟨copies, l, hc, hl⟩]
  | lower (copies groups : Nat) (hc : 2 ≤ copies) (hg : 2 ≤ groups) :
    WeakensInto ⟨copies + 1, groups, by omega, by omega⟩
      (⟨copies, groups, by omega, by omega⟩ :: List.replicate groups .single)
  | scatter (u : UnitShape) (hc : u.copies ≤ 2) (hg : 2 ≤ u.groups) :
    WeakensInto u (List.replicate u.size .single)
  | reduce (copies : Nat) (hc : 0 < copies) :
    WeakensInto ⟨copies + 1, 1, by omega, by omega⟩ [⟨copies, 1, hc, by omega⟩, .single]

namespace UnitShape

theorem size_pos (u : UnitShape) : 0 < u.size := Nat.mul_pos u.copies_pos u.groups_pos

theorem weakensInto_of_mem {u : UnitShape} {parts : Shape} (h : parts ∈ u.weakenings) :
    u.WeakensInto parts := by
  obtain ⟨copies, groups, hc, hg⟩ := u
  unfold weakenings at h
  by_cases hrun : 1 < groups
  · simp only [hrun, if_true, List.mem_append, List.mem_filterMap, List.mem_range,
      List.mem_singleton] at h
    rcases h with ⟨k, hk, he⟩ | he
    · obtain ⟨l, rfl⟩ : ∃ l, groups = k + 1 + l := ⟨groups - (k + 1), by omega⟩
      rw [dif_pos (by omega), Option.some.injEq] at he
      subst he
      simp only [Nat.add_sub_cancel_left]
      exact .split copies (k + 1) l hc (by omega) (by omega)
    · by_cases h3 : 3 ≤ copies
      · obtain ⟨n, rfl⟩ : ∃ n, copies = n + 1 := ⟨copies - 1, by omega⟩
        rw [dif_pos h3] at he
        subst he
        exact .lower n groups (by omega) (by omega)
      · rw [dif_neg h3] at he
        subst he
        exact .scatter _ (by simp only; omega) (by simp only; omega)
  · obtain rfl : groups = 1 := by omega
    simp only [hrun, if_false] at h
    split at h
    · obtain ⟨n, rfl⟩ : ∃ n, copies = n + 1 := ⟨copies - 1, by omega⟩
      rw [List.mem_singleton] at h
      subst h
      exact .reduce n (by omega)
    · simp at h

theorem mem_of_weakensInto {u : UnitShape} {parts : Shape} (h : u.WeakensInto parts) :
    parts ∈ u.weakenings := by
  cases h with
  | split copies k l hc hk hl =>
    have hrun : 1 < k + l := by omega
    have hlt : k - 1 + 1 < k + l := by omega
    unfold weakenings
    simp only [hrun, if_true, List.mem_append, List.mem_filterMap, List.mem_range]
    refine Or.inl ⟨k - 1, by omega, ?_⟩
    rw [dif_pos hlt]
    simp only [Nat.sub_add_cancel hk, Nat.add_sub_cancel_left]
  | lower copies groups hc hg =>
    have hrun : 1 < groups := by omega
    have h3 : 3 ≤ copies + 1 := by omega
    unfold weakenings
    simp [hrun, h3]
  | scatter u hc hg =>
    have hrun : 1 < u.groups := by omega
    have h3 : ¬3 ≤ u.copies := by omega
    unfold weakenings
    simp [hrun, h3]
  | reduce copies hc =>
    have h2 : 1 < copies + 1 := by omega
    unfold weakenings
    simp [h2]

theorem mem_weakenings {u : UnitShape} {parts : Shape} :
    parts ∈ u.weakenings ↔ u.WeakensInto parts := ⟨weakensInto_of_mem, mem_of_weakensInto⟩

theorem size_replicate_single (n : Nat) : Shape.size (List.replicate n single) = n := by
  simp [Shape.size_eq_sum, size, single]

theorem WeakensInto.size_eq {u : UnitShape} {parts : Shape} (h : u.WeakensInto parts) :
    Shape.size parts = u.size := by
  cases h with
  | split copies k l hc hk hl => simp [Shape.size, size, Nat.mul_add]
  | lower copies groups hc hg =>
    rw [Shape.size_cons, size_replicate_single]
    simp [size, Nat.add_mul]
  | scatter u hc hg => exact size_replicate_single _
  | reduce copies hc => simp [Shape.size, size, single]

theorem WeakensInto.two_le_length {u : UnitShape} {parts : Shape} (h : u.WeakensInto parts) :
    2 ≤ parts.length := by
  cases h with
  | split copies k l hc hk hl => simp
  | lower copies groups hc hg => simp; omega
  | scatter u hc hg =>
    rw [List.length_replicate]
    exact hg.trans (Nat.le_mul_of_pos_left _ u.copies_pos)
  | reduce copies hc => simp

theorem WeakensInto.copies_le {u v : UnitShape} {parts : Shape} (h : u.WeakensInto parts)
    (hv : v ∈ parts) : v.copies ≤ u.copies := by
  cases h with
  | split copies k l hc hk hl =>
    rcases List.mem_pair.mp hv with rfl | rfl
    · exact Nat.le_refl _
    · exact Nat.le_refl _
  | lower copies groups hc hg =>
    rcases List.mem_cons.mp hv with rfl | hv
    · exact Nat.le_succ _
    · rw [List.eq_of_mem_replicate hv]
      exact Nat.succ_le_succ (Nat.zero_le _)
  | scatter u hc hg =>
    rw [List.eq_of_mem_replicate hv]
    exact u.copies_pos
  | reduce copies hc =>
    rcases List.mem_pair.mp hv with rfl | rfl
    · exact Nat.le_succ _
    · exact Nat.succ_le_succ (Nat.zero_le _)

/-- No run of single cards comes out of a unit that is none. -/
theorem WeakensInto.groups_eq_one {u v : UnitShape} {parts : Shape} (h : u.WeakensInto parts)
    (hu : u.copies = 1 → u.groups = 1) (hv : v ∈ parts) (hone : v.copies = 1) : v.groups = 1 := by
  cases h with
  | split copies k l hc hk hl =>
    have hcopies : copies = 1 := by
      rcases List.mem_pair.mp hv with rfl | rfl
      · exact hone
      · exact hone
    have hgroups := hu hcopies
    simp only at hgroups
    omega
  | lower copies groups hc hg =>
    rcases List.mem_cons.mp hv with rfl | hv
    · simp only at hone
      omega
    · rw [List.eq_of_mem_replicate hv]
      rfl
  | scatter u hc hg =>
    rw [List.eq_of_mem_replicate hv]
    rfl
  | reduce copies hc =>
    rcases List.mem_pair.mp hv with rfl | rfl
    · rfl
    · rfl

theorem exists_weakensInto {u : UnitShape} (h : u ≠ single) : ∃ parts, u.WeakensInto parts := by
  obtain ⟨copies, groups, hc, hg⟩ := u
  by_cases hrun : 1 < groups
  · obtain ⟨l, rfl⟩ : ∃ l, groups = 1 + l := ⟨groups - 1, by omega⟩
    exact ⟨_, .split copies 1 l hc (by omega) (by omega)⟩
  · obtain rfl : groups = 1 := by omega
    have hne : copies ≠ 1 := fun e => h (by simp [single, e])
    obtain ⟨n, rfl⟩ : ∃ n, copies = n + 1 := ⟨copies - 1, by omega⟩
    exact ⟨_, .reduce n (by omega)⟩

end UnitShape

/-! ### Weakening a shape -/

def Weakens (s t : Multiset UnitShape) : Prop :=
  ∃ u ∈ s, ∃ parts, u.WeakensInto parts ∧ t = s.erase u + (parts : Multiset UnitShape)

abbrev WeakensTo : Multiset UnitShape → Multiset UnitShape → Prop := Relation.ReflTransGen Weakens

def totalSize (s : Multiset UnitShape) : Nat := (s.map UnitShape.size).sum

theorem totalSize_coe (s : Shape) : totalSize s = s.size := by
  simp [totalSize, Shape.size_eq_sum]

theorem totalSize_add (s t : Multiset UnitShape) :
    totalSize (s + t) = totalSize s + totalSize t := by simp [totalSize]

theorem totalSize_cons (u : UnitShape) (s : Multiset UnitShape) :
    totalSize (u ::ₘ s) = u.size + totalSize s := by simp [totalSize]

theorem card_le_totalSize (s : Multiset UnitShape) : s.card ≤ totalSize s := by
  induction s using Multiset.induction_on with
  | empty => simp
  | cons u s ih =>
    have hu := u.size_pos
    rw [Multiset.card_cons, totalSize_cons]
    omega

theorem Weakens.totalSize_eq {s t : Multiset UnitShape} (h : Weakens s t) :
    totalSize t = totalSize s := by
  obtain ⟨u, hu, parts, hp, rfl⟩ := h
  have hs : totalSize (u ::ₘ s.erase u) = totalSize s := by rw [Multiset.cons_erase hu]
  rw [totalSize_add, totalSize_coe, hp.size_eq, ← hs, totalSize_cons]
  omega

theorem Weakens.card_lt {s t : Multiset UnitShape} (h : Weakens s t) : s.card < t.card := by
  obtain ⟨u, hu, parts, hp, rfl⟩ := h
  have hs : (u ::ₘ s.erase u).card = s.card := by rw [Multiset.cons_erase hu]
  have hlen := hp.two_le_length
  rw [Multiset.card_cons] at hs
  rw [Multiset.card_add, Multiset.coe_card]
  omega

theorem WeakensTo.totalSize_eq {s t : Multiset UnitShape} (h : WeakensTo s t) :
    totalSize t = totalSize s := by
  induction h with
  | refl => rfl
  | tail _ hstep ih => rw [hstep.totalSize_eq, ih]

theorem WeakensTo.card_le {s t : Multiset UnitShape} (h : WeakensTo s t) : s.card ≤ t.card := by
  induction h with
  | refl => exact Nat.le_refl _
  | tail _ hstep ih => exact ih.trans hstep.card_lt.le

/-- What the parts of a weakened unit take over from it, the units of every weaker shape take over
from those of the shape. -/
theorem WeakensTo.forall_units {p : UnitShape → Prop}
    (hp : ∀ u parts, u.WeakensInto parts → p u → ∀ v ∈ parts, p v) {s t : Multiset UnitShape}
    (h : WeakensTo s t) (hs : ∀ u ∈ s, p u) : ∀ u ∈ t, p u := by
  induction h with
  | refl => exact hs
  | tail _ hstep ih =>
    obtain ⟨u, hu, parts, hparts, rfl⟩ := hstep
    intro v hv
    cases Multiset.mem_add.mp hv with
    | inl hkept => exact ih v (Multiset.mem_of_mem_erase hkept)
    | inr hpart => exact hp u parts hparts (ih u hu) v (Multiset.mem_coe.mp hpart)

/-- Every shape can be weakened to single cards: as long as a unit is more than that there is a
weaker shape, and it has more units. -/
theorem weakensTo_singles (s : Multiset UnitShape) :
    WeakensTo s (Multiset.replicate (totalSize s) .single) := by
  generalize hn : totalSize s - s.card = n
  induction n using Nat.strongRecOn generalizing s with
  | ind n ih =>
    by_cases h : ∃ u ∈ s, u ≠ UnitShape.single
    · obtain ⟨u, hu, hne⟩ := h
      obtain ⟨parts, hp⟩ := UnitShape.exists_weakensInto hne
      obtain ⟨t, hstep⟩ : ∃ t, Weakens s t := ⟨_, u, hu, parts, hp, rfl⟩
      have hcard := hstep.card_lt
      have hsize := hstep.totalSize_eq
      have hle := card_le_totalSize t
      have hrest := ih (totalSize t - t.card) (by omega) t rfl
      rw [hsize] at hrest
      exact .head hstep hrest
    · push Not at h
      have hs : s = Multiset.replicate s.card .single := Multiset.eq_replicate_card.mpr h
      have hcard : totalSize s = s.card := by
        rw [hs]
        simp [totalSize, UnitShape.size, UnitShape.single]
      rw [hcard, ← hs]

/-! ### Canonical order -/

namespace Shape

theorem unitLe_iff {a b : UnitShape} :
    unitLe a b = true ↔ b.copies < a.copies ∨ a.copies = b.copies ∧ b.groups ≤ a.groups := by
  simp [unitLe]

theorem canonical_perm (s : Shape) : s.canonical.Perm s := List.mergeSort_perm _ _

theorem pairwise_canonical (s : Shape) : s.canonical.Pairwise fun a b => unitLe a b = true := by
  refine List.pairwise_mergeSort (fun a b c hab hbc => ?_) (fun a b => ?_) s
  · rw [unitLe_iff] at *
    omega
  · rw [Bool.or_eq_true, unitLe_iff, unitLe_iff]
    omega

/-- The canonical order is the same for equal multisets of units. -/
theorem canonical_eq_iff {s t : Shape} : s.canonical = t.canonical ↔ s.Perm t := by
  constructor
  · intro h
    exact (canonical_perm s).symm.trans (h ▸ canonical_perm t)
  · intro h
    refine List.Perm.eq_of_pairwise (fun a b _ _ hab hba => ?_) (pairwise_canonical s)
      (pairwise_canonical t) ((canonical_perm s).trans (h.trans (canonical_perm t).symm))
    rw [unitLe_iff] at hab hba
    obtain ⟨copies, groups, hc, hg⟩ := a
    obtain ⟨copies', groups', hc', hg'⟩ := b
    simp only [UnitShape.mk.injEq] at *
    omega

theorem canonical_canonical (s : Shape) : s.canonical.canonical = s.canonical :=
  canonical_eq_iff.mpr (canonical_perm s)

theorem canonical_coe (s : Shape) : (s.canonical : Multiset UnitShape) = s :=
  Multiset.coe_eq_coe.mpr (canonical_perm s)

/-! ### Shapes one step weaker -/

theorem perm_of_mem_picks {α : Type} {x : α} {xs ys : List α} (h : (x, ys) ∈ picks xs) :
    xs.Perm (x :: ys) := by
  induction xs generalizing x ys with
  | nil => simp [picks] at h
  | cons z zs ih =>
    simp only [picks, List.mem_cons, Prod.mk.injEq, List.mem_map, Prod.exists] at h
    rcases h with ⟨rfl, rfl⟩ | ⟨y, zs', hy, rfl, rfl⟩
    · exact .refl _
    · exact ((ih hy).cons z).trans (.swap _ _ _)

theorem exists_mem_picks {α : Type} {x : α} {xs : List α} (h : x ∈ xs) :
    ∃ ys, (x, ys) ∈ picks xs := by
  induction xs with
  | nil => simp at h
  | cons z zs ih =>
    rcases List.mem_cons.mp h with rfl | h
    · exact ⟨zs, by simp [picks]⟩
    · obtain ⟨ys, hys⟩ := ih h
      exact ⟨z :: ys, List.mem_cons_of_mem _ (List.mem_map.mpr ⟨(x, ys), hys, rfl⟩)⟩

theorem mem_reductions_iff {s t : Shape} :
    t ∈ s.reductions ↔ t.canonical = t ∧ Weakens (s : Multiset UnitShape) t := by
  simp only [reductions, List.mem_flatMap, List.mem_map, Prod.exists]
  constructor
  · intro h
    obtain ⟨u, rest, hpick, parts, hp, rfl⟩ := h
    refine ⟨canonical_canonical _, u, ?_, parts, UnitShape.mem_weakenings.mp hp, ?_⟩
    · exact (perm_of_mem_picks hpick).mem_iff.mpr (by simp)
    · have hs : (s : Multiset UnitShape) = u ::ₘ (rest : Multiset UnitShape) :=
        Multiset.coe_eq_coe.mpr (perm_of_mem_picks hpick)
      rw [canonical_coe, hs, Multiset.erase_cons_head, Multiset.coe_add]
  · intro h
    obtain ⟨hcanon, u, hu, parts, hp, ht⟩ := h
    obtain ⟨rest, hpick⟩ := exists_mem_picks (Multiset.mem_coe.mp hu)
    refine ⟨u, rest, hpick, parts, UnitShape.mem_weakenings.mpr hp, ?_⟩
    have hs : (s : Multiset UnitShape) = u ::ₘ (rest : Multiset UnitShape) :=
      Multiset.coe_eq_coe.mpr (perm_of_mem_picks hpick)
    rw [hs, Multiset.erase_cons_head, Multiset.coe_add] at ht
    rw [← hcanon]
    exact canonical_eq_iff.mpr (Multiset.coe_eq_coe.mp ht).symm

/-! ### The search level by level -/

theorem mem_distinct {shapes : List Shape} {s : Shape} : s ∈ distinct shapes ↔ s ∈ shapes := by
  simp [distinct]

theorem length_le_size (s : Shape) : s.length ≤ s.size := by
  have h := card_le_totalSize (s : Multiset UnitShape)
  rwa [totalSize_coe, Multiset.coe_card] at h

/-- The shapes of a level: those pending that have just so many units, each once. -/
def level (units : Nat) (pending : List Shape) : List Shape :=
  distinct (pending.filter (·.length == units))

/-- What is pending after a level. -/
def afterLevel (units : Nat) (pending : List Shape) : List Shape :=
  (level units pending).flatMap reductions ++ pending.filter fun s => !(s.length == units)

/-- What all pending shapes have in common when a level is reached. -/
def AllPending (n units : Nat) (pending : List Shape) : Prop :=
  ∀ s ∈ pending, s.canonical = s ∧ s.size = n ∧ units ≤ s.length

theorem derived_succ (levels units : Nat) (pending : List Shape) :
    derived (levels + 1) units pending =
      level units pending ++ derived levels (units + 1) (afterLevel units pending) := by
  rw [derived, List.partition_eq_filter_filter]
  rfl

theorem mem_level_iff {units : Nat} {pending : List Shape} {s : Shape} :
    s ∈ level units pending ↔ s ∈ pending ∧ s.length = units := by
  rw [level, mem_distinct, List.mem_filter, beq_iff_eq]

theorem mem_afterLevel_iff {units : Nat} {pending : List Shape} {s : Shape} :
    s ∈ afterLevel units pending ↔
      (∃ m ∈ level units pending, s ∈ m.reductions) ∨ s ∈ pending ∧ s.length ≠ units := by
  rw [afterLevel, List.mem_append, List.mem_flatMap, List.mem_filter, Bool.not_eq_true',
    beq_eq_false_iff_ne]

theorem AllPending.afterLevel {n units : Nat} {pending : List Shape}
    (hp : AllPending n units pending) : AllPending n (units + 1) (afterLevel units pending) := by
  intro s hs
  rcases mem_afterLevel_iff.mp hs with ⟨m, hm, hred⟩ | ⟨hs, hne⟩
  · obtain ⟨hm, hunits⟩ := mem_level_iff.mp hm
    obtain ⟨hcanon, hweak⟩ := mem_reductions_iff.mp hred
    have hsize := hweak.totalSize_eq
    have hlen := hweak.card_lt
    rw [totalSize_coe, totalSize_coe, (hp m hm).2.1] at hsize
    rw [Multiset.coe_card, Multiset.coe_card] at hlen
    exact ⟨hcanon, hsize, by omega⟩
  · obtain ⟨hcanon, hsize, hlen⟩ := hp s hs
    exact ⟨hcanon, hsize, by omega⟩

theorem AllPending.eq_nil {n units : Nat} {pending : List Shape} (hp : AllPending n units pending)
    (hn : units = n + 1) : pending = [] := by
  rw [List.eq_nil_iff_forall_not_mem]
  intro s hs
  obtain ⟨-, hsize, hlen⟩ := hp s hs
  have hle := length_le_size s
  omega

/-- A level is complete when it is reached, since weaker shapes have more units. -/
theorem mem_derived_iff {n levels units : Nat} (hn : levels + units = n + 1)
    {pending : List Shape} (hp : AllPending n units pending) {t : Shape} :
    t ∈ derived levels units pending ↔
      t.canonical = t ∧ ∃ s ∈ pending, WeakensTo (s : Multiset UnitShape) t := by
  induction levels generalizing units pending with
  | zero => simp [derived, hp.eq_nil (by omega)]
  | succ levels ih =>
    rw [derived_succ, List.mem_append, mem_level_iff, ih (by omega) hp.afterLevel]
    constructor
    · intro h
      rcases h with ⟨ht, -⟩ | ⟨hcanon, s, hs, hweak⟩
      · exact ⟨(hp t ht).1, t, ht, .refl⟩
      · refine ⟨hcanon, ?_⟩
        rcases mem_afterLevel_iff.mp hs with ⟨m, hm, hred⟩ | ⟨hs, -⟩
        · exact ⟨m, (mem_level_iff.mp hm).1, .head (mem_reductions_iff.mp hred).2 hweak⟩
        · exact ⟨s, hs, hweak⟩
    · intro h
      obtain ⟨hcanon, s, hs, hweak⟩ := h
      by_cases hlen : s.length = units
      · rcases Relation.ReflTransGen.cases_head hweak with heq | ⟨m, hsm, hmt⟩
        · have hst : s = t := by
            rw [← (hp s hs).1, ← hcanon]
            exact canonical_eq_iff.mpr (Multiset.coe_eq_coe.mp heq)
          exact Or.inl (hst ▸ ⟨hs, hlen⟩)
        · obtain ⟨m', rfl⟩ : ∃ m' : Shape, (m' : Multiset UnitShape) = m := Quot.exists_rep m
          have hred : m'.canonical ∈ s.reductions :=
            mem_reductions_iff.mpr ⟨canonical_canonical m', by rw [canonical_coe]; exact hsm⟩
          refine Or.inr ⟨hcanon, m'.canonical, ?_, by rw [canonical_coe]; exact hmt⟩
          exact mem_afterLevel_iff.mpr (Or.inl ⟨s, mem_level_iff.mpr ⟨hs, hlen⟩, hred⟩)
      · exact Or.inr ⟨hcanon, s, mem_afterLevel_iff.mpr (Or.inr ⟨hs, hlen⟩), hweak⟩

theorem sortRows_perm [RowOrder] (start : Shape) (rows : List Shape) :
    (sortRows start rows).Perm rows := by
  have h := (List.mergeSort_perm ((RowOrder.arrange start rows).map fun s => (s.preference, s))
    fun a b => (compare a.1 b.1).isLE).map Prod.snd
  rw [List.map_map, Function.comp_def, List.map_id'] at h
  exact h.trans (RowOrder.arrange_perm start rows)

end Shape

/-! ### Rows -/

namespace TrickFormat

/-- The search starts from the format's own shape and has a level for every number of units. -/
theorem allPending_start (f : TrickFormat) :
    Shape.AllPending f.size f.units.canonical.length [f.units.canonical] ∧
      f.size + 1 - f.units.canonical.length + f.units.canonical.length = f.size + 1 := by
  have hsize : f.units.canonical.size = f.size := Shape.size_perm (Shape.canonical_perm f.units)
  have hlen := Shape.length_le_size f.units.canonical
  refine ⟨fun s hs => ?_, by omega⟩
  rw [List.mem_singleton] at hs
  subst hs
  exact ⟨Shape.canonical_canonical _, hsize, Nat.le_refl _⟩

variable [RowOrder]

/-- The rows after the format's own shape, under the policies that go by shapes. -/
def weaker (f : TrickFormat) : List Shape :=
  let start := f.units.canonical
  let shapes := Shape.derived (f.size + 1 - start.length) start.length [start]
  Shape.sortRows start (shapes.filter (· != start))

theorem decomposition_eq {f : TrickFormat} {policy : DrawPolicy}
    (hp : policy ≠ .noFormatBasedDraw) : f.decomposition policy = f.units :: f.weaker := by
  rw [decomposition, if_neg hp, weaker]

theorem decomposition_noFormat (f : TrickFormat) :
    f.decomposition .noFormatBasedDraw = [List.replicate f.size .single] := by
  rw [decomposition, if_pos rfl]

theorem mem_weaker_iff {f : TrickFormat} {row : Shape} :
    row ∈ f.weaker ↔ row.canonical = row ∧ row ≠ f.units.canonical ∧
      WeakensTo (f.units : Multiset UnitShape) row := by
  obtain ⟨hstart, hlevels⟩ := f.allPending_start
  simp only [weaker, (Shape.sortRows_perm _ _).mem_iff, List.mem_filter,
    Shape.mem_derived_iff hlevels hstart, bne_iff_ne, List.mem_singleton, exists_eq_left,
    Shape.canonical_coe]
  constructor
  · exact fun ⟨⟨hcanon, hweak⟩, hne⟩ => ⟨hcanon, hne, hweak⟩
  · exact fun ⟨hcanon, hne, hweak⟩ => ⟨⟨hcanon, hweak⟩, hne⟩

theorem not_perm_of_mem_weaker {f : TrickFormat} {row : Shape} (h : row ∈ f.weaker) :
    ¬f.units.Perm row := by
  obtain ⟨hcanon, hne, -⟩ := mem_weaker_iff.mp h
  intro hperm
  rw [← hcanon] at hne
  exact hne (Shape.canonical_eq_iff.mpr hperm.symm)

/-- The rows are the format's own shape and, in canonical order, every other multiset of units that
it can be weakened to. -/
theorem mem_decomposition_iff {f : TrickFormat} {policy : DrawPolicy}
    (hp : policy ≠ .noFormatBasedDraw) {row : Shape} :
    row ∈ f.decomposition policy ↔
      row = f.units ∨ row.canonical = row ∧ row ≠ f.units.canonical ∧
        WeakensTo (f.units : Multiset UnitShape) row := by
  rw [decomposition_eq hp, List.mem_cons, mem_weaker_iff]

theorem mem_decomposition_of_mem_reductions {f : TrickFormat} {policy : DrawPolicy}
    (hp : policy ≠ .noFormatBasedDraw) {s : Shape} (h : s ∈ f.units.reductions) :
    s ∈ f.decomposition policy := by
  obtain ⟨hcanon, hweak⟩ := Shape.mem_reductions_iff.mp h
  have hcard := hweak.card_lt
  have hne : s ≠ f.units.canonical := by
    rintro rfl
    rw [Shape.canonical_coe] at hcard
    exact Nat.lt_irrefl _ hcard
  exact (mem_decomposition_iff hp).mpr (Or.inr ⟨hcanon, hne, .single hweak⟩)

theorem weakensTo_of_mem {f : TrickFormat} {policy : DrawPolicy}
    (hp : policy ≠ .noFormatBasedDraw) {row : Shape} (h : row ∈ f.decomposition policy) :
    WeakensTo (f.units : Multiset UnitShape) row := by
  rcases (mem_decomposition_iff hp).mp h with rfl | ⟨-, -, h⟩
  · exact .refl
  · exact h

theorem size_of_mem_decomposition {f : TrickFormat} {policy : DrawPolicy} {row : Shape}
    (h : row ∈ f.decomposition policy) : row.size = f.size := by
  by_cases hp : policy = .noFormatBasedDraw
  · simp only [decomposition, hp, if_true, List.mem_singleton] at h
    rw [h, UnitShape.size_replicate_single]
  · have hsize := (weakensTo_of_mem hp h).totalSize_eq
    rwa [totalSize_coe, totalSize_coe] at hsize

theorem singles_mem_decomposition (f : TrickFormat) (policy : DrawPolicy) :
    List.replicate f.size .single ∈ f.decomposition policy := by
  by_cases hp : policy = .noFormatBasedDraw
  · rw [hp, decomposition_noFormat]
    exact List.mem_cons_self
  · have hweak := weakensTo_singles (f.units : Multiset UnitShape)
    rw [totalSize_coe, ← Multiset.coe_replicate] at hweak
    rw [mem_decomposition_iff hp]
    by_cases hu : List.replicate f.size UnitShape.single = f.units.canonical
    · left
      exact List.perm_replicate.mp ((Shape.canonical_perm f.units).symm.trans (hu ▸ .refl _))
        |>.symm
    · exact Or.inr ⟨List.perm_replicate.mp (Shape.canonical_perm _), hu, hweak⟩

end TrickFormat

end TractorRules
