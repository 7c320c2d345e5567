import TractorRules.Hands
import Mathlib.Data.List.Count
import Mathlib.Data.List.Nodup
import Mathlib.Data.List.Perm.Subperm
import Mathlib.Data.Multiset.Defs

/-!
# Hands as multisets

A hand counts its cards (`Hand.count_cards`), and playing cards from it leaves the others
(`Hand.without_append_perm`).  Replacing one player's hand changes the cards of all players by that
hand only (`Hands.allCards_set`).
-/

namespace TractorRules

/-! ### Entries -/

/-- What is found under a key was put there. -/
theorem Entries.mem_of_lookup_ofList {κ α : Type} [DecidableEq κ] {pairs : List (κ × α)} {key : κ}
    {value : α} (h : (ofList pairs).lookup key = some value) : (key, value) ∈ pairs := by
  suffices put : ∀ es : Entries κ α,
      (pairs.foldl (fun es p => Entries.put p.1 p.2 es) es).lookup key = some value →
        (key, value) ∈ pairs ∨ es.lookup key = some value from
    (put [] h).resolve_right nofun
  clear h
  induction pairs with
  | nil => exact fun _ => Or.inr
  | cons p rest ih =>
    intro es hl
    rcases ih _ hl with hmem | hput
    · exact Or.inl (List.mem_cons_of_mem p hmem)
    · rw [lookup_put] at hput
      split at hput
      · rename_i hkey
        rw [hkey, ← Option.some.inj hput]
        exact Or.inl List.mem_cons_self
      · exact Or.inr hput

/-! ### Counts -/

namespace Counts

variable {α : Type} [DecidableEq α]

theorem times_cons (a : α) (n : Nat) (counts : Counts α) (b : α) :
    times ((a, n) :: counts) b = if b = a then n else counts.times b := by
  unfold times
  rw [Entries.lookup_cons]
  split <;> rfl

theorem times_of_not_mem {counts : Counts α} {a : α} (h : a ∉ counts.map Prod.fst) :
    counts.times a = 0 := by
  induction counts with
  | nil => rfl
  | cons e counts ih =>
    simp only [List.map_cons, List.mem_cons, not_or] at h
    rw [times_cons, if_neg h.1]
    exact ih h.2

theorem times_of_mem {counts : Counts α} (h : (counts.map Prod.fst).Nodup) {a : α} {n : Nat}
    (hmem : (a, n) ∈ counts) : counts.times a = n := by
  induction counts with
  | nil => simp at hmem
  | cons e counts ih =>
    obtain ⟨he, hn⟩ := List.nodup_cons.mp h
    rw [times_cons]
    rcases List.mem_cons.mp hmem with rfl | hmem
    · exact if_pos rfl
    · have hne : a ≠ e.1 := fun heq => he (heq ▸ List.mem_map_of_mem (f := Prod.fst) hmem)
      rw [if_neg hne, ih hn hmem]

/-- How often a thing comes in entries that may repeat it. -/
def total : Counts α → α → Nat
  | [], _ => 0
  | e :: more, a => (if a = e.1 then e.2 else 0) + total more a

theorem total_cons (e : α × Nat) (more : Counts α) (a : α) :
    total (e :: more) a = (if a = e.1 then e.2 else 0) + more.total a := rfl

theorem times_addAll (counts more : Counts α) (a : α) :
    (addAll counts more).times a = counts.times a + more.total a := by
  induction more generalizing counts with
  | nil => rfl
  | cons e more ih =>
    have hstep : addAll counts (e :: more) = addAll (add e.1 e.2 counts) more := rfl
    rw [hstep, ih, times_add, total_cons]
    omega

theorem total_of_nodup {more : Counts α} (h : (more.map Prod.fst).Nodup) (a : α) :
    more.total a = more.times a := by
  induction more with
  | nil => rfl
  | cons e more ih =>
    obtain ⟨he, hn⟩ := List.nodup_cons.mp h
    rw [total_cons, times_cons, ih hn]
    by_cases ha : a = e.1
    · subst ha
      rw [if_pos rfl, if_pos rfl, times_of_not_mem he]
      omega
    · rw [if_neg ha, if_neg ha]
      omega

theorem times_filter_pos {counts : Counts α} (h : (counts.map Prod.fst).Nodup) (a : α) :
    times (counts.filter fun e => 0 < e.2) a = counts.times a := by
  induction counts with
  | nil => rfl
  | cons e counts ih =>
    obtain ⟨he, hn⟩ := List.nodup_cons.mp h
    rw [times_cons, List.filter_cons]
    by_cases hpos : 0 < e.2
    · rw [if_pos (by simpa using hpos), times_cons, ih hn]
    · rw [if_neg (by simpa using hpos), ih hn]
      by_cases ha : a = e.1
      · subst ha
        rw [if_pos rfl, times_of_not_mem he]
        omega
      · rw [if_neg ha]

theorem times_map {counts : Counts α} (f : α → Nat → Nat) (hf : ∀ a, f a 0 = 0) (a : α) :
    times (counts.map fun e => (e.1, f e.1 e.2)) a = f a (counts.times a) := by
  induction counts with
  | nil => exact (hf a).symm
  | cons e counts ih =>
    rw [List.map_cons, times_cons, times_cons, ih]
    by_cases ha : a = e.1
    · subst ha
      rw [if_pos rfl, if_pos rfl]
    · rw [if_neg ha, if_neg ha]

theorem count_expand {counts : Counts α} (h : (counts.map Prod.fst).Nodup) (a : α) :
    (counts.flatMap fun e => List.replicate e.2 e.1).count a = counts.times a := by
  induction counts with
  | nil => rfl
  | cons e counts ih =>
    obtain ⟨he, hn⟩ := List.nodup_cons.mp h
    rw [List.flatMap_cons, List.count_append, List.count_replicate, ih hn, times_cons]
    by_cases ha : a = e.1
    · subst ha
      simp [times_of_not_mem he]
    · simp [ha, Ne.symm ha]

end Counts

/-! ### One hand -/

namespace Hand

theorem count_cards (h : Hand) (c : Card) : h.cards.count c = h.count c :=
  Counts.count_expand h.nodup c

theorem contains_iff {h : Hand} {cards : List Card} :
    h.contains cards = true ↔ cards.Subperm h.cards := by
  rw [List.subperm_ext_iff]
  simp only [contains, List.all_eq_true, List.mem_eraseDups, decide_eq_true_eq, count_cards]

theorem count_ofCounts (counts : Counts Card) (c : Card) :
    (ofCounts counts).count c = counts.total c := by
  have hn : ((Counts.addAll [] counts).map Prod.fst).Nodup := Counts.nodup_addAll counts (by simp)
  rw [count, ofCounts, Counts.times_filter_pos hn, Counts.times_addAll]
  exact Nat.zero_add _

theorem count_without (h : Hand) (cards : List Card) (c : Card) :
    (h.without cards).count c = h.count c - cards.count c := by
  have hkeys : (h.entries.map fun e => (e.1, e.2 - cards.count e.1)).map Prod.fst =
      h.entries.map Prod.fst := by simp [Function.comp_def]
  rw [without, count_ofCounts, Counts.total_of_nodup (by rw [hkeys]; exact h.nodup)]
  exact Counts.times_map (fun c n => n - cards.count c) (by simp) c

theorem without_append_perm {h : Hand} {cards : List Card} (hsub : cards.Subperm h.cards) :
    ((h.without cards).cards ++ cards).Perm h.cards := by
  rw [List.perm_iff_count]
  intro c
  have hle := List.subperm_iff_count.mp hsub c
  rw [List.count_append, count_cards, count_without, ← count_cards]
  omega

theorem count_of_mem {hand : Hand} {c : Card} {n : Nat} (h : (c, n) ∈ hand.entries) :
    hand.count c = n :=
  Counts.times_of_mem hand.nodup h

/-- The entries of a hand are the cards that it holds, with the copies that it holds of them. -/
theorem mem_entries_iff {hand : Hand} {c : Card} {n : Nat} :
    (c, n) ∈ hand.entries ↔ 0 < n ∧ hand.cards.count c = n := by
  rw [count_cards]
  constructor
  · intro h
    exact ⟨hand.positive _ h, count_of_mem h⟩
  · intro h
    obtain ⟨hpos, rfl⟩ := h
    by_cases hkey : c ∈ hand.entries.map Prod.fst
    · obtain ⟨⟨d, n⟩, hmem, rfl⟩ := List.mem_map.mp hkey
      rwa [count_of_mem hmem]
    · rw [count, Counts.times_of_not_mem hkey] at hpos
      exact absurd hpos (Nat.lt_irrefl 0)

theorem entries_perm {hand hand' : Hand} (h : hand.cards.Perm hand'.cards) :
    hand.entries.Perm hand'.entries := by
  have hnodup (hand : Hand) : hand.entries.Nodup := List.Nodup.of_map Prod.fst hand.nodup
  rw [List.perm_ext_iff_of_nodup (hnodup hand) (hnodup hand')]
  intro e
  rw [mem_entries_iff, mem_entries_iff, h.count_eq]

end Hand

/-! ### All hands -/

namespace Hands

theorem get_ok_iff {hands : Hands} {id : PlayerId} {hand : Hand} :
    hands.get id = .ok hand ↔ hands.entries.lookup id = some hand := by
  unfold get
  split
  · rename_i hand' hl
    rw [hl, Except.ok.injEq, Option.some.injEq]
  · rename_i hl
    simp [hl]

theorem get_error_iff {hands : Hands} {id : PlayerId} {fault : RulesFault} :
    hands.get id = .error fault ↔ hands.entries.lookup id = none ∧ fault = .unknownPlayer id := by
  unfold get
  split
  · rename_i hand hl
    simp [hl]
  · rename_i hl
    rw [Except.error.injEq, eq_comm]
    simp [hl]

theorem get_set (hands : Hands) (id : PlayerId) (hand : Hand) (id' : PlayerId) :
    (hands.set id hand).get id' = if id' = id then .ok hand else hands.get id' := by
  unfold get set
  rw [Entries.lookup_put]
  by_cases h : id' = id
  · rw [if_pos h, if_pos h]
  · rw [if_neg h, if_neg h]

def allCards (hands : Hands) : List Card := hands.entries.flatMap fun e => e.2.cards

theorem flatMap_put_perm {es : Entries PlayerId Hand} {id : PlayerId} {old new : Hand}
    {played : List Card} (hget : es.lookup id = some old)
    (hp : (new.cards ++ played).Perm old.cards) :
    ((es.put id new).flatMap (fun e => e.2.cards) ++ played).Perm
      (es.flatMap fun e => e.2.cards) := by
  induction es with
  | nil => simp at hget
  | cons e es ih =>
    obtain ⟨k, v⟩ := e
    rw [Entries.lookup_cons] at hget
    rw [Entries.put]
    by_cases hk : k = id
    · rw [if_pos hk.symm, Option.some.injEq] at hget
      subst hget
      rw [if_pos hk, List.flatMap_cons, List.flatMap_cons, List.append_assoc]
      have hswap : (new.cards ++ (es.flatMap (fun e => e.2.cards) ++ played)).Perm
          ((new.cards ++ played) ++ es.flatMap fun e => e.2.cards) := by
        rw [List.append_assoc]
        exact List.perm_append_comm.append_left _
      exact hswap.trans (hp.append_right _)
    · rw [if_neg (Ne.symm hk)] at hget
      rw [if_neg hk, List.flatMap_cons, List.flatMap_cons, List.append_assoc]
      exact (ih hget).append_left _

/-- All cards change by what the one hand changes by. -/
theorem allCards_set {hands : Hands} {id : PlayerId} {old new : Hand} {played : List Card}
    (hget : hands.get id = .ok old) (hp : (new.cards ++ played).Perm old.cards) :
    ((hands.set id new).allCards ++ played).Perm hands.allCards :=
  flatMap_put_perm (get_ok_iff.mp hget) hp

/-! ### The hand of one player -/

/-- The cards that a player holds, if the player has a hand at all. -/
def held (hands : Hands) (id : PlayerId) : Option (Multiset Card) :=
  (hands.entries.lookup id).map fun hand => (hand.cards : Multiset Card)

theorem get_of_held_eq {hands hands' : Hands} {id : PlayerId} (h : hands.held id = hands'.held id) :
    (hands.get id = .error (.unknownPlayer id) ∧ hands'.get id = .error (.unknownPlayer id)) ∨
      ∃ hand hand', hands.get id = .ok hand ∧ hands'.get id = .ok hand' ∧
        hand.cards.Perm hand'.cards := by
  unfold held at h
  cases hl : hands.entries.lookup id with
  | none =>
    rw [hl, Option.map_none, eq_comm, Option.map_eq_none_iff] at h
    exact Or.inl ⟨get_error_iff.mpr ⟨hl, rfl⟩, get_error_iff.mpr ⟨h, rfl⟩⟩
  | some hand =>
    rw [hl, Option.map_some, eq_comm, Option.map_eq_some_iff] at h
    obtain ⟨hand', hl', heq⟩ := h
    exact Or.inr ⟨hand, hand', get_ok_iff.mpr hl, get_ok_iff.mpr hl',
      (Multiset.coe_eq_coe.mp heq).symm⟩

end Hands

end TractorRules
