import TractorRules.Counts
import Mathlib.Data.List.Induction
import Mathlib.Data.List.Nodup

/-!
# What counts tell

The counts of a list have the things of the list in the order of their first arrival (`keys_ofList`),
each with the number of times it is in the list (`times_ofList`), and tell nothing else of the list
(`ofList_eq_iff`).
-/

namespace TractorRules.Counts

variable {α : Type} [DecidableEq α]

theorem ofList_concat (xs : List α) (x : α) : ofList (xs ++ [x]) = add x 1 (ofList xs) := by
  simp [ofList, addAll]

theorem times_ofList (xs : List α) (x : α) : (ofList xs).times x = xs.count x := by
  induction xs using List.reverseRecOn with
  | nil => rfl
  | append_singleton xs y ih =>
    rw [ofList_concat, times_add, ih, List.count_append, List.count_singleton]
    by_cases h : x = y
    · simp [h]
    · simp [h, Ne.symm h]

theorem keys_put (a : α) (n : Nat) (counts : Counts α) : (Entries.put a n counts).map Prod.fst =
    if a ∈ counts.map Prod.fst then counts.map Prod.fst else counts.map Prod.fst ++ [a] := by
  induction counts with
  | nil => rfl
  | cons e counts ih =>
    obtain ⟨b, m⟩ := e
    rw [Entries.put]
    by_cases h : b = a
    · simp [h]
    · simp only [if_neg h, List.map_cons, ih, List.mem_cons, Ne.symm h, false_or]
      split <;> rfl

theorem keys_ofList (xs : List α) : (ofList xs).map Prod.fst = xs.eraseDups := by
  induction xs using List.reverseRecOn with
  | nil => rfl
  | append_singleton xs x ih =>
    rw [ofList_concat, add, keys_put, ih, List.eraseDups_append, List.removeAll]
    by_cases h : x ∈ xs
    · simp [h, List.mem_eraseDups]
    · simp [h, List.mem_eraseDups, List.eraseDups_cons]

theorem eq_map_times {counts : Counts α} (h : (counts.map Prod.fst).Nodup) :
    counts = (counts.map Prod.fst).map fun a => (a, times counts a) := by
  induction counts with
  | nil => rfl
  | cons e counts ih =>
    obtain ⟨a, n⟩ := e
    obtain ⟨ha, hn⟩ := List.nodup_cons.mp h
    have hother (b : α) (hb : b ∈ counts.map Prod.fst) :
        times ((a, n) :: counts) b = times counts b := by
      have hne : b ≠ a := fun heq => ha (heq ▸ hb)
      rw [times, Entries.lookup_cons, if_neg hne, times]
    have hself : times ((a, n) :: counts) a = n := by
      rw [times, Entries.lookup_cons, if_pos rfl, Option.getD_some]
    rw [List.map_cons, List.map_cons, hself, List.map_congr_left fun b hb => by rw [hother b hb],
      ← ih hn]

/-- Counts tell in which order the things first came and how often each came, and nothing else. -/
theorem ofList_eq_iff {xs ys : List α} : ofList xs = ofList ys ↔
    xs.eraseDups = ys.eraseDups ∧ ∀ a, xs.count a = ys.count a := by
  constructor
  · intro h
    refine ⟨?_, fun a => ?_⟩
    · rw [← keys_ofList, h, keys_ofList]
    · rw [← times_ofList, h, times_ofList]
  · rintro ⟨horder, hcount⟩
    have hnodup (zs : List α) : ((ofList zs).map Prod.fst).Nodup := nodup_addAll _ List.nodup_nil
    rw [eq_map_times (hnodup xs), eq_map_times (hnodup ys), keys_ofList, keys_ofList, horder]
    simp only [times_ofList, hcount]

end TractorRules.Counts
