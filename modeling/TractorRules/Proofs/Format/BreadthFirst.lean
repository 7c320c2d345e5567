import TractorRules.Proofs.Format.Decomposition

/-!
# Breadth-first search

The shapes that can be derived from a start could also be found with a queue: the search takes the
first shape from it and appends the reductions that were not seen before.  What is seen is closed under
reductions but for the shapes in the queue, and each step keeps this so (`Explored.next`).  The search
ends, as no shape is seen twice, and then it has seen all that can be derived
(`exists_breadthFirst`).
-/

namespace TractorRules.Shape

/-! ### One step -/

/-- The shapes that were not seen before, each once. -/
def unseen (seen : List Shape) : List Shape → List Shape
  | [] => []
  | t :: ts => if t ∈ seen then unseen seen ts else t :: unseen (t :: seen) ts

variable {start s t : Shape} {queue seen found all : List Shape}

theorem mem_unseen {ts : List Shape} : t ∈ unseen seen ts ↔ t ∈ ts ∧ t ∉ seen := by
  induction ts generalizing seen with
  | nil => simp [unseen]
  | cons s ts ih =>
    rw [unseen]
    by_cases hs : s ∈ seen
    · rw [if_pos hs, ih, List.mem_cons]
      constructor
      · exact fun h => ⟨Or.inr h.1, h.2⟩
      · rintro ⟨rfl | ht, hnew⟩
        · exact absurd hs hnew
        · exact ⟨ht, hnew⟩
    · rw [if_neg hs, List.mem_cons, ih, List.mem_cons, List.mem_cons]
      constructor
      · rintro (rfl | ⟨ht, hnew⟩)
        · exact ⟨Or.inl rfl, hs⟩
        · exact ⟨Or.inr ht, fun h => hnew (Or.inr h)⟩
      · rintro ⟨rfl | ht, hnew⟩
        · exact Or.inl rfl
        · by_cases heq : t = s
          · exact Or.inl heq
          · exact Or.inr ⟨ht, fun h => h.elim heq hnew⟩

theorem nodup_unseen (seen ts : List Shape) : (unseen seen ts).Nodup := by
  induction ts generalizing seen with
  | nil => exact List.nodup_nil
  | cons s ts ih =>
    rw [unseen]
    split
    · exact ih seen
    · exact List.nodup_cons.mpr ⟨fun h => (mem_unseen.mp h).2 List.mem_cons_self, ih _⟩

/-- Takes the first shape of a queue again and again, until none is left; the reductions that were not
seen before are seen and queued. -/
inductive BreadthFirst : (queue seen found : List Shape) → Prop
  | done (seen : List Shape) : BreadthFirst [] seen seen
  | next {s : Shape} {queue seen found : List Shape}
    (h : BreadthFirst (queue ++ unseen seen s.reductions) (seen ++ unseen seen s.reductions) found) :
    BreadthFirst (s :: queue) seen found

theorem BreadthFirst.unique {found' : List Shape} (h : BreadthFirst queue seen found)
    (h' : BreadthFirst queue seen found') : found = found' := by
  induction h with
  | done seen => cases h'; rfl
  | next _ ih => cases h' with
    | next h' => exact ih h'

/-! ### What is seen -/

/-- What is seen can be derived from the start, and it is closed under reductions but for the shapes in
the queue. -/
structure Explored (start : Shape) (queue seen : List Shape) : Prop where
  nodup : seen.Nodup
  start_seen : start ∈ seen
  derived : ∀ s ∈ seen, s.canonical = s ∧ WeakensTo (start : Multiset UnitShape) s
  queue_seen : ∀ s ∈ queue, s ∈ seen
  closed : ∀ s ∈ seen, s ∉ queue → ∀ t ∈ s.reductions, t ∈ seen

namespace Explored

theorem init (h : start.canonical = start) : Explored start [start] [start] where
  nodup := List.nodup_singleton _
  start_seen := List.mem_singleton_self _
  derived := List.forall_mem_singleton.mpr ⟨h, .refl⟩
  queue_seen := fun _ => id
  closed := fun _ hs hnot => absurd hs hnot

theorem next (h : Explored start (s :: queue) seen) :
    Explored start (queue ++ unseen seen s.reductions) (seen ++ unseen seen s.reductions) where
  nodup := by
    refine List.nodup_append'.mpr ⟨h.nodup, nodup_unseen _ _, fun t ht hnew => ?_⟩
    exact (mem_unseen.mp hnew).2 ht
  start_seen := List.mem_append_left _ h.start_seen
  derived := by
    intro t ht
    rcases List.mem_append.mp ht with hold | hnew
    · exact h.derived t hold
    · obtain ⟨hcanon, hstep⟩ := mem_reductions_iff.mp (mem_unseen.mp hnew).1
      obtain ⟨-, hweak⟩ := h.derived s (h.queue_seen s List.mem_cons_self)
      exact ⟨hcanon, hweak.tail hstep⟩
  queue_seen := by
    intro t ht
    rcases List.mem_append.mp ht with hold | hnew
    · exact List.mem_append_left _ (h.queue_seen t (List.mem_cons_of_mem s hold))
    · exact List.mem_append_right _ hnew
  closed := by
    intro t ht hnot r hr
    have hqueue : t ∉ queue := fun hq => hnot (List.mem_append_left _ hq)
    have hold : t ∈ seen :=
      (List.mem_append.mp ht).resolve_right fun hnew => hnot (List.mem_append_right _ hnew)
    by_cases hseen : r ∈ seen
    · exact List.mem_append_left _ hseen
    · by_cases hts : t = s
      · exact List.mem_append_right _ (mem_unseen.mpr ⟨hts ▸ hr, hseen⟩)
      · have hrest : t ∉ s :: queue := fun hq => (List.mem_cons.mp hq).elim hts hqueue
        exact absurd (h.closed t hold hrest r hr) hseen

/-- With nothing queued, all that can be derived is seen. -/
theorem mem_iff (h : Explored start [] seen) :
    t ∈ seen ↔ t.canonical = t ∧ WeakensTo (start : Multiset UnitShape) t := by
  refine ⟨h.derived t, fun ⟨hcanon, hweak⟩ => ?_⟩
  -- On the way to a multiset, each one is seen in its canonical order.
  suffices ∀ m, WeakensTo (start : Multiset UnitShape) m →
      ∀ t : Shape, t.canonical = t → (t : Multiset UnitShape) = m → t ∈ seen from
    this t hweak t hcanon rfl
  intro m hm
  induction hm with
  | refl =>
    intro t hcanon ht
    have hstart := (h.derived start h.start_seen).1
    rw [← hcanon, canonical_eq_iff.mpr (Multiset.coe_eq_coe.mp ht), hstart]
    exact h.start_seen
  | @tail m _ _ hstep ih =>
    rintro t hcanon rfl
    obtain ⟨s, rfl⟩ : ∃ s : Shape, (s : Multiset UnitShape) = m := Quot.exists_rep m
    have hs := ih s.canonical (canonical_canonical s) (canonical_coe s)
    have hred : t ∈ s.canonical.reductions :=
      mem_reductions_iff.mpr ⟨hcanon, by rwa [canonical_coe]⟩
    exact h.closed _ hs List.not_mem_nil t hred

-- Each step takes a shape from the queue, and what it appends is new.
theorem exists_breadthFirst (hall : ∀ t : Shape, t.canonical = t →
      WeakensTo (start : Multiset UnitShape) t → t ∈ all) (steps : Nat)
    (h : Explored start queue seen) (hsteps : queue.length + all.length ≤ steps + seen.length) :
    ∃ found, BreadthFirst queue seen found ∧ Explored start [] found := by
  induction steps generalizing queue seen with
  | zero =>
    have hsub : seen ⊆ all := fun t ht => hall t (h.derived t ht).1 (h.derived t ht).2
    have hlen : seen.length ≤ all.length := (h.nodup.subperm hsub).length_le
    obtain rfl : queue = [] := List.eq_nil_of_length_eq_zero (by omega)
    exact ⟨seen, .done seen, h⟩
  | succ steps ih =>
    cases queue with
    | nil => exact ⟨seen, .done seen, h⟩
    | cons s queue =>
      obtain ⟨found, hfound, hexplored⟩ := ih h.next (by
        rw [List.length_cons] at hsteps
        rw [List.length_append, List.length_append]
        omega)
      exact ⟨found, .next hfound, hexplored⟩

end Explored

/-- The search from a start finds one list, with all shapes that can be derived from it. -/
theorem exists_breadthFirst (hstart : start.canonical = start) (hnodup : all.Nodup)
    (hall : ∀ t : Shape, t ∈ all ↔ t.canonical = t ∧ WeakensTo (start : Multiset UnitShape) t) :
    ∃ found, (∀ found', BreadthFirst [start] [start] found' ↔ found' = found) ∧
      found.Perm all := by
  obtain ⟨found, hfound, hexplored⟩ := Explored.exists_breadthFirst
    (fun t hcanon hweak => (hall t).mpr ⟨hcanon, hweak⟩) all.length (.init hstart) (Nat.add_comm _ _).le
  refine ⟨found, fun found' => ⟨fun h => h.unique hfound, fun h => h ▸ hfound⟩, ?_⟩
  rw [List.perm_ext_iff_of_nodup hexplored.nodup hnodup]
  exact fun t => hexplored.mem_iff.trans (hall t).symm

end TractorRules.Shape
