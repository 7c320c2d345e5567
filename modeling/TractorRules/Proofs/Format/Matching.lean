import TractorRules.Proofs.Grouping.Run
import TractorRules.Proofs.Copies
import TractorRules.Format.Matching
import Mathlib.Data.List.Count

/-!
# Matching cards against a shape

The search is sound and complete for placements: a shape can be matched exactly when its units of
several cards have a place on disjoint cards and there are enough cards in all
(`matchShape_ne_nil_iff`), every placement is found (`exists_mem_of_placement`), and every match is a
placement filled up with the lowest cards left (`exists_filled_of_mem`).  A bounded search gives the
first matches (`matchShape_eq_cut`).
-/

namespace TractorRules

/-- Units of the given shapes on disjoint cards.  Where longer tuples are protected, such a unit
takes all copies of its cards. -/
structure Placement (t : Trump) (policy : DrawPolicy) (cards : List Card) (shapes : Shape)
    (units : Grouping) : Prop where
  shapes_eq : (units.map TrickUnit.shape).Perm shapes
  runs : ∀ u ∈ units, t.IsRun u.members
  disjoint : (Grouping.cards units).Subperm cards
  whole : policy = .longerTuplesProtected → ∀ u ∈ units, ∀ c ∈ u.members, cards.count c = u.count

def TrickUnit.single (c : Card) : TrickUnit := .repeated ⟨c, 1, Nat.one_pos⟩

theorem Grouping.cards_singles (cs : List Card) : Grouping.cards (cs.map TrickUnit.single) = cs := by
  induction cs with
  | nil => rfl
  | cons c cs ih =>
    rw [List.map_cons, Grouping.cards_cons, ih]
    rfl

namespace Matching

/-- Units of the given shapes on disjoint cards that are still held. -/
structure Table.Places (tb : Table) (held : Tally) (shapes : Shape) (units : Grouping) : Prop where
  shapes_eq : (units.map TrickUnit.shape).Perm shapes
  runs : ∀ u ∈ units, tb.trump.IsRun u.members
  fits : ∀ c, (Grouping.cards units).count c ≤ held.count c
  whole : tb.isProtected = true → ∀ u ∈ units, ∀ c ∈ u.members, tb.all.count c = u.count

/-- A table whose cards are sorted and hold all that is held. -/
structure Table.Covers (tb : Table) (held : Tally) : Prop where
  sorted : tb.order.Pairwise fun a b => tb.trump.cardLe a b = true
  nodup : tb.order.Nodup
  mem_order : ∀ c, 0 < held.count c → c ∈ tb.order

/-- Whether a unit keeps to the floor. -/
def Table.aboveFloor (tb : Table) (floor : Option (List SortKey)) (u : TrickUnit) : Bool :=
  floor.all fun key => !SortKey.listLt (tb.unitKey u) key

variable {tb : Table} {held : Tally}

theorem Table.Covers.removeEach (h : tb.Covers held) (cs : List Card) (n : Nat) :
    tb.Covers (held.removeEach cs n) :=
  ⟨h.sorted, h.nodup, fun c hc => h.mem_order c (by rw [Tally.count_removeEach] at hc; omega)⟩

/-! ### Placing one unit -/

theorem usable_iff {copies : Nat} {c : Card} :
    tb.usable held copies c = true ↔
      copies ≤ held.count c ∧ (tb.isProtected = true → tb.all.count c = copies) := by
  cases hp : tb.isProtected <;> simp [Table.usable, hp]

theorem mem_placements (hc : tb.Covers held) {s : UnitShape} {u : TrickUnit} :
    u ∈ tb.placements held s ↔
      u.shape = s ∧ tb.trump.IsRun u.members ∧
        ∀ c ∈ u.members, tb.usable held u.count c = true := by
  have hmem {n : Nat} (hn : 0 < n) {c : Card} (hu : tb.usable held n c = true) : c ∈ tb.order :=
    hc.mem_order c (by have := (usable_iff.mp hu).1; omega)
  obtain ⟨copies, groups, hcopies, hgroups⟩ := s
  by_cases hg : groups = 1
  · subst hg
    simp only [Table.placements, if_true, List.mem_filterMap, List.mem_filter, Repeated.ofNat?,
      hcopies, dif_pos, Option.map_some, Option.some.injEq]
    constructor
    · intro h
      obtain ⟨c, ⟨-, hu⟩, rfl⟩ := h
      exact ⟨rfl, Trump.isRun_singleton c, by simpa [TrickUnit.members, TrickUnit.count] using hu⟩
    · intro h
      obtain ⟨hs, -, hu⟩ := h
      cases u with
      | repeated r =>
        obtain ⟨c, n, hn⟩ := r
        simp only [TrickUnit.shape, UnitShape.mk.injEq, and_true] at hs
        subst hs
        have hu : tb.usable held n c = true := hu c (by simp [TrickUnit.members])
        exact ⟨c, ⟨hmem hn hu, hu⟩, rfl⟩
      | tractor r =>
        have htwo := r.two_le_length
        simp only [TrickUnit.shape, UnitShape.mk.injEq] at hs
        omega
  · simp only [Table.placements, hg, if_false, List.mem_filterMap,
      Trump.mem_runsOfLength hgroups hc.sorted]
    constructor
    · intro h
      obtain ⟨run, ⟨hl, -, hr, hu⟩, he⟩ := h
      have hpos : 0 < copies ∧ 2 ≤ run.length := by omega
      simp only [Tractor.ofNat?, dif_pos hpos, Option.map_some, Option.some.injEq] at he
      subst he
      exact ⟨by simp only [TrickUnit.shape, hl], hr, hu⟩
    · intro h
      obtain ⟨hs, hr, hu⟩ := h
      cases u with
      | repeated r =>
        simp only [TrickUnit.shape, UnitShape.mk.injEq] at hs
        omega
      | tractor r =>
        simp only [TrickUnit.shape, UnitShape.mk.injEq] at hs
        obtain ⟨rfl, rfl⟩ := hs
        refine ⟨r.members, ⟨rfl, fun c hm => hmem hcopies (hu c hm), hr, hu⟩, ?_⟩
        have hpos : 0 < r.count ∧ 2 ≤ r.members.length := ⟨r.count_pos, r.two_le_length⟩
        simp only [Tractor.ofNat?, dif_pos hpos, Option.map_some]

/-- A unit that fits beside others fits on its own, and the others fit on what it leaves. -/
theorem Places.pick {s : UnitShape} {rest : Shape} {units : Grouping}
    (h : tb.Places held (s :: rest) units) {u : TrickUnit} (hu : u ∈ units) (hs : u.shape = s) :
    (∀ c ∈ u.members, tb.usable held u.count c = true) ∧
      tb.Places (held.removeEach u.members u.count) rest (units.erase u) := by
  have hperm := List.perm_cons_erase hu
  have hcount (c : Card) : (Grouping.cards units).count c =
      u.count * u.members.count c + (Grouping.cards (units.erase u)).count c := by
    rw [(Grouping.cards_perm hperm).count_eq, Grouping.cards_cons, List.count_append,
      TrickUnit.count_cards]
  refine ⟨fun c hc => usable_iff.mpr ⟨?_, fun hp => h.whole hp u hu c hc⟩, ?_, ?_, ?_, ?_⟩
  · have hfit := h.fits c
    have hpos : 0 < u.members.count c := List.count_pos_iff.mpr hc
    have hle := Nat.le_mul_of_pos_right u.count hpos
    rw [hcount c] at hfit
    omega
  · have hshapes : (s :: (units.erase u).map TrickUnit.shape).Perm (s :: rest) := by
      rw [← hs]
      exact ((hperm.map TrickUnit.shape).symm.trans h.shapes_eq).trans (by rw [hs])
    exact hshapes.cons_inv
  · exact fun v hv => h.runs v (List.mem_of_mem_erase hv)
  · intro c
    have hfit := h.fits c
    rw [hcount c] at hfit
    rw [Tally.count_removeEach]
    omega
  · exact fun hp v hv => h.whole hp v (List.mem_of_mem_erase hv)

theorem Places.cons {s : UnitShape} {rest : Shape} {units : Grouping} {u : TrickUnit}
    (hs : u.shape = s) (hr : tb.trump.IsRun u.members)
    (hu : ∀ c ∈ u.members, tb.usable held u.count c = true)
    (h : tb.Places (held.removeEach u.members u.count) rest units) :
    tb.Places held (s :: rest) (u :: units) := by
  refine ⟨?_, ?_, ?_, ?_⟩
  · rw [List.map_cons, hs]
    exact h.shapes_eq.cons s
  · intro v hv
    rcases List.mem_cons.mp hv with rfl | hv
    · exact hr
    · exact h.runs v hv
  · intro c
    have hfit := h.fits c
    rw [Tally.count_removeEach] at hfit
    rw [Grouping.cards_cons, List.count_append, TrickUnit.count_cards]
    by_cases hc : c ∈ u.members
    · have hone : u.members.count c = 1 := List.count_eq_one_of_mem hr.nodup hc
      have hle := (usable_iff.mp (hu c hc)).1
      rw [hone] at hfit ⊢
      omega
    · rw [List.count_eq_zero_of_not_mem hc] at hfit ⊢
      omega
  · intro hp v hv
    rcases List.mem_cons.mp hv with rfl | hv
    · exact fun c hc => (usable_iff.mp (hu c hc)).2 hp
    · exact h.whole hp v hv

/-! ### The search -/

def Table.nextFloor (tb : Table) (s : UnitShape) (rest : Shape) (u : TrickUnit) :
    Option (List SortKey) :=
  if rest.head? = some s then some (tb.unitKey u) else none

theorem place_cons {singles : Nat} {s : UnitShape} {rest : Shape}
    {floor : Option (List SortKey)} {b : Budget} :
    tb.place singles (s :: rest) floor held b =
      Budget.gather (fun b u =>
        (tb.place singles rest (tb.nextFloor s rest u) (held.removeEach u.members u.count) b).map
          (u :: ·)) b
        ((tb.placements held s).filter (tb.aboveFloor floor)) := by
  rw [Table.place]
  cases floor <;> rfl

theorem place_eq_cut (singles : Nat) (shapes : Shape) (floor : Option (List SortKey))
    (held : Tally) (b : Budget) :
    tb.place singles shapes floor held b = b.cut (tb.place singles shapes floor held none) := by
  induction shapes generalizing floor held b with
  | nil => rfl
  | cons s rest ih =>
    have hcut : ∀ (b : Budget) (u : TrickUnit),
        (tb.place singles rest (tb.nextFloor s rest u) (held.removeEach u.members u.count) b).map
          (u :: ·) =
        b.cut ((tb.place singles rest (tb.nextFloor s rest u)
          (held.removeEach u.members u.count) none).map (u :: ·)) := by
      intro b u
      rw [Budget.cut_map, ← ih]
    rw [place_cons, place_cons, Budget.gather_eq _ hcut, Budget.gather_eq _ hcut]
    rfl

theorem place_cons_none {singles : Nat} {s : UnitShape} {rest : Shape}
    {floor : Option (List SortKey)} :
    tb.place singles (s :: rest) floor held none =
      ((tb.placements held s).filter (tb.aboveFloor floor)).flatMap fun u =>
        (tb.place singles rest (tb.nextFloor s rest u) (held.removeEach u.members u.count) none).map
          (u :: ·) := by
  have hcut : ∀ (b : Budget) (u : TrickUnit),
      (tb.place singles rest (tb.nextFloor s rest u) (held.removeEach u.members u.count) b).map
        (u :: ·) =
      b.cut ((tb.place singles rest (tb.nextFloor s rest u)
        (held.removeEach u.members u.count) none).map (u :: ·)) := by
    intro b u
    rw [Budget.cut_map, ← place_eq_cut]
  rw [place_cons, Budget.gather_eq _ hcut]
  rfl

theorem mem_place_cons {singles : Nat} {s : UnitShape} {rest : Shape}
    {floor : Option (List SortKey)} {g : Grouping} :
    g ∈ tb.place singles (s :: rest) floor held none ↔
      ∃ u ∈ tb.placements held s, tb.aboveFloor floor u = true ∧
        ∃ g' ∈ tb.place singles rest (tb.nextFloor s rest u)
          (held.removeEach u.members u.count) none, g = u :: g' := by
  rw [place_cons_none]
  simp only [List.mem_flatMap, List.mem_filter, List.mem_map]
  constructor
  · intro h
    obtain ⟨u, ⟨hu, hf⟩, g', hg', rfl⟩ := h
    exact ⟨u, hu, hf, g', hg', rfl⟩
  · intro h
    obtain ⟨u, hu, hf, g', hg', rfl⟩ := h
    exact ⟨u, ⟨hu, hf⟩, g', hg', rfl⟩

theorem exists_places_of_mem_place {singles : Nat} {shapes : Shape}
    {floor : Option (List SortKey)} (hc : tb.Covers held) {g : Grouping}
    (h : g ∈ tb.place singles shapes floor held none) :
    ∃ units left, tb.Places held shapes units ∧ tb.Covers left ∧
      (∀ c, left.count c = held.count c - (Grouping.cards units).count c) ∧
      g = units ++ tb.lowestSingles left singles := by
  induction shapes generalizing floor held g with
  | nil =>
    have hg : g = tb.lowestSingles held singles := by simpa [Table.place, Budget.cut] using h
    have hnone : tb.Places held [] [] := ⟨.refl _, by simp, by simp [Grouping.cards], by simp⟩
    exact ⟨[], held, hnone, hc, fun c => by simp [Grouping.cards], by simpa using hg⟩
  | cons s rest ih =>
    obtain ⟨u, hu, -, g', hg', rfl⟩ := mem_place_cons.mp h
    obtain ⟨hs, hr, hus⟩ := (mem_placements hc).mp hu
    obtain ⟨units, left, hp, hcl, hleft, rfl⟩ := ih (hc.removeEach _ _) hg'
    refine ⟨u :: units, left, Places.cons hs hr hus hp, hcl, fun c => ?_, rfl⟩
    rw [hleft, Tally.count_removeEach, Grouping.cards_cons, List.count_append,
      TrickUnit.count_cards]
    omega

/-- Whatever can be placed is found: of the units of the shape to be placed next, the lowest one
keeps to the floor, and it sets a floor that the others keep to. -/
theorem exists_mem_place {singles : Nat} {shapes : Shape} {floor : Option (List SortKey)}
    (hc : tb.Covers held) {units : Grouping} (h : tb.Places held shapes units)
    (hf : ∀ s, shapes.head? = some s → ∀ u ∈ units, u.shape = s → tb.aboveFloor floor u = true) :
    ∃ units' left, units'.Perm units ∧
      units' ++ tb.lowestSingles left singles ∈ tb.place singles shapes floor held none := by
  induction shapes generalizing floor held units with
  | nil =>
    have hunits : units = [] := List.map_eq_nil_iff.mp h.shapes_eq.eq_nil
    exact ⟨[], held, by rw [hunits], by simp [Table.place, Budget.cut]⟩
  | cons s rest ih =>
    have hmem : s ∈ units.map TrickUnit.shape := h.shapes_eq.mem_iff.mpr (by simp)
    obtain ⟨v, hv, hvs⟩ := List.mem_map.mp hmem
    have hne : units.filter (·.shape = s) ≠ [] :=
      List.ne_nil_of_mem (List.mem_filter.mpr ⟨hv, by simpa using hvs⟩)
    obtain ⟨u, hu, hlow⟩ := SortKey.exists_lowest tb.unitKey hne
    obtain ⟨hu, hs⟩ := List.mem_filter.mp hu
    have hs : u.shape = s := by simpa using hs
    obtain ⟨husable, hrest⟩ := Places.pick h hu hs
    have hnext : ∀ s', rest.head? = some s' → ∀ w ∈ units.erase u, w.shape = s' →
        tb.aboveFloor (tb.nextFloor s rest u) w = true := by
      intro s' hs' w hw hws
      by_cases hhead : rest.head? = some s
      · have hss : s' = s := Option.some.inj (hs'.symm.trans hhead)
        have hw' : w ∈ units.filter (·.shape = s) :=
          List.mem_filter.mpr ⟨List.mem_of_mem_erase hw, by simpa [hss] using hws⟩
        simp [Table.aboveFloor, Table.nextFloor, hhead, hlow w hw']
      · simp [Table.aboveFloor, Table.nextFloor, hhead]
    obtain ⟨units', left, hperm, hg'⟩ := ih (hc.removeEach _ _) hrest hnext
    have hplace : u ∈ tb.placements held s :=
      (mem_placements hc).mpr ⟨hs, h.runs u hu, husable⟩
    refine ⟨u :: units', left, (hperm.cons u).trans (List.perm_cons_erase hu).symm, ?_⟩
    exact mem_place_cons.mpr ⟨u, hplace, hf s rfl u hu hs, _, hg', rfl⟩

/-! ### Singles -/

theorem lowestSingles_eq (tb : Table) (held : Tally) (n : Nat) :
    tb.lowestSingles held n =
      ((Copies.expand tb.order held.count).take n).map TrickUnit.single := by
  rw [← Copies.take_expand_min tb.order held.count (Nat.le_refl n)]
  rfl

/-- What is left, written out from low to high, is what the units leave of the cards, sorted. -/
theorem expand_eq_sort_diff {left : Tally} {cards taken : List Card} (hc : tb.Covers left)
    (hall : ∀ c ∈ cards, c ∈ tb.order)
    (hleft : ∀ c, left.count c = cards.count c - taken.count c) :
    Copies.expand tb.order left.count = tb.trump.sort (cards.diff taken) := by
  have hperm : (Copies.expand tb.order left.count).Perm (cards.diff taken) := by
    refine Copies.expand_perm hc.nodup _ ?_ ?_
    · exact fun c h => hall c (List.diff_subset _ _ h)
    · intro c _
      rw [hleft, List.count_diff]
  have hsorted := Copies.pairwise_expand (R := fun a b => tb.trump.cardLe a b = true)
    (fun c => tb.trump.cardLe_iff.mpr (SortKey.le_refl _)) hc.sorted left.count
  exact List.Perm.eq_of_pairwise (fun _ _ _ _ hab hba => tb.trump.cardLe_antisymm hab hba) hsorted
    (tb.trump.pairwise_sort _) (hperm.trans (tb.trump.sort_perm _).symm)

/-! ### Matches -/

theorem covers_ofCards (t : Trump) (cards : List Card) (policy : DrawPolicy) :
    (Table.ofCards t cards policy).Covers (Table.ofCards t cards policy).all := by
  have hperm : (Table.ofCards t cards policy).order.Perm cards.eraseDups := t.sort_perm _
  refine ⟨t.pairwise_sort _, hperm.nodup_iff.mpr (Copies.nodup_eraseDups cards), fun c h => ?_⟩
  rw [hperm.mem_iff, List.mem_eraseDups, ← List.count_pos_iff]
  rwa [← Tally.count_ofList]

theorem mem_order_ofCards {t : Trump} {cards : List Card} {policy : DrawPolicy} {c : Card}
    (h : c ∈ cards) : c ∈ (Table.ofCards t cards policy).order :=
  (t.sort_perm _).mem_iff.mpr (List.mem_eraseDups.mpr h)

theorem places_iff {t : Trump} {cards : List Card} {policy : DrawPolicy} {shapes : Shape}
    {units : Grouping} :
    (Table.ofCards t cards policy).Places (Tally.ofList cards) shapes units ↔
      Placement t policy cards shapes units := by
  have hprot : (Table.ofCards t cards policy).isProtected = true ↔
      policy = .longerTuplesProtected := by simp [Table.ofCards]
  constructor
  · intro h
    refine ⟨h.shapes_eq, h.runs, List.subperm_iff_count.mpr fun c => ?_, fun hp u hu c hc => ?_⟩
    · rw [← Tally.count_ofList cards]
      exact h.fits c
    · rw [← Tally.count_ofList]
      exact h.whole (hprot.mpr hp) u hu c hc
  · intro h
    refine ⟨h.shapes_eq, h.runs, fun c => ?_, fun hp u hu c hc => ?_⟩
    · rw [Tally.count_ofList]
      exact List.subperm_iff_count.mp h.disjoint c
    · rw [← h.whole (hprot.mp hp) u hu c hc]
      exact Tally.count_ofList cards c

end Matching

open Matching

theorem Placement.of_perm {t : Trump} {policy : DrawPolicy} {cards : List Card}
    {shapes shapes' : Shape} {units : Grouping} (h : Placement t policy cards shapes units)
    (hp : shapes.Perm shapes') : Placement t policy cards shapes' units :=
  ⟨h.shapes_eq.trans hp, h.runs, h.disjoint, h.whole⟩

theorem Placement.perm {t : Trump} {policy : DrawPolicy} {cards : List Card} {shapes : Shape}
    {units units' : Grouping} (h : Placement t policy cards shapes units)
    (hp : List.Perm units units') : Placement t policy cards shapes units' :=
  ⟨(hp.map _).symm.trans h.shapes_eq, fun u hu => h.runs u (hp.mem_iff.mpr hu),
    (Grouping.cards_perm hp).symm.subperm.trans h.disjoint,
    fun hpolicy u hu => h.whole hpolicy u (hp.mem_iff.mpr hu)⟩

variable {t : Trump} {cards : List Card} {shape : Shape} {policy : DrawPolicy}

theorem matchShape_eq_cut (b : Budget) :
    matchShape t cards shape policy b = b.cut (matchShape t cards shape policy none) := by
  unfold matchShape
  split
  · exact b.cut_nil.symm
  · exact place_eq_cut ..

/-- The lowest cards that some units leave. -/
def lowestLeft (t : Trump) (cards : List Card) (units : Grouping) (n : Nat) : List Card :=
  (t.sort (cards.diff (Grouping.cards units))).take n

/-- Every match is a placement of the units of several cards, filled up with the lowest cards left. -/
theorem exists_filled_of_mem {g : Grouping} (h : g ∈ matchShape t cards shape policy none) :
    shape.size ≤ cards.length ∧ ∃ units, Placement t policy cards shape.structured units ∧
      g = units ++ (lowestLeft t cards units (shape.count .single)).map TrickUnit.single := by
  unfold matchShape at h
  split at h
  · simp at h
  · rename_i hsize
    obtain ⟨units, left, hp, hc, hleft, rfl⟩ :=
      exists_places_of_mem_place (covers_ofCards t cards policy) h
    refine ⟨by omega, units, (places_iff.mp hp).of_perm (List.mergeSort_perm _ _), ?_⟩
    rw [lowestSingles_eq, expand_eq_sort_diff hc fun c hcm => mem_order_ofCards hcm]
    · rfl
    · intro c
      rw [hleft c]
      exact congrArg (· - _) (Tally.count_ofList cards c)

theorem Placement.append_diff_perm {units : Grouping} (h : Placement t policy cards shape units) :
    (Grouping.cards units ++ cards.diff (Grouping.cards units)).Perm cards :=
  List.subperm_append_diff_self_of_count_le fun c _ => List.subperm_iff_count.mp h.disjoint c

theorem Placement.length_lowestLeft {units : Grouping}
    (h : Placement t policy cards shape.structured units) (hsize : shape.size ≤ cards.length) :
    (lowestLeft t cards units (shape.count .single)).length = shape.count .single := by
  have hlen := h.append_diff_perm.length_eq
  have hunits := Grouping.length_cards units
  have hshape : Shape.size (units.map TrickUnit.shape) = shape.structured.size :=
    Shape.size_perm h.shapes_eq
  have hsplit := shape.size_structured
  rw [List.length_append] at hlen
  rw [lowestLeft, List.length_take, (t.sort_perm _).length_eq]
  omega

theorem Placement.append_lowestLeft_subperm {units : Grouping}
    (h : Placement t policy cards shape units) (n : Nat) :
    (Grouping.cards units ++ lowestLeft t cards units n).Subperm cards := by
  refine List.Subperm.trans ?_ h.append_diff_perm.subperm
  refine (List.subperm_append_left _).mpr ?_
  exact (List.take_sublist _ _).subperm.trans (t.sort_perm _).subperm

theorem exists_placement_of_mem {g : Grouping} (h : g ∈ matchShape t cards shape policy none) :
    ∃ units singles, g = units ++ singles.map TrickUnit.single ∧
      Placement t policy cards shape.structured units ∧
      singles.length = shape.count .single ∧
      (Grouping.cards units ++ singles).Subperm cards := by
  obtain ⟨hsize, units, hplace, rfl⟩ := exists_filled_of_mem h
  exact ⟨units, _, rfl, hplace, hplace.length_lowestLeft hsize, hplace.append_lowestLeft_subperm _⟩

/-- Every placement is found, up to the order of its units. -/
theorem exists_mem_of_placement (hsize : shape.size ≤ cards.length) {units : Grouping}
    (h : Placement t policy cards shape.structured units) :
    ∃ (units' : Grouping) (singles : List Card), List.Perm units' units ∧
      units' ++ singles.map TrickUnit.single ∈ matchShape t cards shape policy none := by
  have hplaces := places_iff.mpr (h.of_perm (List.mergeSort_perm _ structuredLe).symm)
  rw [matchShape, if_neg (by omega)]
  obtain ⟨units', left, hperm, hg⟩ :
      ∃ units' left, units'.Perm units ∧
        units' ++ (Table.ofCards t cards policy).lowestSingles left (shape.count .single) ∈
          (Table.ofCards t cards policy).place (shape.count .single)
            (shape.structured.mergeSort structuredLe) none (Tally.ofList cards) none :=
    exists_mem_place (covers_ofCards t cards policy) hplaces fun _ _ _ _ _ => rfl
  rw [lowestSingles_eq] at hg
  exact ⟨units', _, hperm, hg⟩

/-- A shape is matched exactly when there are enough cards and its units of several cards have a
place on them. -/
theorem matchShape_ne_nil_iff :
    matchShape t cards shape policy none ≠ [] ↔
      shape.size ≤ cards.length ∧ ∃ units, Placement t policy cards shape.structured units := by
  constructor
  · intro h
    obtain ⟨g, hg⟩ := List.exists_mem_of_ne_nil _ h
    obtain ⟨units, singles, -, hplace, -⟩ := exists_placement_of_mem hg
    refine ⟨?_, units, hplace⟩
    by_contra hlt
    simp [matchShape, Nat.not_le.mp hlt] at h
  · intro hspec
    obtain ⟨hsize, units, hplace⟩ := hspec
    obtain ⟨units', singles, -, hg⟩ := exists_mem_of_placement hsize hplace
    exact List.ne_nil_of_mem hg

theorem canMatch_iff :
    canMatch t cards shape policy = true ↔
      shape.size ≤ cards.length ∧ ∃ units, Placement t policy cards shape.structured units := by
  rw [← matchShape_ne_nil_iff, canMatch, matchShape_eq_cut]
  cases matchShape t cards shape policy none <;> simp [Budget.cut]

/-! ### More cards -/

/-- Where tuples are not protected, a placement stays one on more cards. -/
theorem Placement.mono {held : List Card} {units : Grouping} (hp : policy ≠ .longerTuplesProtected)
    (h : Placement t policy cards shape units) (hsub : cards.Subperm held) :
    Placement t policy held shape units :=
  ⟨h.shapes_eq, h.runs, h.disjoint.trans hsub, fun hp' => absurd hp' hp⟩

theorem canMatch_mono {held : List Card} (hp : policy ≠ .longerTuplesProtected)
    (hsub : cards.Subperm held) (h : canMatch t cards shape policy = true) :
    canMatch t held shape policy = true := by
  obtain ⟨hsize, units, hplace⟩ := canMatch_iff.mp h
  exact canMatch_iff.mpr ⟨hsize.trans hsub.length_le, units, hplace.mono hp hsub⟩

end TractorRules
