import TractorRules.Proofs.Format.Matches
import TractorRules.Proofs.Format.Rows

/-!
# Placing weaker shapes

The parts that a unit is weakened to can be made of its very cards
(`UnitShape.WeakensInto.exists_units`).  So where tuples are not protected, a placement of a shape can
be turned into one of each weaker shape, step by step, and cards that suffice for a format suffice for
all of its rows, as more cards do (`rows_matched_on_more_cards`).
-/

namespace TractorRules

variable {t : Trump} {policy : DrawPolicy} {cards : List Card} {units : Grouping}

/-! ### Taking a unit apart -/

namespace TrickUnit

theorem shape_groups (u : TrickUnit) : u.shape.groups = u.members.length := by cases u <;> rfl

/-- Some cards in order are the members of a unit with any number of copies of each. -/
theorem exists_of_members {s : UnitShape} {run : List Card} (h : run.length = s.groups) :
    ∃ u : TrickUnit, u.shape = s ∧ u.members = run := by
  obtain ⟨copies, groups, hcopies, hgroups⟩ := s
  simp only at h
  subst h
  by_cases hone : run.length = 1
  · obtain ⟨c, rfl⟩ := List.length_eq_one_iff.mp hone
    exact ⟨.repeated ⟨c, copies, hcopies⟩, rfl, rfl⟩
  · exact ⟨.tractor ⟨copies, run, hcopies, by omega⟩, rfl, rfl⟩

theorem count_cards_of_shape {u : TrickUnit} {s : UnitShape} (h : u.shape = s) (c : Card) :
    u.cards.count c = s.copies * u.members.count c := by
  rw [count_cards, ← shape_copies, h]

theorem map_shape_singles (cs : List Card) :
    (cs.map single).map shape = List.replicate cs.length .single := by
  induction cs with
  | nil => rfl
  | cons c cs ih =>
    rw [List.map_cons, List.map_cons, ih]
    rfl

end TrickUnit

namespace UnitShape

/-- One copy of each card can be taken off a unit. -/
theorem exists_units_lowered {u : TrickUnit} {copies groups : Nat} (hc : 0 < copies) (hg : 0 < groups)
    (hu : u.shape = ⟨copies + 1, groups, by omega, hg⟩) (hr : t.IsRun u.members) :
    ∃ parts : Grouping,
      parts.map TrickUnit.shape = ⟨copies, groups, hc, hg⟩ :: List.replicate groups .single ∧
      (∀ v ∈ parts, t.IsRun v.members) ∧ (Grouping.cards parts).Perm u.cards := by
  have hlen : u.members.length = groups := by rw [← u.shape_groups, hu]
  obtain ⟨v, hv, hmembers⟩ :=
    TrickUnit.exists_of_members (s := ⟨copies, groups, hc, hg⟩) hlen
  refine ⟨v :: u.members.map TrickUnit.single, ?_, ?_, ?_⟩
  · rw [List.map_cons, hv, TrickUnit.map_shape_singles, hlen]
  · intro w hw
    rcases List.mem_cons.mp hw with rfl | hw
    · rw [hmembers]
      exact hr
    · obtain ⟨c, -, rfl⟩ := List.mem_map.mp hw
      exact Trump.isRun_singleton c
  · rw [List.perm_iff_count]
    intro c
    rw [Grouping.cards_cons, Grouping.cards_singles, List.count_append,
      TrickUnit.count_cards_of_shape hv, TrickUnit.count_cards_of_shape hu, hmembers,
      Nat.add_mul, Nat.one_mul]

/-- What a unit is weakened to can be made of its cards. -/
theorem WeakensInto.exists_units {s : UnitShape} {shapes : Shape} (h : s.WeakensInto shapes)
    {u : TrickUnit} (hu : u.shape = s) (hr : t.IsRun u.members) :
    ∃ parts : Grouping, parts.map TrickUnit.shape = shapes ∧
      (∀ v ∈ parts, t.IsRun v.members) ∧ (Grouping.cards parts).Perm u.cards := by
  cases h with
  | split copies k l hc hk hl =>
    have hlen : u.members.length = k + l := by rw [← u.shape_groups, hu]
    have htake : (u.members.take k).length = k := by rw [List.length_take]; omega
    have hdrop : (u.members.drop k).length = l := by rw [List.length_drop]; omega
    obtain ⟨v, hv, hfirst⟩ := TrickUnit.exists_of_members (s := ⟨copies, k, hc, hk⟩) htake
    obtain ⟨w, hw, hlast⟩ := TrickUnit.exists_of_members (s := ⟨copies, l, hc, hl⟩) hdrop
    refine ⟨[v, w], by rw [List.map_cons, List.map_singleton, hv, hw], ?_, ?_⟩
    · intro x hx
      rcases List.mem_pair.mp hx with rfl | rfl
      · rw [hfirst]
        exact hr.prefix (List.take_prefix k _)
      · rw [hlast]
        exact hr.drop k
    · rw [List.perm_iff_count]
      intro c
      have hcount : (u.members.take k).count c + (u.members.drop k).count c = u.members.count c := by
        rw [← List.count_append, List.take_append_drop]
      rw [Grouping.cards_cons, Grouping.cards_cons, List.count_append, List.count_append,
        TrickUnit.count_cards_of_shape hv, TrickUnit.count_cards_of_shape hw,
        TrickUnit.count_cards_of_shape hu, hfirst, hlast, ← hcount, Nat.mul_add]
      rfl
  | lower copies groups hc hg => exact exists_units_lowered (by omega) (by omega) hu hr
  | scatter s hc hg =>
    refine ⟨u.cards.map TrickUnit.single, ?_, ?_, ?_⟩
    · rw [TrickUnit.map_shape_singles, u.length_cards, hu]
    · intro v hv
      obtain ⟨c, -, rfl⟩ := List.mem_map.mp hv
      exact Trump.isRun_singleton c
    · rw [Grouping.cards_singles]
  | reduce copies hc => exact exists_units_lowered hc (by omega) hu hr

theorem WeakensInto.ne_single {u : UnitShape} {parts : Shape} (h : u.WeakensInto parts) :
    u ≠ .single := by
  rintro rfl
  have hlen := h.two_le_length
  have hle := Shape.length_le_size parts
  rw [h.size_eq] at hle
  have hone : UnitShape.single.size = 1 := rfl
  omega

end UnitShape

/-! ### One step -/

/-- A unit's place is taken by the parts that the unit is weakened to. -/
theorem Placement.weakens {s s' : Shape} (hp : policy ≠ .longerTuplesProtected)
    (h : Placement t policy cards s.structured units) (hstep : Weakens (s : Multiset UnitShape) s') :
    ∃ units', Placement t policy cards s'.structured units' := by
  obtain ⟨u, hu, parts, hparts, heq⟩ := hstep
  have hs : s.structured.Perm (u :: Shape.structured (s.erase u)) := by
    have hperm := (List.perm_cons_erase (Multiset.mem_coe.mp hu)).filter (· != UnitShape.single)
    rwa [List.filter_cons_of_pos (by simpa using hparts.ne_single)] at hperm
  have hs' : s'.structured.Perm (Shape.structured (s.erase u) ++ Shape.structured parts) := by
    rw [Multiset.coe_erase, Multiset.coe_add] at heq
    have hperm := (Multiset.coe_eq_coe.mp heq).filter (· != UnitShape.single)
    rwa [List.filter_append] at hperm
  -- the unit that stands for `u`, and what its cards make
  have hmem : u ∈ units.map TrickUnit.shape :=
    (h.shapes_eq.trans hs).mem_iff.mpr List.mem_cons_self
  obtain ⟨v, hv, hshape⟩ := List.mem_map.mp hmem
  obtain ⟨pieces, hpieces, hruns, hcards⟩ := hparts.exists_units hshape (h.runs v hv)
  have hunits := List.perm_cons_erase hv
  refine ⟨units.erase v ++ Grouping.structured pieces, ?_, ?_, ?_, fun hp' => absurd hp' hp⟩
  · have hrest : ((units.erase v).map TrickUnit.shape).Perm (Shape.structured (s.erase u)) := by
      have hcons := (hunits.map TrickUnit.shape).symm.trans (h.shapes_eq.trans hs)
      rw [List.map_cons, hshape] at hcons
      exact hcons.cons_inv
    rw [List.map_append, Grouping.map_shape_structured, hpieces]
    exact (hrest.append_right _).trans hs'.symm
  · intro w hw
    rcases List.mem_append.mp hw with hw | hw
    · exact h.runs w (List.mem_of_mem_erase hw)
    · exact hruns w (List.mem_of_mem_filter hw)
  · have hsub : (Grouping.cards (Grouping.structured pieces)).Subperm v.cards :=
      (Grouping.structured_cards_subperm pieces).trans hcards.subperm
    rw [Grouping.cards_append]
    refine ((List.subperm_append_left _).mpr hsub).trans ?_
    refine (List.perm_append_comm.trans ?_).subperm.trans h.disjoint
    rw [← Grouping.cards_cons]
    exact (Grouping.cards_perm hunits).symm

theorem canMatch_of_weakens {s s' : Shape} (hp : policy ≠ .longerTuplesProtected)
    (hstep : Weakens (s : Multiset UnitShape) s') (h : canMatch t cards s policy = true) :
    canMatch t cards s' policy = true := by
  obtain ⟨hsize, units, hplace⟩ := canMatch_iff.mp h
  have hsame := hstep.totalSize_eq
  rw [totalSize_coe, totalSize_coe] at hsame
  exact canMatch_iff.mpr ⟨hsame.le.trans hsize, hplace.weakens hp hstep⟩

/-! ### All weaker shapes -/

theorem canMatch_of_perm {s s' : Shape} (hperm : s.Perm s') (h : canMatch t cards s policy = true) :
    canMatch t cards s' policy = true := by
  obtain ⟨hsize, units, hplace⟩ := canMatch_iff.mp h
  exact canMatch_iff.mpr
    ⟨(Shape.size_perm hperm).ge.trans hsize, units, hplace.of_perm (hperm.filter _)⟩

theorem canMatch_of_weakensTo {s s' : Shape} (hp : policy ≠ .longerTuplesProtected)
    (hweak : WeakensTo (s : Multiset UnitShape) s') (h : canMatch t cards s policy = true) :
    canMatch t cards s' policy = true := by
  generalize hm : (s' : Multiset UnitShape) = m at hweak
  induction hweak generalizing s' with
  | refl => exact canMatch_of_perm (Multiset.coe_eq_coe.mp hm).symm h
  | @tail b m _ hstep ih =>
    obtain ⟨mid, rfl⟩ : ∃ mid : Shape, (mid : Multiset UnitShape) = b := Quot.exists_rep b
    subst hm
    exact canMatch_of_weakens hp hstep (ih rfl)

namespace TrickFormat

theorem canMatch_row [RowOrder] {f : TrickFormat} {draw : DrawPolicy} {row : Shape}
    (hp : policy ≠ .longerTuplesProtected) (hrow : row ∈ f.decomposition draw)
    (h : canMatch t cards f.units policy = true) : canMatch t cards row policy = true := by
  by_cases hdraw : draw = .noFormatBasedDraw
  · obtain ⟨hsize, -⟩ := canMatch_iff.mp h
    rw [hdraw, decomposition_noFormat, List.mem_singleton] at hrow
    have hweak := weakensTo_singles (f.units : Multiset UnitShape)
    rw [totalSize_coe, ← Multiset.coe_replicate] at hweak
    rw [hrow]
    exact canMatch_of_weakensTo hp hweak h
  · exact canMatch_of_weakensTo hp (weakensTo_of_mem hdraw hrow) h

end TrickFormat

/-- Cards that some units can be matched on can be matched on each row of the units' decomposition as
well, and with more cards that stays so, unless longer tuples are protected. -/
theorem TrickFormat.rows_matched_on_more_cards [RowOrder] (t : Trump) (f : TrickFormat)
    (draw : DrawPolicy) {cards more : List Card} (hsub : cards.Subperm more)
    (h : matchShape t cards f.units .noProtections none ≠ []) :
    ∀ row ∈ f.decomposition draw, matchShape t more row .noProtections none ≠ [] := by
  intro row hrow
  have hp : DrawPolicy.noProtections ≠ .longerTuplesProtected := by decide
  have hlead : canMatch t cards f.units .noProtections = true :=
    canMatch_iff.mpr (matchShape_ne_nil_iff.mp h)
  have hmore := canMatch_mono hp hsub (canMatch_row hp hrow hlead)
  exact matchShape_ne_nil_iff.mpr (canMatch_iff.mp hmore)

/-- Two pairs in a row up to the jokers and the pair above, the twos of hearts being the highest other
trump. -/
def pairsToJokers : List Card :=
  [.suited .hearts .two, .suited .hearts .two, .joker .small, .joker .small, .joker .big, .joker .big]

def pairsToJokersFormat : TrickFormat where
  suit := .trump
  trump := ⟨some .hearts, some .two⟩
  units := [⟨2, 3, Nat.two_pos, Nat.succ_pos 2⟩]

def pairsToJokersSplit : Shape := [⟨2, 2, Nat.two_pos, Nat.two_pos⟩, ⟨2, 1, Nat.two_pos, Nat.one_pos⟩]

section

open scoped RowOrder

/-- With one more big joker two of the three pairs in a row and another pair are still there. -/
theorem TrickFormat.pairsToJokers_split :
    pairsToJokers.Subperm (.joker .big :: pairsToJokers) ∧
      matchShape pairsToJokersFormat.trump pairsToJokers pairsToJokersFormat.units .noProtections
        none ≠ [] ∧
      pairsToJokersSplit ∈ pairsToJokersFormat.decomposition .noProtections ∧
      matchShape pairsToJokersFormat.trump (.joker .big :: pairsToJokers) pairsToJokersSplit
        .noProtections none ≠ [] := by
  have hsub : pairsToJokers.Subperm (.joker .big :: pairsToJokers) :=
    (List.sublist_cons_self _ _).subperm
  have hplace : Placement pairsToJokersFormat.trump .noProtections pairsToJokers
      pairsToJokersFormat.units.structured
      [.tractor ⟨2, [.suited .hearts .two, .joker .small, .joker .big], by omega, by decide⟩] := by
    refine ⟨.refl _, fun u hu => ?_, by decide, fun hp => absurd hp (by decide)⟩
    rw [List.mem_singleton.mp hu]
    exact Trump.isRun_cons_cons.mpr ⟨by decide, Trump.isRun_cons_cons.mpr
      ⟨by decide, Trump.isRun_singleton _⟩⟩
  have hmatch : matchShape pairsToJokersFormat.trump pairsToJokers pairsToJokersFormat.units
      .noProtections none ≠ [] := matchShape_ne_nil_iff.mpr ⟨by decide, _, hplace⟩
  have hrow : pairsToJokersSplit ∈ pairsToJokersFormat.decomposition .noProtections := by
    refine mem_decomposition_of_mem_reductions (by decide) (Shape.mem_reductions_iff.mpr ⟨?_, ?_⟩)
    · exact List.mergeSort_of_pairwise (by decide)
    · exact ⟨⟨2, 3, by omega, by omega⟩, by decide, _,
        .split 2 2 1 (by omega) (by omega) (by omega), by decide⟩
  exact ⟨hsub, hmatch, hrow, rows_matched_on_more_cards _ _ .noProtections hsub hmatch _ hrow⟩

end

end TractorRules
