import TractorRules.Proofs.Format.Decomposition

/-!
# Preference of shapes

A weaker shape is always less preferred (`WeakensTo.preference_lt`), so that the rows of a
decomposition are in order of preference with the format's own shape strictly first
(`pairwise_decomposition`).  Shapes that are equally preferred need not be equal, but those of two
decks are (`perm_of_preference_eq`).
-/

namespace TractorRules

/-! ### Descending lists -/

def descending (ns : List Nat) : List Nat := ns.mergeSort fun m n => decide (n ≤ m)

theorem descending_perm (ns : List Nat) : (descending ns).Perm ns := List.mergeSort_perm _ _

theorem pairwise_descending (ns : List Nat) : (descending ns).Pairwise fun m n => n ≤ m := by
  have h : (descending ns).Pairwise fun m n => decide (n ≤ m) = true := by
    refine List.pairwise_mergeSort (fun a b c hab hbc => ?_) (fun a b => ?_) ns
    · simp only [decide_eq_true_eq] at *
      omega
    · simp only [Bool.or_eq_true, decide_eq_true_eq]
      omega
  exact h.imp fun hab => of_decide_eq_true hab

theorem descending_eq_iff {ms ns : List Nat} : descending ms = descending ns ↔ ms.Perm ns := by
  constructor
  · intro h
    exact (descending_perm ms).symm.trans (h ▸ descending_perm ns)
  · intro h
    refine List.Perm.eq_of_pairwise (fun a b _ _ hab hba => Nat.le_antisymm hba hab)
      (pairwise_descending ms) (pairwise_descending ns) ?_
    exact (descending_perm ms).trans (h.trans (descending_perm ns).symm)

def negated (ns : List Nat) : List Int := ns.map fun n : Nat => -(n : Int)

/-- Of two lists from high to low, the one with more copies of the highest number that they do not
share comes first. -/
theorem compare_negated_lt {ms ns : List Nat} (hm : ms.Pairwise fun a b => b ≤ a)
    (hn : ns.Pairwise fun a b => b ≤ a) {v : Nat} (habove : ∀ u, v < u → ms.count u = ns.count u)
    (hv : ns.count v < ms.count v) (hlen : ms.length ≤ ns.length) :
    compare (negated ms) (negated ns) = .lt := by
  induction ms generalizing ns with
  | nil => simp at hv
  | cons a ms ih =>
    cases ns with
    | nil => simp at hlen
    | cons b ns =>
      obtain ⟨ha, hms⟩ := List.pairwise_cons.mp hm
      obtain ⟨-, hns⟩ := List.pairwise_cons.mp hn
      have hva : v ≤ a := by
        have hmem : v ∈ a :: ms := List.count_pos_iff.mp (by omega)
        rcases List.mem_cons.mp hmem with rfl | hmem
        · exact Nat.le_refl _
        · exact ha v hmem
      have hba : b ≤ a := by
        by_contra hlt
        have hmem : b ∈ a :: ms := by
          rw [← List.count_pos_iff, habove b (by omega)]
          exact List.count_pos_iff.mpr List.mem_cons_self
        rcases List.mem_cons.mp hmem with rfl | hmem
        · exact hlt (Nat.le_refl _)
        · exact hlt (ha b hmem)
      have hcons : compare (negated (a :: ms)) (negated (b :: ns)) =
          (compare (-(a : Int)) (-(b : Int))).then (compare (negated ms) (negated ns)) :=
        List.compare_cons_cons
      rw [hcons]
      by_cases hab : a = b
      · subst hab
        have hrest : ∀ u, (a :: ms).count u = ms.count u + if a == u then 1 else 0 := fun u =>
          List.count_cons
        have hrest' : ∀ u, (a :: ns).count u = ns.count u + if a == u then 1 else 0 := fun u =>
          List.count_cons
        have htail : compare (negated ms) (negated ns) = .lt := by
          refine ih hms hns (fun u hu => ?_) ?_ (by simpa using hlen)
          · have h := habove u hu
            rw [hrest, hrest'] at h
            omega
          · rw [hrest, hrest'] at hv
            omega
        rw [htail, Std.ReflOrd.compare_self]
        rfl
      · have hlt : compare (-(a : Int)) (-(b : Int)) = .lt := by
          rw [compare_lt_iff_lt]
          omega
        rw [hlt]
        rfl

theorem negated_injective {ms ns : List Nat} (h : negated ms = negated ns) : ms = ns := by
  refine List.map_injective_iff.mpr (fun a b hab => ?_) h
  omega

/-! ### The parts of the preference -/

namespace Shape

def multiplicities (s : Shape) : List Nat := s.flatMap UnitShape.tuples

theorem preference_def (s : Shape) :
    s.preference = [negated (descending s.multiplicities), [(s.length : Int)],
      negated (descending (s.map UnitShape.groups))] := rfl

theorem preference_eq_iff {s t : Shape} :
    s.preference = t.preference ↔ s.multiplicities.Perm t.multiplicities ∧
      s.length = t.length ∧ (s.map UnitShape.groups).Perm (t.map UnitShape.groups) := by
  simp only [preference_def, List.cons.injEq, and_true, Int.natCast_inj]
  constructor
  · intro h
    obtain ⟨hm, hlen, hg⟩ := h
    exact ⟨descending_eq_iff.mp (negated_injective hm), hlen,
      descending_eq_iff.mp (negated_injective hg)⟩
  · intro h
    obtain ⟨hm, hlen, hg⟩ := h
    rw [descending_eq_iff.mpr hm, descending_eq_iff.mpr hg]
    exact ⟨rfl, hlen, rfl⟩

theorem preference_perm {s t : Shape} (h : s.Perm t) : s.preference = t.preference :=
  preference_eq_iff.mpr ⟨h.flatMap_right _, h.length_eq, h.map _⟩

theorem compare_preference (s t : Shape) :
    compare s.preference t.preference =
      (compare (negated (descending s.multiplicities)) (negated (descending t.multiplicities))).then
        ((compare [(s.length : Int)] [(t.length : Int)]).then
          (compare [negated (descending (s.map UnitShape.groups))]
            [negated (descending (t.map UnitShape.groups))])) := by
  rw [preference_def, preference_def, List.compare_cons_cons, List.compare_cons_cons]

theorem preference_lt_of_multiplicities {s t : Shape}
    (h : compare (negated (descending s.multiplicities)) (negated (descending t.multiplicities)) =
      .lt) : compare s.preference t.preference = .lt := by
  rw [compare_preference, h]
  rfl

theorem preference_lt_of_length {s t : Shape} (hm : s.multiplicities.Perm t.multiplicities)
    (hlen : s.length < t.length) : compare s.preference t.preference = .lt := by
  have hfirst : compare (s.length : Int) (t.length : Int) = .lt := by
    rw [compare_lt_iff_lt]
    omega
  rw [compare_preference, descending_eq_iff.mpr hm, Std.ReflOrd.compare_self,
    List.compare_cons_cons, hfirst]
  rfl

theorem multiplicities_singles (n : Nat) :
    multiplicities (List.replicate n .single) = List.replicate n 1 := by
  induction n with
  | zero => rfl
  | succ n ih =>
    have hstep : multiplicities (List.replicate (n + 1) .single) =
        1 :: multiplicities (List.replicate n .single) := rfl
    rw [hstep, ih]
    rfl

end Shape

/-! ### Weaker shapes are less preferred -/

/-- Multiplicities below those of a unit, and no fewer of them, are less than its own. -/
theorem UnitShape.exists_fewer_of_lt {u : UnitShape} {ms : List Nat} (hlt : ∀ m ∈ ms, m < u.copies)
    (hlen : u.groups ≤ ms.length) :
    ∃ v, (∀ n, v < n → ms.count n = u.tuples.count n) ∧ ms.count v < u.tuples.count v ∧
      u.tuples.length ≤ ms.length := by
  have hnone {n : Nat} (hn : u.copies ≤ n) : ms.count n = 0 := List.count_eq_zero.mpr fun hmem => by
    have hless := hlt n hmem
    omega
  refine ⟨u.copies, fun n hn => ?_, ?_, by rwa [tuples, List.length_replicate]⟩
  · rw [hnone hn.le, tuples, List.count_replicate, if_neg (by simpa using hn.ne)]
  · rw [hnone le_rfl, tuples, List.count_replicate_self]
    exact u.groups_pos

/-- Weaker parts have the multiplicities of the unit, or fewer of the greatest one that differs. -/
theorem UnitShape.WeakensInto.multiplicities {u : UnitShape} {parts : Shape}
    (h : u.WeakensInto parts) :
    (Shape.multiplicities parts).Perm u.tuples ∨
      ∃ v, (∀ n, v < n → (Shape.multiplicities parts).count n = u.tuples.count n) ∧
        (Shape.multiplicities parts).count v < u.tuples.count v ∧
        u.tuples.length ≤ (Shape.multiplicities parts).length := by
  cases h with
  | split copies k l hc hk hl =>
    left
    have hsplit : Shape.multiplicities [⟨copies, k, hc, hk⟩, ⟨copies, l, hc, hl⟩] =
        List.replicate k copies ++ (List.replicate l copies ++ []) := rfl
    rw [hsplit, List.append_nil, tuples, List.replicate_add]
  | lower copies groups hc hg =>
    right
    have hparts : Shape.multiplicities (⟨copies, groups, by omega, by omega⟩ ::
        List.replicate groups .single) = List.replicate groups copies ++ List.replicate groups 1 := by
      rw [← Shape.multiplicities_singles groups]
      rfl
    rw [hparts]
    refine exists_fewer_of_lt (List.forall_mem_append.mpr ⟨fun m hm => ?_, fun m hm => ?_⟩) ?_
    · exact (List.eq_of_mem_replicate hm).trans_lt (Nat.lt_succ_self copies)
    · exact (List.eq_of_mem_replicate hm).trans_lt (Nat.succ_lt_succ (Nat.zero_lt_of_lt hc))
    · rw [List.length_append, List.length_replicate]
      exact Nat.le_add_right _ _
  | scatter u hc hg =>
    rw [Shape.multiplicities_singles u.size]
    by_cases hone : u.copies = 1
    · left
      rw [tuples, size, hone, Nat.one_mul]
    · right
      have hpos := u.copies_pos
      refine exists_fewer_of_lt (fun m hm => ?_) ?_
      · rw [List.eq_of_mem_replicate hm]
        omega
      · rw [List.length_replicate]
        exact Nat.le_mul_of_pos_left _ hpos
  | reduce copies hc =>
    right
    have hparts : Shape.multiplicities [⟨copies, 1, hc, by omega⟩, .single] = [copies, 1] := rfl
    rw [hparts]
    refine exists_fewer_of_lt (List.forall_mem_cons.mpr ⟨Nat.lt_succ_self copies,
      List.forall_mem_singleton.mpr (Nat.succ_lt_succ hc)⟩) (Nat.le_succ 1)

theorem Weakens.preference_lt {s t : Shape} (h : Weakens (s : Multiset UnitShape) t) :
    compare s.preference t.preference = .lt := by
  have hcard := h.card_lt
  rw [Multiset.coe_card, Multiset.coe_card] at hcard
  obtain ⟨u, hu, parts, hparts, ht⟩ := h
  have hs : s.Perm (u :: s.erase u) := List.perm_cons_erase (Multiset.mem_coe.mp hu)
  have ht : t.Perm (s.erase u ++ parts) := by
    rw [Multiset.coe_erase, Multiset.coe_add] at ht
    exact Multiset.coe_eq_coe.mp ht
  have hms : s.multiplicities.Perm (u.tuples ++ Shape.multiplicities (s.erase u)) := by
    have hflat := hs.flatMap_right UnitShape.tuples
    rwa [List.flatMap_cons] at hflat
  have hmt : t.multiplicities.Perm
      (Shape.multiplicities parts ++ Shape.multiplicities (s.erase u)) := by
    have hflat := ht.flatMap_right UnitShape.tuples
    rw [List.flatMap_append] at hflat
    exact hflat.trans List.perm_append_comm
  rcases hparts.multiplicities with hsame | ⟨v, habove, hv, hlen⟩
  · exact Shape.preference_lt_of_length
      (hms.trans ((hsame.symm.append_right _).trans hmt.symm)) hcard
  · refine Shape.preference_lt_of_multiplicities (compare_negated_lt (pairwise_descending _)
      (pairwise_descending _) (fun n hn => ?_) (v := v) ?_ ?_)
    · rw [(descending_perm _).count_eq, (descending_perm _).count_eq, hms.count_eq, hmt.count_eq,
        List.count_append, List.count_append, habove n hn]
    · rw [(descending_perm _).count_eq, (descending_perm _).count_eq, hms.count_eq, hmt.count_eq,
        List.count_append, List.count_append]
      omega
    · rw [(descending_perm _).length_eq, (descending_perm _).length_eq, hms.length_eq,
        hmt.length_eq, List.length_append, List.length_append]
      omega

theorem WeakensTo.preference_lt {s t : Shape} (h : WeakensTo (s : Multiset UnitShape) t)
    (hne : ¬s.Perm t) : compare s.preference t.preference = .lt := by
  generalize hm : (t : Multiset UnitShape) = m at h
  induction h generalizing t with
  | refl => exact absurd (Multiset.coe_eq_coe.mp hm).symm hne
  | @tail b m _ hstep ih =>
    subst hm
    obtain ⟨mid, rfl⟩ : ∃ mid : Shape, (mid : Multiset UnitShape) = b := Quot.exists_rep b
    have hlast := Weakens.preference_lt hstep
    by_cases hmid : s.Perm mid
    · rwa [Shape.preference_perm hmid]
    · exact Std.TransCmp.lt_trans (ih hmid rfl) hlast

/-! ### Shapes of two decks -/

/-- Singles, pairs and tractors of pairs. -/
def TwoDeck (s : Multiset UnitShape) : Prop :=
  ∀ u ∈ s, u.copies ≤ 2 ∧ (u.copies = 1 → u.groups = 1)

theorem twoDeck_cons {u : UnitShape} {s : Shape} :
    TwoDeck (u :: s : Shape) ↔ (u.copies ≤ 2 ∧ (u.copies = 1 → u.groups = 1)) ∧ TwoDeck s :=
  List.forall_mem_cons

theorem WeakensTo.twoDeck {s t : Multiset UnitShape} (h : WeakensTo s t) (hs : TwoDeck s) :
    TwoDeck t :=
  h.forall_units (fun _ _ hparts hu _ hv =>
    ⟨(hparts.copies_le hv).trans hu.1, hparts.groups_eq_one hu.2 hv⟩) hs

namespace Shape

theorem multiplicities_cons (u : UnitShape) (s : Shape) :
    multiplicities (u :: s) = u.tuples ++ multiplicities s := List.flatMap_cons

theorem count_single_of_twoDeck {s : Shape} (hs : TwoDeck s) :
    s.multiplicities.count 1 = s.count .single := by
  induction s with
  | nil => rfl
  | cons u s ih =>
    obtain ⟨hu, hrest⟩ := twoDeck_cons.mp hs
    obtain ⟨copies, groups, hc, hg⟩ := u
    rw [multiplicities_cons, List.count_append, ih hrest, List.count_cons, UnitShape.tuples,
      List.count_replicate]
    by_cases hone : copies = 1
    · obtain rfl : groups = 1 := hu.2 hone
      subst hone
      exact Nat.add_comm 1 _
    · have hne : (⟨copies, groups, hc, hg⟩ : UnitShape) ≠ .single := fun h =>
        hone (congrArg UnitShape.copies h)
      simp [hone, hne]

theorem count_groups_of_twoDeck {s : Shape} (hs : TwoDeck s) {g : Nat} (hg : 0 < g) :
    (s.map UnitShape.groups).count g =
      s.count ⟨2, g, by omega, hg⟩ + if g = 1 then s.count .single else 0 := by
  induction s with
  | nil => simp
  | cons u s ih =>
    obtain ⟨hu, hrest⟩ := twoDeck_cons.mp hs
    obtain ⟨copies, groups, hc, hgroups⟩ := u
    rw [List.map_cons, List.count_cons, List.count_cons, List.count_cons, ih hrest]
    by_cases hone : copies = 1
    · obtain rfl : groups = 1 := hu.2 hone
      subst hone
      by_cases h1 : g = 1
      · subst h1
        simp [UnitShape.single]
        omega
      · simp [h1, Ne.symm h1]
    · obtain rfl : copies = 2 := by
        have hle := hu.1
        simp only at hle
        omega
      by_cases hgg : groups = g
      · subst hgg
        simp [UnitShape.single]
        omega
      · simp [UnitShape.single, hgg]

/-- Equally preferred shapes of two decks have the same units. -/
theorem perm_of_preference_eq {s t : Shape} (hs : TwoDeck s) (ht : TwoDeck t)
    (h : s.preference = t.preference) : s.Perm t := by
  obtain ⟨hm, -, hg⟩ := preference_eq_iff.mp h
  have hsingle : s.count .single = t.count .single := by
    rw [← count_single_of_twoDeck hs, ← count_single_of_twoDeck ht, hm.count_eq]
  rw [List.perm_iff_count]
  intro u
  obtain ⟨copies, groups, hc, hgroups⟩ := u
  by_cases htwo : copies = 2
  · subst htwo
    have hcount := hg.count_eq groups
    rw [count_groups_of_twoDeck hs hgroups, count_groups_of_twoDeck ht hgroups, hsingle] at hcount
    omega
  · by_cases hu : (⟨copies, groups, hc, hgroups⟩ : UnitShape) = .single
    · rw [hu, hsingle]
    · have hout : ∀ r : Shape, TwoDeck r → r.count ⟨copies, groups, hc, hgroups⟩ = 0 := by
        intro r hr
        refine List.count_eq_zero_of_not_mem fun hmem => hu ?_
        obtain ⟨hle, hone⟩ := hr _ hmem
        simp only at hle hone
        obtain rfl : copies = 1 := by omega
        obtain rfl : groups = 1 := hone rfl
        rfl
      rw [hout s hs, hout t ht]

end Shape

/-! ### The order of the rows -/

namespace Shape

/-- A shape is preferred to another or tied with it. -/
def NoWorse (s t : Shape) : Prop := (compare s.preference t.preference).isLE = true

theorem NoWorse.trans {s t u : Shape} (h : NoWorse s t) (h' : NoWorse t u) : NoWorse s u :=
  Std.TransCmp.isLE_trans h h'

theorem NoWorse.antisymm {s t : Shape} (h : NoWorse s t) (h' : NoWorse t s) :
    s.preference = t.preference := by
  refine Std.LawfulEqOrd.eq_of_compare (Std.OrientedCmp.isLE_antisymm h h')

theorem noWorse_of_eq {s t : Shape} (h : s.preference = t.preference) : NoWorse s t := by
  rw [NoWorse, h, Std.ReflOrd.compare_self]
  rfl

theorem not_noWorse_iff {s t : Shape} :
    ¬NoWorse s t ↔ compare t.preference s.preference = .lt := by
  rw [NoWorse, Std.OrientedOrd.eq_swap (a := t.preference)]
  cases compare s.preference t.preference <;> simp

/-- A shape that is no worse than those one step weaker than another is no worse than any weaker. -/
theorem noWorse_of_preferences {s : Shape} {ts : List Shape} {p : List (List Int)}
    {ps : List (List (List Int))} (hs : s.preference = p) (hts : ts.map preference = ps)
    (h : ∀ q ∈ ps, (compare p q).isLE = true) : ∀ t ∈ ts, s.NoWorse t := by
  intro t ht
  rw [NoWorse, hs]
  exact h _ (hts ▸ List.mem_map_of_mem ht)

theorem noWorse_of_reductions {r s t : Shape} (hr : ∀ m ∈ s.reductions, r.NoWorse m)
    (h : WeakensTo (s : Multiset UnitShape) t) (hne : ¬s.Perm t) : r.NoWorse t := by
  rcases Relation.ReflTransGen.cases_head h with heq | ⟨m, hsm, hmt⟩
  · exact absurd (Multiset.coe_eq_coe.mp heq) hne
  · obtain ⟨mid, rfl⟩ : ∃ mid : Shape, (mid : Multiset UnitShape) = m := Quot.exists_rep m
    have hmem : mid.canonical ∈ s.reductions :=
      mem_reductions_iff.mpr ⟨canonical_canonical mid, by rwa [canonical_coe]⟩
    refine (hr _ hmem).trans ?_
    by_cases hperm : mid.Perm t
    · exact noWorse_of_eq (preference_perm ((canonical_perm mid).trans hperm))
    · rw [NoWorse, preference_perm (canonical_perm mid), WeakensTo.preference_lt hmt hperm]
      rfl

theorem pairwise_sortRows [RowOrder] (start : Shape) (rows : List Shape) :
    (sortRows start rows).Pairwise NoWorse := by
  generalize hkeyed : (RowOrder.arrange start rows).map (fun s => (s.preference, s)) = keyed
  have hsorted : (keyed.mergeSort fun a b => (compare a.1 b.1).isLE).Pairwise fun a b =>
      (compare a.1 b.1).isLE = true := by
    refine List.pairwise_mergeSort (fun a b c hab hbc => ?_) (fun a b => ?_) _
    · exact Std.TransCmp.isLE_trans hab hbc
    · rw [Bool.or_eq_true, Std.OrientedOrd.eq_swap (a := b.1)]
      cases compare a.1 b.1 <;> simp
  have hkey : ∀ p ∈ keyed.mergeSort fun a b => (compare a.1 b.1).isLE, p.1 = p.2.preference := by
    intro p hp
    rw [List.mem_mergeSort, ← hkeyed, List.mem_map] at hp
    obtain ⟨s, -, rfl⟩ := hp
    rfl
  rw [sortRows, hkeyed, List.pairwise_map]
  refine hsorted.imp_of_mem fun {a b} ha hb hab => ?_
  rwa [hkey a ha, hkey b hb] at hab

end Shape

namespace TrickFormat

variable [RowOrder]

theorem preference_lt_of_mem_weaker {f : TrickFormat} {row : Shape} (h : row ∈ f.weaker) :
    compare f.units.preference row.preference = .lt :=
  (mem_weaker_iff.mp h).2.2.preference_lt (not_perm_of_mem_weaker h)

/-- No two rows of a format of two decks are equally preferred. -/
theorem eq_of_preference_eq {f : TrickFormat} {policy : DrawPolicy}
    (h : policy = .noFormatBasedDraw ∨ TwoDeck f.units) {row row' : Shape}
    (hrow : row ∈ f.decomposition policy) (hrow' : row' ∈ f.decomposition policy)
    (heq : row.preference = row'.preference) : row = row' := by
  by_cases hp : policy = .noFormatBasedDraw
  · rw [hp, decomposition_noFormat, List.mem_singleton] at hrow hrow'
    rw [hrow, hrow']
  · have htwo : TwoDeck f.units := h.resolve_left hp
    have hperm : row.Perm row' := Shape.perm_of_preference_eq
      ((weakensTo_of_mem hp hrow).twoDeck htwo) ((weakensTo_of_mem hp hrow').twoDeck htwo) heq
    rw [decomposition_eq hp, List.mem_cons] at hrow hrow'
    rcases hrow with rfl | hrow
    · rcases hrow' with rfl | hrow'
      · rfl
      · have hlt := preference_lt_of_mem_weaker hrow'
        rw [heq, Std.ReflOrd.compare_self] at hlt
        cases hlt
    · rcases hrow' with rfl | hrow'
      · have hlt := preference_lt_of_mem_weaker hrow
        rw [heq, Std.ReflOrd.compare_self] at hlt
        cases hlt
      · rw [← (mem_weaker_iff.mp hrow).1, ← (mem_weaker_iff.mp hrow').1]
        exact Shape.canonical_eq_iff.mpr hperm

theorem pairwise_decomposition (f : TrickFormat) (policy : DrawPolicy) :
    (f.decomposition policy).Pairwise Shape.NoWorse := by
  by_cases hp : policy = .noFormatBasedDraw
  · rw [hp, decomposition_noFormat]
    exact List.pairwise_singleton _ _
  · rw [decomposition_eq hp, List.pairwise_cons]
    refine ⟨fun row hrow => ?_, Shape.pairwise_sortRows _ _⟩
    rw [Shape.NoWorse, preference_lt_of_mem_weaker hrow]
    rfl

end TrickFormat

end TractorRules
