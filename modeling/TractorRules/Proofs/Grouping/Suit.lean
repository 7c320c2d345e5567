import TractorRules.Proofs.Grouping.Rest
import TractorRules.Proofs.Grouping.Run

/-!
# Groupings of one suit

The candidates are exactly the tractors that the cards could supply on their own, none of them twice
(`mem_candidateTractors`, `nodup_candidateTractors`), and the search finds exactly the groupings that
take tractors from them, as many as the cards allow, each once (`enumerates_takeTractors`).
-/

namespace TractorRules

variable {t : Trump} {req : TractorRequirements} {held : Tally} {order : List Card}

/-! ### Candidates -/

theorem le_least_iff {ns : List Nat} (h : ns ≠ []) {n : Nat} :
    n ≤ ns.min?.getD 0 ↔ ∀ m ∈ ns, n ≤ m := by
  cases hm : ns.min? with
  | none => exact absurd (List.min?_eq_none_iff.mp hm) h
  | some m => exact List.le_min?_iff hm

theorem Tractor.ofNat?_eq_some_iff {n : Nat} {run : List Card} {r : Tractor} :
    Tractor.ofNat? n run = some r ↔ r.count = n ∧ r.members = run := by
  unfold ofNat?
  constructor
  · intro h
    split at h
    · rw [← Option.some.inj h]
      exact ⟨rfl, rfl⟩
    · simp at h
  · intro h
    obtain ⟨rfl, rfl⟩ := h
    rw [dif_pos ⟨r.count_pos, r.two_le_length⟩]

theorem mem_tractorsOfRun {run : List Card} {r : Tractor} :
    r ∈ tractorsOfRun req held run ↔ r.members = run ∧ req.minLength ≤ r.members.length ∧
      req.minCount ≤ r.count ∧ ∀ c ∈ r.members, r.count ≤ held.count c := by
  have hmost : r.count ≤ (r.members.map held.count).min?.getD 0 ↔
      ∀ c ∈ r.members, r.count ≤ held.count c := by
    rw [le_least_iff (by simpa using r.members_ne_nil), List.forall_mem_map]
  unfold tractorsOfRun
  constructor
  · intro h
    split at h
    · rename_i hlength
      obtain ⟨n, hn, hr⟩ := List.mem_filterMap.mp h
      obtain ⟨rfl, rfl⟩ := Tractor.ofNat?_eq_some_iff.mp hr
      rw [List.mem_range'_1] at hn
      exact ⟨rfl, hlength, hn.1, hmost.mp (by omega)⟩
    · simp at h
  · intro h
    obtain ⟨rfl, hlength, hcount, hheld⟩ := h
    rw [if_pos hlength]
    have hle := hmost.mpr hheld
    refine List.mem_filterMap.mpr ⟨r.count, ?_, Tractor.ofNat?_eq_some_iff.mpr ⟨rfl, rfl⟩⟩
    rw [List.mem_range'_1]
    omega

theorem nodup_tractorsOfRun (run : List Card) : (tractorsOfRun req held run).Nodup := by
  unfold tractorsOfRun
  split
  · refine List.Nodup.filterMap (fun n n' r h h' => ?_) List.nodup_range'
    rw [← (Tractor.ofNat?_eq_some_iff.mp h).1, ← (Tractor.ofNat?_eq_some_iff.mp h').1]
  · exact .nil

/-- Runs of members that are long enough, with enough copies. -/
structure Tractor.IsAllowed (t : Trump) (req : TractorRequirements) (r : Tractor) : Prop where
  isRun : t.IsRun r.members
  minLength_le : req.minLength ≤ r.members.length
  minCount_le : req.minCount ≤ r.count

theorem mem_candidateTractors_of_sublist {r : Tractor} :
    r ∈ candidateTractors t req held order ↔
      r.IsAllowed t req ∧ r.members.Sublist order ∧ ∀ c ∈ r.members, r.count ≤ held.count c := by
  induction order with
  | nil =>
    simp only [candidateTractors, List.not_mem_nil, List.sublist_nil, false_iff]
    exact fun h => r.members_ne_nil h.2.1
  | cons c rest ih =>
    rw [candidateTractors, List.mem_append, ih]
    constructor
    · intro h
      rcases h with hfirst | ⟨hallowed, hsub, hheld⟩
      · split at hfirst
        · obtain ⟨run, hrun, hr⟩ := List.mem_flatMap.mp hfirst
          obtain ⟨more, -, rfl, hsub, hisRun, -⟩ := Trump.mem_climbs.mp hrun
          obtain ⟨hmembers, hlength, hcount, hheld⟩ := mem_tractorsOfRun.mp hr
          have hmembers : r.members = c :: more := hmembers
          exact ⟨⟨hmembers ▸ hisRun, hlength, hcount⟩, hmembers ▸ hsub.cons_cons c, hheld⟩
        · simp at hfirst
      · exact ⟨hallowed, hsub.cons c, hheld⟩
    · intro h
      obtain ⟨hallowed, hsub, hheld⟩ := h
      rcases List.sublist_cons_iff.mp hsub with hsub | ⟨more, hmembers, hsub⟩
      · exact Or.inr ⟨hallowed, hsub, hheld⟩
      · left
        have husable {d : Card} (hd : d ∈ r.members) : req.minCount ≤ held.count d :=
          Nat.le_trans hallowed.minCount_le (hheld d hd)
        have hmore : more ≠ [] := by
          have htwo := r.two_le_length
          rintro rfl
          rw [hmembers] at htwo
          simp at htwo
        rw [if_pos (decide_eq_true (husable (hmembers ▸ List.mem_cons_self)))]
        refine List.mem_flatMap.mpr ⟨r.members, Trump.mem_climbs.mpr ?_,
          mem_tractorsOfRun.mpr ⟨rfl, hallowed.minLength_le, hallowed.minCount_le, hheld⟩⟩
        refine ⟨more, hmore, hmembers, hsub, hmembers ▸ hallowed.isRun, fun d hd => ?_⟩
        exact decide_eq_true (husable (hmembers ▸ List.mem_cons_of_mem c hd))

theorem mem_candidateTractors {r : Tractor} (ho : order.Pairwise fun a b => t.cardLe a b = true) :
    r ∈ candidateTractors t req held order ↔
      r.IsAllowed t req ∧ r.members ⊆ order ∧ ∀ c ∈ r.members, r.count ≤ held.count c := by
  rw [mem_candidateTractors_of_sublist]
  constructor
  · exact fun ⟨hallowed, hsub, hheld⟩ => ⟨hallowed, hsub.subset, hheld⟩
  · intro h
    obtain ⟨hallowed, hsub, hheld⟩ := h
    have hrun := hallowed.isRun
    exact ⟨hallowed, t.sublist_of_subset hrun.nodup hsub hrun.pairwise_cardLe ho, hheld⟩

theorem nodup_candidateTractors (hn : order.Nodup) : (candidateTractors t req held order).Nodup := by
  induction order with
  | nil => exact .nil
  | cons c rest ih =>
    obtain ⟨hc, hrest⟩ := List.nodup_cons.mp hn
    rw [candidateTractors, List.nodup_append]
    refine ⟨?_, ih hrest, ?_⟩
    · split
      · refine List.nodup_flatMap.mpr ⟨fun run _ => nodup_tractorsOfRun run, ?_⟩
        refine (Trump.nodup_climbs hrest).imp fun {run run'} hne => ?_
        intro r hr hr'
        exact hne ((mem_tractorsOfRun.mp hr).1.symm.trans (mem_tractorsOfRun.mp hr').1)
      · exact .nil
    · intro r hr r' hr' heq
      subst heq
      split at hr
      · obtain ⟨run, hrun, hmem⟩ := List.mem_flatMap.mp hr
        obtain ⟨more, -, rfl, -⟩ := Trump.mem_climbs.mp hrun
        have hmembers : r.members = c :: more := (mem_tractorsOfRun.mp hmem).1
        have hsub := (mem_candidateTractors_of_sublist.mp hr').2.1
        exact hc (hsub.subset (hmembers ▸ List.mem_cons_self))
      · simp at hr

/-! ### Tractors taken so far -/

theorem count_removeTractor {r : Tractor} (hr : r.members.Nodup) (c : Card) :
    (held.removeTractor r).count c = held.count c - if c ∈ r.members then r.count else 0 := by
  rw [Tally.removeTractor, Tally.count_removeEach, hr.count]
  split <;> simp

theorem le_timesOf_iff {r : Tractor} {n : Nat} :
    n ≤ held.timesOf r ↔ ∀ c ∈ r.members, n * r.count ≤ held.count c := by
  rw [Tally.timesOf, le_least_iff (by simpa using r.members_ne_nil), List.forall_mem_map]
  exact forall₂_congr fun c _ => Nat.le_div_iff_mul_le r.count_pos

/-- The units are the tractors taken, and what is held is the rest of the cards. -/
structure Taken (cards : Multiset Card) (T : Multiset Tractor) (taken : List TrickUnit)
    (held : Tally) : Prop where
  units : (taken : Multiset TrickUnit) = T.map .tractor
  rest : ∀ c, held.count c + (cardsOf (T.map .tractor)).count c = cards.count c

variable {cards : Multiset Card} {T : Multiset Tractor} {taken : List TrickUnit}

theorem Taken.fits (h : Taken cards T taken held) : cardsOf (T.map .tractor) ≤ cards := by
  rw [Multiset.le_iff_count]
  intro c
  have hc := h.rest c
  omega

theorem Taken.coe_grouping (h : Taken cards T taken held) (hn : order.Nodup)
    (horder : ∀ c ∈ cards, c ∈ order) :
    ((taken.reverse ++ held.leftovers order : Grouping) : Multiset TrickUnit) = withRest cards T := by
  have hheld : ∀ c, held.count c = (cards - cardsOf (T.map .tractor)).count c := by
    intro c
    have hc := h.rest c
    rw [Multiset.count_sub]
    omega
  have hrest : ∀ c ∈ cards - cardsOf (T.map .tractor), c ∈ order := fun c hc =>
    horder c (Multiset.mem_of_le (Multiset.sub_le_self _ _) hc)
  rw [withRest, ← coe_leftovers hn hheld hrest, ← h.units, ← Multiset.coe_add, Multiset.coe_reverse]

theorem Taken.take {r : Tractor} (h : Taken cards T taken held) (hr : r.members.Nodup)
    (hheld : ∀ c ∈ r.members, r.count ≤ held.count c) :
    Taken cards (r ::ₘ T) (.tractor r :: taken) (held.removeTractor r) := by
  refine ⟨?_, fun c => ?_⟩
  · rw [Multiset.map_cons, ← h.units]
    rfl
  · have hc := h.rest c
    rw [Multiset.map_cons, cardsOf_cons, Multiset.count_add, Multiset.coe_count,
      TrickUnit.count_cards, count_removeTractor hr, TrickUnit.members, TrickUnit.count, hr.count]
    split
    · have hle := hheld c ‹_›
      omega
    · omega

theorem Taken.count_le {r : Tractor} (h : Taken cards T taken held) (hr : r.members.Nodup)
    (hfits : cardsOf ((r ::ₘ T).map .tractor) ≤ cards) : ∀ c ∈ r.members, r.count ≤ held.count c := by
  intro c hmem
  have hc := h.rest c
  have hle := Multiset.le_iff_count.mp hfits c
  rw [Multiset.map_cons, cardsOf_cons, Multiset.count_add, Multiset.coe_count, TrickUnit.count_cards,
    TrickUnit.members, TrickUnit.count, hr.count, if_pos hmem, Nat.mul_one] at hle
  omega

/-! ### Enumerations of groupings -/

/-- Some groupings are those of certain choices of tractors, each once. -/
structure Enumerates (cards : Multiset Card) (gs : List Grouping) (P : Multiset Tractor → Prop) :
    Prop where
  nodup : (gs.map Multiset.ofList).Nodup
  mem_iff : ∀ units, units ∈ gs.map Multiset.ofList ↔ ∃ T, P T ∧ withRest cards T = units

namespace Enumerates

variable {gs gs' : List Grouping} {P Q : Multiset Tractor → Prop}

theorem nil (h : ∀ T, ¬P T) : Enumerates cards [] P :=
  ⟨.nil, fun units => by simp [h]⟩

theorem congr (h : Enumerates cards gs P) (hPQ : ∀ T, P T ↔ Q T) : Enumerates cards gs Q :=
  ⟨h.nodup, fun units => by simp only [h.mem_iff, hPQ]⟩

theorem cons {g : Grouping} {T : Multiset Tractor} (hg : (g : Multiset TrickUnit) = withRest cards T)
    (h : Enumerates cards gs P) (hT : ¬P T) : Enumerates cards (g :: gs) fun T' => T' = T ∨ P T' := by
  refine ⟨?_, fun units => ?_⟩
  · rw [List.map_cons, List.nodup_cons, hg, h.mem_iff]
    refine ⟨fun hmem => ?_, h.nodup⟩
    obtain ⟨T', hP, heq⟩ := hmem
    exact hT (withRest_injective cards heq ▸ hP)
  · rw [List.map_cons, List.mem_cons, hg, h.mem_iff]
    simp only [or_and_right, exists_or, exists_eq_left, @eq_comm _ units]

theorem append (h : Enumerates cards gs P) (h' : Enumerates cards gs' Q) (hPQ : ∀ T, P T → ¬Q T) :
    Enumerates cards (gs ++ gs') fun T => P T ∨ Q T := by
  refine ⟨?_, fun units => ?_⟩
  · rw [List.map_append, List.nodup_append]
    refine ⟨h.nodup, h'.nodup, fun units hmem units' hmem' heq => ?_⟩
    obtain ⟨T, hP, rfl⟩ := (h.mem_iff units).mp hmem
    obtain ⟨T', hQ, heq'⟩ := (h'.mem_iff units').mp hmem'
    rw [← heq] at heq'
    exact hPQ T hP (withRest_injective cards heq' ▸ hQ)
  · rw [List.map_append, List.mem_append, h.mem_iff, h'.mem_iff]
    simp only [or_and_right, exists_or]

end Enumerates

/-! ### The search -/

/-- The choice goes on with tractors from a list, and the cards suffice for all of it. -/
structure Extends (cards : Multiset Card) (candidates : List Tractor) (T T' : Multiset Tractor) :
    Prop where
  more : ∃ more ≠ 0, T' = T + more ∧ ∀ r ∈ more, r ∈ candidates
  fits : cardsOf (T'.map .tractor) ≤ cards

variable {candidates : List Tractor} {r : Tractor} {T' : Multiset Tractor}

theorem not_extends_nil : ¬Extends cards [] T T' := by
  intro h
  obtain ⟨more, hne, -, hmem⟩ := h.more
  exact hne (Multiset.eq_zero_of_forall_notMem fun r hr => List.not_mem_nil (hmem r hr))

theorem not_extends_self : ¬Extends cards candidates T T := by
  intro h
  obtain ⟨more, hne, heq, -⟩ := h.more
  exact hne (by simpa using heq)

theorem Extends.fits_before (h : Extends cards candidates T T') :
    cardsOf (T.map .tractor) ≤ cards := by
  obtain ⟨more, -, rfl, -⟩ := h.more
  exact (cardsOf_mono (Multiset.map_le_map (Multiset.le_add_right T more))).trans h.fits

theorem Extends.count_eq (h : Extends cards candidates T T') (hr : r ∉ candidates) :
    T'.count r = T.count r := by
  obtain ⟨more, -, rfl, hmem⟩ := h.more
  rw [Multiset.count_add, Multiset.count_eq_zero_of_notMem fun hm => hr (hmem r hm), Nat.add_zero]

theorem Extends.count_le (h : Extends cards candidates T T') : T.count r ≤ T'.count r := by
  obtain ⟨more, -, rfl, -⟩ := h.more
  rw [Multiset.count_add]
  exact Nat.le_add_right _ _

theorem Extends.cons (h : Extends cards candidates T T') : Extends cards (r :: candidates) T T' := by
  obtain ⟨more, hne, heq, hmem⟩ := h.more
  exact ⟨⟨more, hne, heq, fun r' hr' => List.mem_cons_of_mem r (hmem r' hr')⟩, h.fits⟩

/-- One more tractor is the first of the list, alone or with others, or there is none of that kind. -/
theorem extends_cons_iff :
    Extends cards (r :: candidates) T T' ↔
      (T' = r ::ₘ T ∧ cardsOf (T'.map .tractor) ≤ cards) ∨
      Extends cards (r :: candidates) (r ::ₘ T) T' ∨ Extends cards candidates T T' := by
  constructor
  · intro h
    obtain ⟨more, hne, rfl, hmem⟩ := h.more
    by_cases hr : r ∈ more
    · obtain ⟨more, rfl⟩ := Multiset.exists_cons_of_mem hr
      by_cases hmore : more = 0
      · subst hmore
        exact Or.inl ⟨by rw [Multiset.add_cons, add_zero], h.fits⟩
      · refine Or.inr (Or.inl ⟨⟨more, hmore, ?_, fun r' hr' => ?_⟩, h.fits⟩)
        · rw [Multiset.add_cons, Multiset.cons_add]
        · exact hmem r' (Multiset.mem_cons_of_mem hr')
    · refine Or.inr (Or.inr ⟨⟨more, hne, rfl, fun r' hr' => ?_⟩, h.fits⟩)
      exact (List.mem_cons.mp (hmem r' hr')).resolve_left fun he => hr (he ▸ hr')
  · intro h
    rcases h with ⟨rfl, hfits⟩ | h | h
    · refine ⟨⟨{r}, by simp, by rw [add_comm, Multiset.singleton_add], fun r' hr' => ?_⟩, hfits⟩
      rw [Multiset.mem_singleton.mp hr']
      exact List.mem_cons_self
    · obtain ⟨more, -, heq, hmem⟩ := h.more
      refine ⟨⟨r ::ₘ more, Multiset.cons_ne_zero, ?_, fun r' hr' => ?_⟩, h.fits⟩
      · rw [heq, Multiset.add_cons, Multiset.cons_add]
      · rcases Multiset.mem_cons.mp hr' with rfl | hr'
        · exact List.mem_cons_self
        · exact hmem r' hr'
    · exact h.cons

theorem enumerates_takeTractor (hn : order.Nodup) (horder : ∀ c ∈ cards, c ∈ order)
    (hr : r.members.Nodup) (hnew : r ∉ candidates) {next : List TrickUnit → Tally → List Grouping}
    (hnext : ∀ T taken held, Taken cards T taken held →
      Enumerates cards (next taken held) (Extends cards candidates T))
    {times : Nat} (h : Taken cards T taken held)
    (htimes : ∀ n, n ≤ times ↔ ∀ c ∈ r.members, n * r.count ≤ held.count c) :
    Enumerates cards (takeTractor order r next times taken held)
      (Extends cards (r :: candidates) T) := by
  induction times generalizing T taken held with
  | zero =>
    have hfull : ¬cardsOf ((r ::ₘ T).map .tractor) ≤ cards := by
      intro hfits
      have hone := (htimes 1).mpr (by simpa using h.count_le hr hfits)
      omega
    -- with no copies of `r` left to take, the choices with `r` drop out
    refine (hnext T taken held h).congr fun T' => ⟨Extends.cons, fun hext => ?_⟩
    rcases extends_cons_iff.mp hext with ⟨rfl, hfits⟩ | hext | hext
    · exact absurd hfits hfull
    · exact absurd hext.fits_before hfull
    · exact hext
  | succ times ih =>
    have hheld : ∀ c ∈ r.members, r.count ≤ held.count c := by
      simpa using (htimes 1).mp (by omega)
    have htake := h.take hr hheld
    have hagain : ∀ n, n ≤ times ↔ ∀ c ∈ r.members, n * r.count ≤ (held.removeTractor r).count c := by
      intro n
      rw [← Nat.add_le_add_iff_right (n := 1), htimes]
      refine forall₂_congr fun c hc => ?_
      have hle := hheld c hc
      rw [count_removeTractor hr, if_pos hc, Nat.add_mul, Nat.one_mul]
      omega
    have hlater := ih htake hagain
    have hskip := hnext T taken held h
    have hapart : ∀ T', Extends cards (r :: candidates) (r ::ₘ T) T' → ¬Extends cards candidates T T' := by
      intro T' hext hext'
      have hle := hext.count_le (r := r)
      rw [hext'.count_eq hnew, Multiset.count_cons_self] at hle
      omega
    -- one more `r` alone, one more `r` and others, no more `r`
    rw [takeTractor]
    refine ((hlater.append hskip hapart).cons (htake.coe_grouping hn horder) ?_).congr fun T' => ?_
    · rintro (hext | hext)
      · exact not_extends_self hext
      · have heq := hext.count_eq hnew
        rw [Multiset.count_cons_self] at heq
        omega
    · rw [extends_cons_iff (T := T)]
      exact or_congr_left ⟨fun he => ⟨he, he ▸ htake.fits⟩, fun he => he.1⟩

theorem enumerates_takeTractors (hn : order.Nodup) (horder : ∀ c ∈ cards, c ∈ order)
    (hnew : candidates.Nodup) (hmembers : ∀ r ∈ candidates, r.members.Nodup)
    (h : Taken cards T taken held) :
    Enumerates cards (takeTractors order candidates taken held) (Extends cards candidates T) := by
  induction candidates generalizing T taken held with
  | nil => exact .nil fun T' => not_extends_nil
  | cons r candidates ih =>
    obtain ⟨hr, hnew⟩ := List.nodup_cons.mp hnew
    have hnext := fun T taken held (h : Taken cards T taken held) =>
      ih hnew (fun r' hr' => hmembers r' (List.mem_cons_of_mem r hr')) h
    exact enumerates_takeTractor hn horder (hmembers r List.mem_cons_self) hr hnext h
      fun n => le_timesOf_iff

/-! ### Groupings of a suit -/

/-- Allowed tractors, and the cards suffice for all of them together. -/
structure AreTractorsOf (t : Trump) (req : TractorRequirements) (cards : Multiset Card)
    (T : Multiset Tractor) : Prop where
  allowed : ∀ r ∈ T, r.IsAllowed t req
  fits : cardsOf (T.map .tractor) ≤ cards

theorem taken_nothing (cards : List Card) : Taken cards 0 [] (Tally.ofList cards) :=
  ⟨rfl, fun c => by simp [cardsOf, Tally.count_ofList]⟩

theorem enumerates_candidates (t : Trump) (req : TractorRequirements) (cards : List Card) :
    Enumerates cards (suitGroupings t req cards) fun T =>
      T = 0 ∨
        Extends cards (candidateTractors t req (Tally.ofList cards) cards.eraseDups) 0 T := by
  have hn := Copies.nodup_eraseDups cards
  have horder : ∀ c ∈ (cards : Multiset Card), c ∈ cards.eraseDups := fun c hc =>
    List.mem_eraseDups.mpr hc
  have hstart := taken_nothing cards
  have hnew : (candidateTractors t req (Tally.ofList cards) cards.eraseDups).Nodup :=
    nodup_candidateTractors hn
  have hsearch := enumerates_takeTractors hn horder hnew
    (fun r hr => (mem_candidateTractors_of_sublist.mp hr).1.isRun.nodup) hstart
  exact hsearch.cons (hstart.coe_grouping hn horder) not_extends_self

/-- Sorted cards are grouped in every way that takes allowed tractors, each once. -/
theorem enumerates_suitGroupings {cards : List Card}
    (hsorted : cards.Pairwise fun a b => t.cardLe a b = true) :
    Enumerates cards (suitGroupings t req cards) (AreTractorsOf t req cards) := by
  refine (enumerates_candidates t req cards).congr fun T => ?_
  have ho := hsorted.sublist (Copies.eraseDups_sublist cards)
  constructor
  · intro h
    rcases h with rfl | h
    · exact ⟨fun r hr => absurd hr (Multiset.notMem_zero r), (taken_nothing cards).fits⟩
    · obtain ⟨more, -, heq, hmem⟩ := h.more
      rw [zero_add] at heq
      subst heq
      exact ⟨fun r hr => ((mem_candidateTractors ho).mp (hmem r hr)).1, h.fits⟩
  · intro h
    by_cases hT : T = 0
    · exact Or.inl hT
    · refine Or.inr ⟨⟨T, hT, (zero_add T).symm, fun r hr => (mem_candidateTractors ho).mpr ?_⟩, h.fits⟩
      have hallowed := h.allowed r hr
      have hone : cardsOf ((r ::ₘ 0).map .tractor) ≤ (cards : Multiset Card) :=
        (cardsOf_mono (Multiset.map_le_map (Multiset.singleton_le.mpr hr))).trans h.fits
      have hheld := (taken_nothing cards).count_le hallowed.isRun.nodup hone
      refine ⟨hallowed, fun c hc => List.mem_eraseDups.mpr (List.count_pos_iff.mp ?_), hheld⟩
      rw [← Tally.count_ofList]
      exact Nat.lt_of_lt_of_le r.count_pos (hheld c hc)

theorem perm_of_mem_suitGroupings {cards : List Card} {g : Grouping}
    (h : g ∈ suitGroupings t req cards) : (Grouping.cards g).Perm cards := by
  obtain ⟨T, hT, heq⟩ := ((enumerates_candidates t req cards).mem_iff g).mp (List.mem_map_of_mem h)
  have hfits : cardsOf (T.map .tractor) ≤ (cards : Multiset Card) := by
    rcases hT with rfl | hT
    · exact (taken_nothing cards).fits
    · exact hT.fits
  rw [← Multiset.coe_eq_coe, ← cardsOf_coe, ← heq, cardsOf_withRest hfits]

end TractorRules
