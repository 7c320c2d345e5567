import TractorRules.Grouping.Combine
import TractorRules.Proofs.Copies
import TractorRules.Proofs.StableSort
import Mathlib.Data.List.Forall2
import Mathlib.Data.Multiset.AddSub

/-!
# Combining the suits

The combinations of suits are exactly the choices of one grouping of each (`mem_combineSuits`): the
layers and the sums that are looked up beforehand only leave out totals that no choice reaches.  They
come by their number of units (`pairwise_length_combineSuits`), and where the suits have no unit in
common no choice comes twice (`nodup_combineSuits`).
-/

namespace TractorRules

/-! ### Layers -/

theorem Layers.mem_ofList {gs : List Grouping} {layer : Nat × List Grouping} :
    layer ∈ Layers.ofList gs ↔ layer.2 ≠ [] ∧ layer.2 = gs.filter (·.length == layer.1) := by
  obtain ⟨n, members⟩ := layer
  simp only [ofList, List.mem_filterMap, List.mem_range]
  constructor
  · intro hspec
    obtain ⟨m, -, h⟩ := hspec
    split at h
    · simp at h
    · rename_i hne
      rw [Option.some.injEq, Prod.mk.injEq] at h
      obtain ⟨rfl, rfl⟩ := h
      exact ⟨hne, rfl⟩
  · intro hspec
    obtain ⟨hne, rfl⟩ := hspec
    obtain ⟨g, hg⟩ := List.exists_mem_of_ne_nil _ hne
    obtain ⟨hmem, hlen⟩ := List.mem_filter.mp hg
    have hmost : n ≤ (gs.map List.length).max?.getD 0 := by
      have hle := List.le_max?_getD_of_mem (k := 0) (List.mem_map_of_mem (f := List.length) hmem)
      simpa [beq_iff_eq.mp hlen] using hle
    refine ⟨n, by omega, ?_⟩
    split
    · rename_i hnil
      exact absurd hnil hne
    · rfl

theorem Layers.exists_mem_iff {gs : List Grouping} {n : Nat} {g : Grouping} :
    (∃ layer ∈ Layers.ofList gs, layer.1 = n ∧ g ∈ layer.2) ↔ g ∈ gs ∧ g.length = n := by
  constructor
  · intro h
    obtain ⟨layer, hlayer, rfl, hg⟩ := h
    rw [(mem_ofList.mp hlayer).2, List.mem_filter, beq_iff_eq] at hg
    exact hg
  · intro h
    obtain ⟨hg, rfl⟩ := h
    have hmem : g ∈ gs.filter (·.length == g.length) := List.mem_filter.mpr ⟨hg, beq_self_eq_true _⟩
    exact ⟨(g.length, _), mem_ofList.mpr ⟨List.ne_nil_of_mem hmem, rfl⟩, rfl, hmem⟩

theorem Layers.mem_sizes {gs : List Grouping} {n : Nat} :
    n ∈ (Layers.ofList gs).sizes ↔ ∃ g ∈ gs, g.length = n := by
  simp only [sizes, List.mem_map]
  constructor
  · intro h
    obtain ⟨layer, hlayer, rfl⟩ := h
    obtain ⟨g, hg⟩ := List.exists_mem_of_ne_nil _ (mem_ofList.mp hlayer).1
    exact ⟨g, exists_mem_iff.mp ⟨layer, hlayer, rfl, hg⟩⟩
  · intro h
    obtain ⟨g, hg⟩ := h
    obtain ⟨layer, hlayer, hn, -⟩ := exists_mem_iff.mpr hg
    exact ⟨layer, hlayer, hn⟩

/-! ### Choices -/

/-- One grouping of each suit, put together. -/
def IsChoice (suits : List (List Grouping)) (g : Grouping) : Prop :=
  ∃ parts, List.Forall₂ (· ∈ ·) parts suits ∧ g = parts.flatten

theorem isChoice_nil {g : Grouping} : IsChoice [] g ↔ g = [] := by
  simp only [IsChoice, List.forall₂_nil_right_iff]
  constructor
  · intro h
    obtain ⟨parts, rfl, rfl⟩ := h
    rfl
  · rintro rfl
    exact ⟨[], rfl, rfl⟩

theorem isChoice_cons {gs : List Grouping} {suits : List (List Grouping)} {g : Grouping} :
    IsChoice (gs :: suits) g ↔ ∃ first ∈ gs, ∃ rest, IsChoice suits rest ∧ g = first ++ rest := by
  simp only [IsChoice, List.forall₂_cons_right_iff]
  constructor
  · intro h
    obtain ⟨parts, ⟨first, more, hfirst, hmore, rfl⟩, rfl⟩ := h
    exact ⟨first, hfirst, more.flatten, ⟨more, hmore, rfl⟩, List.flatten_cons⟩
  · intro h
    obtain ⟨first, hfirst, rest, ⟨more, hmore, rfl⟩, rfl⟩ := h
    exact ⟨first :: more, ⟨first, more, hfirst, hmore, rfl⟩, List.flatten_cons.symm⟩

namespace Stage

theorem ofSuits_cons (ls : Layers) (suits : List Layers) :
    ofSuits (ls :: suits) = ⟨ls, sums (ofSuits suits)⟩ :: ofSuits suits := rfl

theorem mem_sums_cons {s : Stage} {rest : List Stage} {n : Nat} :
    n ∈ sums (s :: rest) ↔ ∃ a ∈ s.layers.sizes, ∃ b ∈ s.laterSums, a + b = n := by
  simp only [sums, List.mem_eraseDups, List.mem_flatMap, List.mem_map]

theorem mem_sums {suits : List (List Grouping)} {n : Nat} :
    n ∈ sums (ofSuits (suits.map Layers.ofList)) ↔ ∃ g, IsChoice suits g ∧ g.length = n := by
  induction suits generalizing n with
  | nil => simp [ofSuits, sums, isChoice_nil, eq_comm]
  | cons gs suits ih =>
    simp only [List.map_cons, ofSuits_cons, mem_sums_cons, Layers.mem_sizes, ih, isChoice_cons]
    constructor
    · intro h
      obtain ⟨a, ⟨first, hfirst, rfl⟩, b, ⟨rest, hrest, rfl⟩, rfl⟩ := h
      exact ⟨first ++ rest, ⟨first, hfirst, rest, hrest, rfl⟩, List.length_append⟩
    · intro h
      obtain ⟨g, ⟨first, hfirst, rest, hrest, rfl⟩, rfl⟩ := h
      exact ⟨first.length, ⟨first, hfirst, rfl⟩, rest.length, ⟨rest, hrest, rfl⟩,
        List.length_append.symm⟩

/-! ### Budgets -/

theorem gather_layer_eq {rest : List Stage} {total : Nat}
    (ih : ∀ b, combine rest total b = b.cut (combine rest total none)) (b : Budget)
    (gs : List Grouping) :
    Budget.gather (fun b g => (combine rest total b).map (g ++ ·)) b gs =
      b.cut (gs.flatMap fun g => (combine rest total none).map (g ++ ·)) := by
  refine Budget.gather_eq _ (fun b g => ?_) b gs
  rw [ih, Budget.cut_map]

theorem combine_eq_cut (stages : List Stage) (total : Nat) (b : Budget) :
    combine stages total b = b.cut (combine stages total none) := by
  induction stages generalizing total b with
  | nil =>
    rw [combine, combine]
    split
    · rfl
    · exact b.cut_nil.symm
  | cons s rest ih =>
    have hcut : ∀ (b : Budget) (layer : Nat × List Grouping),
        (if layer.1 ≤ total ∧ total - layer.1 ∈ s.laterSums then
          Budget.gather (fun b g => (combine rest (total - layer.1) b).map (g ++ ·)) b layer.2
        else []) =
        b.cut (if layer.1 ≤ total ∧ total - layer.1 ∈ s.laterSums then
          Budget.gather (fun b g => (combine rest (total - layer.1) b).map (g ++ ·)) none layer.2
        else []) := by
      intro b layer
      split
      · rw [gather_layer_eq (fun b => ih _ b), gather_layer_eq (fun b => ih _ b)]
        rfl
      · exact b.cut_nil.symm
    rw [combine, combine, Budget.gather_eq _ hcut, Budget.gather_eq _ hcut]
    rfl

theorem combine_cons (s : Stage) (rest : List Stage) (total : Nat) :
    combine (s :: rest) total none = s.layers.flatMap fun layer =>
      if layer.1 ≤ total ∧ total - layer.1 ∈ s.laterSums then
        layer.2.flatMap fun g => (combine rest (total - layer.1) none).map (g ++ ·)
      else [] := by
  rw [combine, Budget.gather_eq]
  · apply List.flatMap_congr
    intro layer _
    split
    · exact gather_layer_eq (fun b => combine_eq_cut rest _ b) none layer.2
    · rfl
  · intro b layer
    split
    · rw [gather_layer_eq (fun b => combine_eq_cut rest _ b),
        gather_layer_eq (fun b => combine_eq_cut rest _ b)]
      rfl
    · exact b.cut_nil.symm

theorem mem_combine {suits : List (List Grouping)} {total : Nat} {g : Grouping} :
    g ∈ combine (ofSuits (suits.map Layers.ofList)) total none ↔
      IsChoice suits g ∧ g.length = total := by
  induction suits generalizing total g with
  | nil =>
    simp only [List.map_nil, ofSuits, combine, isChoice_nil]
    split <;> simp_all [Budget.cut, eq_comm]
  | cons gs suits ih =>
    simp only [List.map_cons, ofSuits_cons, combine_cons, List.mem_flatMap, isChoice_cons]
    constructor
    · intro h
      obtain ⟨layer, hlayer, hg⟩ := h
      split at hg
      · rename_i htotal
        simp only [List.mem_flatMap, List.mem_map, ih] at hg
        obtain ⟨first, hfirst, rest, ⟨hrest, hlen⟩, rfl⟩ := hg
        obtain ⟨hmem, hn⟩ := Layers.exists_mem_iff.mp ⟨layer, hlayer, rfl, hfirst⟩
        refine ⟨⟨first, hmem, rest, hrest, rfl⟩, ?_⟩
        rw [List.length_append]
        omega
      · simp at hg
    · intro h
      obtain ⟨⟨first, hfirst, rest, hrest, rfl⟩, rfl⟩ := h
      obtain ⟨layer, hlayer, hn, hmem⟩ := Layers.exists_mem_iff.mpr ⟨hfirst, rfl⟩
      have htotal : (first ++ rest).length - layer.1 = rest.length := by
        rw [List.length_append]
        omega
      refine ⟨layer, hlayer, ?_⟩
      rw [htotal, if_pos ⟨by rw [List.length_append]; omega, mem_sums.mpr ⟨rest, hrest, rfl⟩⟩]
      simp only [List.mem_flatMap, List.mem_map, ih]
      exact ⟨first, hmem, rest, ⟨hrest, rfl⟩, rfl⟩

end Stage

theorem combineSuits_eq_cut (b : Budget) (suits : List (List Grouping)) :
    combineSuits b suits = b.cut (combineSuits none suits) := by
  unfold combineSuits
  rw [Budget.gather_eq _ fun b total => Stage.combine_eq_cut _ total b,
    Budget.gather_eq _ fun b total => Stage.combine_eq_cut _ total b]
  rfl

/-- Every choice of one grouping of each suit is found, and nothing else. -/
theorem mem_combineSuits {suits : List (List Grouping)} {g : Grouping} :
    g ∈ combineSuits none suits ↔ IsChoice suits g := by
  unfold combineSuits
  rw [Budget.gather_eq _ fun b total => Stage.combine_eq_cut _ total b]
  simp only [Budget.cut, List.mem_flatMap, List.mem_mergeSort, Stage.mem_combine, Stage.mem_sums]
  constructor
  · intro h
    obtain ⟨n, -, hchoice, -⟩ := h
    exact hchoice
  · exact fun hchoice => ⟨g.length, ⟨g, hchoice, rfl⟩, hchoice, rfl⟩

/-! ### Fewest units first -/

theorem pairwise_length_combineSuits (suits : List (List Grouping)) :
    (combineSuits none suits).Pairwise fun g g' => g.length ≤ g'.length := by
  unfold combineSuits
  rw [Budget.gather_eq _ fun b total => Stage.combine_eq_cut _ total b]
  show (List.flatMap _ _).Pairwise _
  rw [List.pairwise_flatMap]
  constructor
  · intro total _
    apply List.pairwise_of_forall_mem_list
    intro g hg g' hg'
    rw [(Stage.mem_combine.mp hg).2, (Stage.mem_combine.mp hg').2]
  · apply (pairwise_sortBy id (Stage.sums (Stage.ofSuits (suits.map Layers.ofList)))).imp
    intro total total' hle g hg g' hg'
    rw [(Stage.mem_combine.mp hg).2, (Stage.mem_combine.mp hg').2]
    exact hle

/-! ### No choice twice -/

theorem Layers.pairwise_ofList (gs : List Grouping) :
    (Layers.ofList gs).Pairwise fun layer layer' => layer.1 ≠ layer'.1 := by
  refine List.pairwise_filterMap.mpr (List.nodup_range.imp fun {m n} hmn layer h layer' h' => ?_)
  split at h
  · simp at h
  · split at h'
    · simp at h'
    · rw [← Option.some.inj h, ← Option.some.inj h']
      exact hmn

theorem exists_mem_of_isChoice {suits : List (List Grouping)} {g : Grouping} (h : IsChoice suits g)
    {u : TrickUnit} (hu : u ∈ g) : ∃ gs ∈ suits, ∃ part ∈ gs, u ∈ part := by
  induction suits generalizing g with
  | nil =>
    rw [isChoice_nil.mp h] at hu
    exact absurd hu List.not_mem_nil
  | cons gs suits ih =>
    obtain ⟨first, hfirst, rest, hrest, rfl⟩ := isChoice_cons.mp h
    rcases List.mem_append.mp hu with hu | hu
    · exact ⟨gs, List.mem_cons_self, first, hfirst, hu⟩
    · obtain ⟨gs', hgs', hpart⟩ := ih hrest hu
      exact ⟨gs', List.mem_cons_of_mem gs hgs', hpart⟩

/-- No unit of one suit's groupings is a unit of another suit's. -/
def Apart (gs gs' : List Grouping) : Prop := ∀ g ∈ gs, ∀ g' ∈ gs', g.Disjoint g'

/-- The units of a choice determine which of them are the first suit's. -/
theorem perm_first_of_perm {gs : List Grouping} {suits : List (List Grouping)}
    (hapart : ∀ gs' ∈ suits, Apart gs gs') {first first' rest rest' : Grouping} (hfirst : first ∈ gs)
    (hfirst' : first' ∈ gs) (hrest : IsChoice suits rest) (hrest' : IsChoice suits rest')
    (heq : (first ++ rest).Perm (first' ++ rest')) : first.Perm first' := by
  have hnone {part more : Grouping} (hpart : part ∈ gs) (hmore : IsChoice suits more) {u : TrickUnit}
      (hu : u ∈ part) : more.count u = 0 := by
    refine List.count_eq_zero_of_not_mem fun hm => ?_
    obtain ⟨gs', hgs', part', hpart', hu'⟩ := exists_mem_of_isChoice hmore hm
    exact hapart gs' hgs' part hpart part' hpart' hu hu'
  rw [List.perm_iff_count] at heq ⊢
  intro u
  have hu := heq u
  rw [List.count_append, List.count_append] at hu
  by_cases hmem : u ∈ first
  · rw [hnone hfirst hrest hmem, hnone hfirst hrest' hmem] at hu
    exact hu
  · by_cases hmem' : u ∈ first'
    · rw [hnone hfirst' hrest hmem', hnone hfirst' hrest' hmem'] at hu
      exact hu
    · rw [List.count_eq_zero_of_not_mem hmem, List.count_eq_zero_of_not_mem hmem']

/-- Groupings of the first suit with all combinations of a size of the others. -/
theorem Stage.nodup_flatMap_combine {gs layer : List Grouping} {suits : List (List Grouping)}
    {total : Nat} (hdistinct : gs.Pairwise fun g g' => ¬g.Perm g') (hsub : layer.Sublist gs)
    (hapart : ∀ gs' ∈ suits, Apart gs gs')
    (hrest : ((combine (ofSuits (suits.map Layers.ofList)) total none).map Multiset.ofList).Nodup) :
    ((layer.flatMap fun g => (combine (ofSuits (suits.map Layers.ofList)) total none).map (g ++ ·)).map
      Multiset.ofList).Nodup := by
  rw [List.map_flatMap, List.nodup_flatMap]
  refine ⟨fun g _ => ?_, ?_⟩
  · have hadd : Function.Injective fun rest : Multiset TrickUnit => ↑g + rest :=
      fun rest rest' heq => Multiset.add_right_inj.mp heq
    have hmap := hrest.map hadd
    rw [List.map_map] at hmap ⊢
    exact hmap
  · refine (hdistinct.sublist hsub).imp_of_mem fun {g g'} hg hg' hne => ?_
    intro units hunits hunits'
    simp only [List.map_map, List.mem_map, mem_combine] at hunits hunits'
    obtain ⟨rest, ⟨hrest, -⟩, rfl⟩ := hunits
    obtain ⟨rest', ⟨hrest', -⟩, heq⟩ := hunits'
    exact hne (perm_first_of_perm hapart (hsub.subset hg) (hsub.subset hg') hrest hrest'
      (Multiset.coe_eq_coe.mp heq.symm))

theorem Stage.nodup_combine {suits : List (List Grouping)}
    (hnodup : ∀ gs ∈ suits, (gs.map Multiset.ofList).Nodup) (hapart : suits.Pairwise Apart)
    (total : Nat) :
    ((combine (ofSuits (suits.map Layers.ofList)) total none).map Multiset.ofList).Nodup := by
  induction suits generalizing total with
  | nil =>
    simp only [List.map_nil, ofSuits, combine]
    split <;> simp [Budget.cut]
  | cons gs suits ih =>
    obtain ⟨hfirst, hlater⟩ := List.forall_mem_cons.mp hnodup
    obtain ⟨hapartFirst, hapartLater⟩ := List.pairwise_cons.mp hapart
    have hdistinct : gs.Pairwise fun g g' => ¬g.Perm g' := by
      refine (List.pairwise_map.mp hfirst).imp fun hne hperm => ?_
      exact hne (Multiset.coe_eq_coe.mpr hperm)
    rw [List.map_cons, ofSuits_cons, combine_cons, List.map_flatMap, List.nodup_flatMap]
    refine ⟨fun layer hlayer => ?_, ?_⟩
    · have hsub : layer.2.Sublist gs := (Layers.mem_ofList.mp hlayer).2 ▸ List.filter_sublist
      split
      · exact nodup_flatMap_combine hdistinct hsub hapartFirst (ih hlater hapartLater _)
      · exact .nil
    -- groupings of different layers differ in size
    · refine (Layers.pairwise_ofList gs).imp_of_mem fun {layer layer'} hlayer hlayer' hne => ?_
      intro units hunits hunits'
      simp only [List.mem_map, List.mem_ite_nil_right, List.mem_flatMap, mem_combine] at hunits hunits'
      obtain ⟨_, ⟨-, g, hg, rest, ⟨hrest, -⟩, rfl⟩, rfl⟩ := hunits
      obtain ⟨_, ⟨-, g', hg', rest', ⟨hrest', -⟩, rfl⟩, heq⟩ := hunits'
      obtain ⟨hmem, hlen⟩ := Layers.exists_mem_iff.mp ⟨layer, hlayer, rfl, hg⟩
      obtain ⟨hmem', hlen'⟩ := Layers.exists_mem_iff.mp ⟨layer', hlayer', rfl, hg'⟩
      have hperm := perm_first_of_perm hapartFirst hmem hmem' hrest hrest'
        (Multiset.coe_eq_coe.mp heq.symm)
      apply hne
      rw [← hlen, ← hlen', hperm.length_eq]

theorem Stage.nodup_sums (suits : List (List Grouping)) :
    (sums (ofSuits (suits.map Layers.ofList))).Nodup := by
  cases suits with
  | nil => exact List.nodup_singleton 0
  | cons gs suits => exact Copies.nodup_eraseDups _

theorem nodup_combineSuits {suits : List (List Grouping)}
    (hnodup : ∀ gs ∈ suits, (gs.map Multiset.ofList).Nodup) (hapart : suits.Pairwise Apart) :
    ((combineSuits none suits).map Multiset.ofList).Nodup := by
  unfold combineSuits
  rw [Budget.gather_eq _ fun b total => Stage.combine_eq_cut _ total b]
  show (List.map Multiset.ofList (List.flatMap _ _)).Nodup
  rw [List.map_flatMap, List.nodup_flatMap]
  refine ⟨fun total _ => Stage.nodup_combine hnodup hapart total, ?_⟩
  refine ((List.mergeSort_perm _ _).nodup_iff.mpr (Stage.nodup_sums suits)).imp fun {total total'} hne => ?_
  intro units hunits hunits'
  obtain ⟨g, hg, rfl⟩ := List.mem_map.mp hunits
  obtain ⟨g', hg', heq⟩ := List.mem_map.mp hunits'
  have hlen : g.length = total := (Stage.mem_combine.mp hg).2
  have hlen' : g'.length = total' := (Stage.mem_combine.mp hg').2
  apply hne
  rw [← hlen, ← hlen', (Multiset.coe_eq_coe.mp heq).length_eq]

end TractorRules
