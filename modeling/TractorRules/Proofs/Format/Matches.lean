import TractorRules.Proofs.Format.Matching
import Mathlib.Data.List.Flatten

/-!
# All ways to match a shape

The matches of a shape are its placements, each found once and filled up with the lowest cards left,
and they do not depend on the order of the cards or of the shape (`matches_are_placements`).  The floor
keeps equal units in ascending order, so a placement is found in one order only.
-/

namespace TractorRules

def Grouping.structured (g : Grouping) : Grouping := g.filter fun u => u.shape != .single

theorem Grouping.map_shape_structured (g : Grouping) :
    (Grouping.structured g).map TrickUnit.shape = Shape.structured (g.map TrickUnit.shape) := by
  rw [Grouping.structured, Shape.structured, List.filter_map]
  rfl

theorem Grouping.structured_cards_subperm (g : Grouping) :
    (Grouping.cards (Grouping.structured g)).Subperm (Grouping.cards g) :=
  (List.filter_sublist.flatMap _).subperm

theorem Grouping.structured_append_singles {units : Grouping}
    (h : ∀ u ∈ units, u.shape ≠ .single) (singles : List Card) :
    structured (units ++ singles.map TrickUnit.single) = units := by
  have hunits : units.filter (fun u => u.shape != .single) = units :=
    List.filter_eq_self.mpr fun u hu => by simpa using h u hu
  have hsingles : (singles.map TrickUnit.single).filter (fun u => u.shape != .single) = [] := by
    refine List.filter_eq_nil_iff.mpr fun u hu => ?_
    obtain ⟨c, -, rfl⟩ := List.mem_map.mp hu
    simp [TrickUnit.single, TrickUnit.shape, UnitShape.single]
  rw [structured, List.filter_append, hunits, hsingles, List.append_nil]

theorem Shape.structured_append_singles_perm (s : Shape) :
    (s.structured ++ List.replicate (s.count .single) UnitShape.single).Perm s := by
  have hnot : (fun u : UnitShape => !(u != .single)) = (· == .single) := by
    funext u
    rw [bne, Bool.not_not]
  have hperm := List.filter_append_perm (· != UnitShape.single) s
  rw [hnot, List.filter_beq] at hperm
  exact hperm

/-! ### The order of placing -/

namespace Matching

theorem structuredLe_iff {a b : UnitShape} :
    structuredLe a b = true ↔ b.size < a.size ∨ a.size = b.size ∧ b.groups ≤ a.groups := by
  simp [structuredLe]

theorem structuredLe_trans (a b c : UnitShape) (hab : structuredLe a b = true)
    (hbc : structuredLe b c = true) : structuredLe a c = true := by
  rw [structuredLe_iff] at *
  omega

theorem structuredLe_total (a b : UnitShape) : (structuredLe a b || structuredLe b a) = true := by
  rw [Bool.or_eq_true, structuredLe_iff, structuredLe_iff]
  omega

theorem structuredLe_antisymm {a b : UnitShape} (hab : structuredLe a b = true)
    (hba : structuredLe b a = true) : a = b := by
  rw [structuredLe_iff] at hab hba
  have hgroups : a.groups = b.groups := by omega
  have hsize : a.copies * a.groups = b.copies * b.groups := by
    show a.size = b.size
    omega
  rw [hgroups] at hsize
  exact UnitShape.ext (Nat.eq_of_mul_eq_mul_right b.groups_pos hsize) hgroups

theorem head?_of_mem_sorted {s : UnitShape} {rest : Shape}
    (h : (s :: rest).Pairwise fun a b => structuredLe a b = true) (hs : s ∈ rest) :
    rest.head? = some s := by
  obtain ⟨hfirst, hrest⟩ := List.pairwise_cons.mp h
  cases rest with
  | nil => simp at hs
  | cons s' rest =>
    rcases List.mem_cons.mp hs with rfl | hs
    · rfl
    · have hle := hfirst s' List.mem_cons_self
      have hge := (List.pairwise_cons.mp hrest).1 s hs
      rw [structuredLe_antisymm hge hle]
      rfl

/-! ### One unit -/

variable {tb : Table} {held : Tally}

theorem eq_of_unitKey {u v : TrickUnit} (hs : u.shape = v.shape) (hk : tb.unitKey u = tb.unitKey v) :
    u = v := by
  have hinj : Function.Injective tb.trump.sortKey := fun _ _ => tb.trump.sortKey_injective
  exact TrickUnit.eq_of_shape_of_members hs (List.map_injective_iff.mpr hinj hk)

theorem nodup_placements (hc : tb.Covers held) (s : UnitShape) : (tb.placements held s).Nodup := by
  unfold Table.placements
  split
  · refine List.Nodup.filterMap ?_ (hc.nodup.filter _)
    intro c c' u hu hu'
    simp only [Repeated.ofNat?, s.copies_pos, dif_pos, Option.map_some, Option.mem_some_iff] at hu hu'
    simpa using hu.trans hu'.symm
  · refine List.Nodup.filterMap ?_ (Trump.nodup_runsOfLength s.groups_pos hc.nodup)
    intro run run' u hu hu'
    have members_of {run : List Card} {u : TrickUnit}
        (h : u ∈ (Tractor.ofNat? s.copies run).map TrickUnit.tractor) : u.members = run := by
      obtain ⟨r, hr, rfl⟩ := Option.map_eq_some_iff.mp h
      unfold Tractor.ofNat? at hr
      split at hr
      · rw [← Option.some.inj hr]
        rfl
      · simp at hr
    exact (members_of hu).symm.trans (members_of hu')

/-! ### No placement comes twice -/

theorem shape_mem_of_mem_place {singles : Nat} {shapes : Shape} {floor : Option (List SortKey)}
    (hc : tb.Covers held) {g : Grouping} (hg : g ∈ tb.place singles shapes floor held none)
    {u : TrickUnit} (hu : u ∈ g) (hs : u.shape ≠ .single) : u.shape ∈ shapes := by
  obtain ⟨units, left, hplaces, -, -, rfl⟩ := exists_places_of_mem_place hc hg
  rw [lowestSingles_eq] at hu
  rcases List.mem_append.mp hu with hu | hu
  · exact hplaces.shapes_eq.mem_iff.mp (List.mem_map_of_mem hu)
  · obtain ⟨c, -, rfl⟩ := List.mem_map.mp hu
    exact absurd rfl hs

/-- Units of the shape that comes first keep to the floor, wherever they stand in the match. -/
theorem aboveFloor_of_mem_place {singles : Nat} {shapes : Shape} {floor : Option (List SortKey)}
    (hc : tb.Covers held) (hsorted : shapes.Pairwise fun a b => structuredLe a b = true)
    {g : Grouping} (hg : g ∈ tb.place singles shapes floor held none) {w : TrickUnit} (hw : w ∈ g)
    (hne : w.shape ≠ .single) (hhead : shapes.head? = some w.shape) :
    tb.aboveFloor floor w = true := by
  induction shapes generalizing floor held g with
  | nil => simp at hhead
  | cons s rest ih =>
    obtain rfl := Option.some.inj hhead
    obtain ⟨u, -, hfloor, g', hg', rfl⟩ := mem_place_cons.mp hg
    rcases List.mem_cons.mp hw with rfl | hw
    · exact hfloor
    · have hc' := hc.removeEach u.members u.count
      have hmem := shape_mem_of_mem_place hc' hg' hw hne
      have hnext := head?_of_mem_sorted hsorted hmem
      have habove := ih hc' (List.pairwise_cons.mp hsorted).2 hg' hw hnext
      cases floor with
      | none => rfl
      | some key =>
        simp only [Table.aboveFloor, Table.nextFloor, hnext, if_true, Option.all_some,
          Bool.not_eq_true'] at habove hfloor ⊢
        exact SortKey.not_listLt_trans hfloor habove

theorem pairwise_place {singles : Nat} {shapes : Shape} {floor : Option (List SortKey)}
    (hc : tb.Covers held) (hsorted : shapes.Pairwise fun a b => structuredLe a b = true)
    (hsingle : .single ∉ shapes) :
    (tb.place singles shapes floor held none).Pairwise fun g g' =>
      ¬(Grouping.structured g).Perm (Grouping.structured g') := by
  induction shapes generalizing floor held with
  | nil => simp [Table.place, Budget.cut]
  | cons s rest ih =>
    obtain ⟨hs, hrest⟩ := not_or.mp (mt List.mem_cons.mpr hsingle)
    have hstructured {u : TrickUnit} (hu : u.shape = s) (g : Grouping) :
        Grouping.structured (u :: g) = u :: Grouping.structured g :=
      List.filter_cons_of_pos (by simpa [hu] using Ne.symm hs)
    have hshape {u : TrickUnit} (hu : u ∈ (tb.placements held s).filter (tb.aboveFloor floor)) :
        u.shape = s := ((mem_placements hc).mp (List.mem_of_mem_filter hu)).1
    -- a unit of the other match that is not its first one is above the first one
    have habove {u v : TrickUnit} (hu : u.shape = s) {g g' : Grouping} (huv : u ≠ v)
        (hg' : g' ∈ tb.place singles rest (tb.nextFloor s rest v)
          (held.removeEach v.members v.count) none)
        (hperm : (u :: Grouping.structured g).Perm (v :: Grouping.structured g')) :
        SortKey.listLt (tb.unitKey u) (tb.unitKey v) = false := by
      have hmem : u ∈ g' := by
        rcases List.mem_cons.mp (hperm.mem_iff.mp List.mem_cons_self) with heq | hmem
        · exact absurd heq huv
        · exact List.mem_of_mem_filter hmem
      have hne : u.shape ≠ .single := hu ▸ Ne.symm hs
      have hc' := hc.removeEach v.members v.count
      have hin := shape_mem_of_mem_place hc' hg' hmem hne
      have hnext := head?_of_mem_sorted hsorted (hu ▸ hin)
      have hfloor := aboveFloor_of_mem_place hc' (List.pairwise_cons.mp hsorted).2 hg' hmem hne
        (hu ▸ hnext)
      simpa only [Table.aboveFloor, Table.nextFloor, hnext, if_true, Option.all_some,
        Bool.not_eq_true'] using hfloor
    rw [place_cons_none, List.pairwise_flatMap]
    constructor
    · intro u hu
      refine List.pairwise_map.mpr ((ih (hc.removeEach _ _) (List.pairwise_cons.mp hsorted).2
        hrest).imp fun {g g'} hne hperm => hne ?_)
      rw [hstructured (hshape hu), hstructured (hshape hu)] at hperm
      exact hperm.cons_inv
    · have hnodup := (nodup_placements hc s).filter (tb.aboveFloor floor)
      refine hnodup.imp_of_mem fun {u v} hu hv huv x hx y hy hperm => huv ?_
      obtain ⟨g, hg, rfl⟩ := List.mem_map.mp hx
      obtain ⟨g', hg', rfl⟩ := List.mem_map.mp hy
      rw [hstructured (hshape hu), hstructured (hshape hv)] at hperm
      have hle := habove (hshape hu) huv hg' hperm
      have hge := habove (hshape hv) (Ne.symm huv) hg hperm.symm
      exact eq_of_unitKey ((hshape hu).trans (hshape hv).symm) (SortKey.eq_of_not_listLt hle hge)

theorem Table.ofCards_perm {t : Trump} {cards cards' : List Card} (h : cards.Perm cards')
    (policy : DrawPolicy) : Table.ofCards t cards policy = Table.ofCards t cards' policy := by
  have hdistinct : cards.eraseDups.Perm cards'.eraseDups := by
    refine (List.perm_ext_iff_of_nodup (Copies.nodup_eraseDups _) (Copies.nodup_eraseDups _)).mpr ?_
    intro c
    rw [List.mem_eraseDups, List.mem_eraseDups, h.mem_iff]
  rw [ofCards, ofCards, t.sort_eq_of_perm hdistinct, Tally.ofList_perm h]

theorem structured_sorted_perm {shape shape' : Shape} (h : shape.Perm shape') :
    shape.structured.mergeSort structuredLe = shape'.structured.mergeSort structuredLe :=
  mergeSort_eq_of_perm structuredLe_trans structuredLe_total (fun _ _ _ _ => structuredLe_antisymm)
    (h.filter _)

end Matching

open Matching

variable {t : Trump} {cards : List Card} {shape : Shape} {policy : DrawPolicy}

/-! ### All matches -/

/-- The order of the cards and of the shape makes no difference. -/
theorem matchShape_perm {cards' : List Card} {shape' : Shape} (hcards : cards.Perm cards')
    (hshape : shape.Perm shape') :
    matchShape t cards' shape' policy none = matchShape t cards shape policy none := by
  have hsorted : (shape'.filter (· != .single)).mergeSort structuredLe =
      (shape.filter (· != .single)).mergeSort structuredLe := (structured_sorted_perm hshape).symm
  rw [matchShape, matchShape, hcards.length_eq, Shape.size_perm hshape, hshape.count_eq, hsorted,
    Table.ofCards_perm hcards]

theorem matchShape_bounded_perm {cards' : List Card} (h : cards.Perm cards') (b : Budget) :
    matchShape t cards' shape policy b = matchShape t cards shape policy b := by
  rw [matchShape_eq_cut, matchShape_perm h (.refl shape), ← matchShape_eq_cut]

theorem canMatch_perm {cards' : List Card} (h : cards.Perm cards') :
    canMatch t cards' shape policy = canMatch t cards shape policy := by
  rw [canMatch, matchShape_bounded_perm h, canMatch]

theorem Placement.shape_ne_single {units : Grouping}
    (h : Placement t policy cards shape.structured units) : ∀ u ∈ units, u.shape ≠ .single := by
  intro u hu
  have hmem : u.shape ∈ shape.structured := h.shapes_eq.mem_iff.mp (List.mem_map_of_mem hu)
  simpa using List.of_mem_filter hmem

theorem exists_match_iff {units : Grouping} (hsize : shape.size ≤ cards.length) :
    (∃ g ∈ matchShape t cards shape policy none, (Grouping.structured g).Perm units) ↔
      Placement t policy cards shape.structured units := by
  constructor
  · intro h
    obtain ⟨g, hg, hperm⟩ := h
    obtain ⟨-, placed, hplace, rfl⟩ := exists_filled_of_mem hg
    rw [Grouping.structured_append_singles hplace.shape_ne_single] at hperm
    exact hplace.perm hperm
  · intro h
    obtain ⟨placed, singles, hperm, hg⟩ := exists_mem_of_placement hsize h
    refine ⟨_, hg, ?_⟩
    rw [Grouping.structured_append_singles fun u hu => h.shape_ne_single u (hperm.mem_iff.mp hu)]
    exact hperm

/-- The matches of a shape are its placements: every placement of the units of several cards is found,
none twice, and each is filled up with the lowest cards left.  Too many units for the cards have no
match, and another order of the cards or of the shape changes nothing. -/
theorem matches_are_placements (t : Trump) (cards : List Card) (shape : Shape)
    (policy : DrawPolicy) :
    (cards.length < shape.size → matchShape t cards shape policy none = []) ∧
    (shape.size ≤ cards.length → ∀ units : Grouping,
      (∃ g ∈ matchShape t cards shape policy none, (Grouping.structured g).Perm units) ↔
        Placement t policy cards shape.structured units) ∧
    ((matchShape t cards shape policy none).Pairwise fun g g' =>
      ¬(Grouping.structured g).Perm (Grouping.structured g')) ∧
    (∀ g ∈ matchShape t cards shape policy none,
      g = Grouping.structured g ++
        (lowestLeft t cards (Grouping.structured g) (shape.count .single)).map TrickUnit.single ∧
      (g.map TrickUnit.shape).Perm shape ∧ (Grouping.cards g).Subperm cards) ∧
    ∀ cards' shape', cards.Perm cards' → shape.Perm shape' →
      matchShape t cards' shape' policy none = matchShape t cards shape policy none := by
  refine ⟨?_, fun hsize units => exists_match_iff hsize, ?_, ?_, fun _ _ => matchShape_perm⟩
  · intro hmany
    rw [matchShape, if_pos hmany]
  · unfold matchShape
    split
    · exact .nil
    · have hsorted := List.pairwise_mergeSort structuredLe_trans structuredLe_total shape.structured
      refine pairwise_place (covers_ofCards t cards policy) hsorted fun hmem => ?_
      have hin : UnitShape.single ∈ shape.structured := (List.mergeSort_perm _ _).mem_iff.mp hmem
      simpa using List.of_mem_filter hin
  · intro g hg
    obtain ⟨hsize, units, hplace, rfl⟩ := exists_filled_of_mem hg
    rw [Grouping.structured_append_singles hplace.shape_ne_single]
    refine ⟨rfl, ?_, ?_⟩
    · have hlen := hplace.length_lowestLeft hsize
      have hsingles : ((lowestLeft t cards units (shape.count .single)).map TrickUnit.single).map
          TrickUnit.shape = List.replicate (shape.count .single) .single := by
        refine List.eq_replicate_iff.mpr ⟨by rw [List.length_map, List.length_map, hlen], ?_⟩
        intro s hs
        obtain ⟨u, hu, rfl⟩ := List.mem_map.mp hs
        obtain ⟨c, -, rfl⟩ := List.mem_map.mp hu
        rfl
      rw [List.map_append, hsingles]
      exact (hplace.shapes_eq.append_right _).trans shape.structured_append_singles_perm
    · rw [Grouping.cards_append, Grouping.cards_singles]
      exact hplace.append_lowestLeft_subperm _

end TractorRules
