import TractorRules.Deck
import TractorRules.Proofs.Format.Matches

/-!
# Matching that stops early

A search for matches that keeps one tally takes the cards of a unit off, goes on, and puts them back; it
notes the matches it comes to, none twice, and hands back whether it has noted enough.  Wherever such a
walk stands, it adds the first of the matches ahead and leaves all else as it was (`walk_eq`).  So a
walk that stops early notes the first of all matches (`early_stop_gives_first_matches`).
-/

namespace TractorRules

/-! ### Taking cards off and putting them back -/

namespace Tally

theorem ext_count {held held' : Tally} (h : ∀ c, held.count c = held'.count c) : held = held' := by
  have hcard : ∀ i : Fin 54, ∃ c ∈ ({} : Deck).cards, c.index = i := by decide +kernel
  obtain ⟨cells⟩ := held
  obtain ⟨cells'⟩ := held'
  congr 1
  refine Vector.ext fun i hi => ?_
  obtain ⟨c, -, hc⟩ := hcard ⟨i, hi⟩
  simpa [count, hc, hi] using h c

def putBack (held : Tally) (cards : List Card) : Tally := cards.foldl insert held

theorem count_putBack (held : Tally) (cards : List Card) (c : Card) :
    (held.putBack cards).count c = held.count c + cards.count c := by
  induction cards generalizing held with
  | nil => rfl
  | cons d cards ih =>
    have hstep : held.putBack (d :: cards) = (held.insert d).putBack cards := rfl
    rw [hstep, ih, count_insert, List.count_cons]
    by_cases hd : d = c
    · rw [if_pos hd, if_pos (beq_iff_eq.mpr hd)]
      omega
    · simp [hd]

end Tally

namespace Matching

variable {tb : Table}

theorem putBack_removeEach {held : Tally} (hc : tb.Covers held) {s : UnitShape} {u : TrickUnit}
    (hu : u ∈ tb.placements held s) :
    (held.removeEach u.members u.count).putBack u.cards = held := by
  obtain ⟨-, hrun, husable⟩ := (mem_placements hc).mp hu
  refine Tally.ext_count fun c => ?_
  rw [Tally.count_putBack, Tally.count_removeEach, TrickUnit.count_cards]
  by_cases hmem : c ∈ u.members
  · have hle := (usable_iff.mp (husable c hmem)).1
    rw [List.count_eq_one_of_mem hrun.nodup hmem]
    omega
  · rw [List.count_eq_zero_of_not_mem hmem]
    omega

/-! ### The walk -/

/-- Where a walk stands: the cards still held, the units placed, and the matches noted. -/
structure Trail where
  held : Tally
  placed : Grouping
  found : List Grouping

namespace Trail

def take (s : Trail) (u : TrickUnit) : Trail :=
  { s with held := s.held.removeEach u.members u.count, placed := s.placed ++ [u] }

def putBack (s : Trail) (u : TrickUnit) : Trail :=
  { s with held := s.held.putBack u.cards, placed := s.placed.dropLast }

/-- Notes a match, unless the same units are noted in some order. -/
def note (s : Trail) (g : Grouping) : Trail :=
  if s.found.any (List.isPerm · g) then s else { s with found := s.found ++ [g] }

def hasEnough (limit : Budget) (s : Trail) : Bool := limit.any (· ≤ s.found.length)

end Trail

/-- Visits units in turn, until a visit hands back that there is enough. -/
def visitEach (visit : TrickUnit → Trail → Bool × Trail) : List TrickUnit → Trail → Bool × Trail
  | [], s => (false, s)
  | u :: us, s =>
    let (done, s) := visit u s
    if done then (true, s) else visitEach visit us s

def Table.walk (tb : Table) (singles : Nat) (limit : Budget) :
    Shape → (floor : Option (List SortKey)) → Trail → Bool × Trail
  | [], _, s =>
    let s := s.note (s.placed ++ tb.lowestSingles s.held singles)
    (s.hasEnough limit, s)
  | shape :: rest, floor, s =>
    visitEach (fun u s =>
      let (done, s) := walk tb singles limit rest (tb.nextFloor shape rest u) (s.take u)
      (done, s.putBack u)) ((tb.placements s.held shape).filter (tb.aboveFloor floor)) s

/-! ### What a walk leaves behind -/

variable {limit : Budget} {s : Trail} {gs gs' : List Grouping}

namespace Trail

/-- Whether there is enough, and the trail, after the first of some matches are noted. -/
def after (limit : Budget) (s : Trail) (gs : List Grouping) : Bool × Trail :=
  (limit.any (· ≤ s.found.length + gs.length), { s with found := limit.cut (s.found ++ gs) })

/-- There is not enough yet, and the matches noted and those ahead are all different. -/
structure Goes (limit : Budget) (s : Trail) (gs : List Grouping) : Prop where
  room : s.hasEnough limit = false
  distinct : (s.found ++ gs).Pairwise fun g g' => ¬g.Perm g'

theorem after_found_of_room (h : (s.after limit gs).1 = false) :
    (s.after limit gs).2 = { s with found := s.found ++ gs } := by
  cases limit with
  | none => rfl
  | some k =>
    have hlen : s.found.length + gs.length < k := by simpa [after] using h
    have htake : (s.found ++ gs).take k = s.found ++ gs :=
      List.take_of_length_le (by rw [List.length_append]; omega)
    rw [after, Budget.cut, htake]

theorem after_append (limit : Budget) (s : Trail) (gs gs' : List Grouping) :
    s.after limit (gs ++ gs') =
      if (s.after limit gs).1 then s.after limit gs else (s.after limit gs).2.after limit gs' := by
  split
  · rename_i hdone
    cases limit with
    | none => cases hdone
    | some k =>
      have hlen : k ≤ s.found.length + gs.length := by simpa [after] using hdone
      have htake : (s.found ++ (gs ++ gs')).take k = (s.found ++ gs).take k := by
        rw [← List.append_assoc, List.take_append_of_le_length (by rwa [List.length_append])]
      have hall : k ≤ s.found.length + (gs ++ gs').length := by
        rw [List.length_append]
        omega
      simp only [after, Option.any_some, Budget.cut, htake, decide_eq_true hlen, decide_eq_true hall]
  · rename_i hmore
    rw [after_found_of_room (Bool.not_eq_true _ ▸ hmore)]
    simp only [after, List.append_assoc, List.length_append, Nat.add_assoc]

theorem Goes.after_nil (h : s.Goes limit []) : s.after limit [] = (false, s) := by
  have hmore : (s.after limit []).1 = false := h.room
  have hsame := after_found_of_room hmore
  rw [List.append_nil] at hsame
  exact Prod.ext hmore hsame

theorem Goes.first (h : s.Goes limit (gs ++ gs')) : s.Goes limit gs :=
  ⟨h.room, h.distinct.sublist ((List.sublist_append_left gs gs').append_left s.found)⟩

theorem Goes.rest (h : s.Goes limit (gs ++ gs')) (hmore : (s.after limit gs).1 = false) :
    (s.after limit gs).2.Goes limit gs' := by
  rw [after_found_of_room hmore]
  refine ⟨?_, by simpa only [List.append_assoc] using h.distinct⟩
  rw [hasEnough, List.length_append]
  exact hmore

theorem Goes.note_eq {g : Grouping} (h : s.Goes limit [g]) :
    s.note g = { s with found := s.found ++ [g] } := by
  have hnew : s.found.any (List.isPerm · g) = false := by
    rw [List.any_eq_false]
    intro g' hg'
    rw [List.isPerm_iff]
    exact (List.pairwise_append.mp h.distinct).2.2 g' hg' g List.mem_cons_self
  rw [note, hnew]
  rfl

theorem Goes.after_singleton {g : Grouping} (h : s.Goes limit [g]) :
    s.after limit [g] = ((s.note g).hasEnough limit, s.note g) := by
  rw [h.note_eq, hasEnough, List.length_append]
  cases limit with
  | none => rfl
  | some k =>
    have hlen : s.found.length < k := by simpa [hasEnough] using h.room
    have htake : (s.found ++ [g]).take k = s.found ++ [g] :=
      List.take_of_length_le (by rw [List.length_append, List.length_singleton]; omega)
    rw [after, Budget.cut, htake]

end Trail

/-! ### Step and run -/

theorem visitEach_cons (visit : TrickUnit → Trail → Bool × Trail) (u : TrickUnit)
    (us : List TrickUnit) (s : Trail) :
    visitEach visit (u :: us) s =
      if (visit u s).1 then visit u s else visitEach visit us (visit u s).2 := by
  rw [visitEach]
  rcases visit u s with ⟨_ | _, s'⟩ <;> rfl

theorem visitEach_eq {visit : TrickUnit → Trail → Bool × Trail}
    {ahead : TrickUnit → List Grouping} {us : List TrickUnit}
    (hvisit : ∀ u ∈ us, ∀ found, ({ s with found } : Trail).Goes limit (ahead u) →
      visit u { s with found } = ({ s with found } : Trail).after limit (ahead u))
    (h : s.Goes limit (us.flatMap ahead)) :
    visitEach visit us s = s.after limit (us.flatMap ahead) := by
  induction us generalizing s with
  | nil => exact h.after_nil.symm
  | cons u us ih =>
    have hu := hvisit u List.mem_cons_self s.found h.first
    rw [List.flatMap_cons, Trail.after_append, visitEach_cons, hu]
    split
    · rfl
    · rename_i hmore
      have hrest := h.rest (Bool.not_eq_true _ ▸ hmore)
      exact ih (fun v hv found => hvisit v (List.mem_cons_of_mem u hv) found) hrest

/-- At every depth a walk puts back what it takes and adds the first of the matches ahead of it. -/
theorem walk_eq {singles : Nat} {shapes : Shape} {floor : Option (List SortKey)}
    (hc : tb.Covers s.held)
    (h : s.Goes limit ((tb.place singles shapes floor s.held none).map (s.placed ++ ·))) :
    tb.walk singles limit shapes floor s =
      s.after limit ((tb.place singles shapes floor s.held none).map (s.placed ++ ·)) := by
  induction shapes generalizing floor s with
  | nil =>
    exact (Trail.Goes.after_singleton h).symm
  | cons shape rest ih =>
    -- what lies ahead is, for each unit in turn, what lies ahead once it is taken
    have hflat : (tb.place singles (shape :: rest) floor s.held none).map (s.placed ++ ·) =
        ((tb.placements s.held shape).filter (tb.aboveFloor floor)).flatMap fun u =>
          (tb.place singles rest (tb.nextFloor shape rest u) (s.take u).held none).map
            ((s.take u).placed ++ ·) := by
      rw [place_cons_none, List.map_flatMap]
      refine List.flatMap_congr fun u _ => ?_
      rw [List.map_map]
      refine List.map_congr_left fun g _ => ?_
      exact (List.append_assoc s.placed [u] g).symm
    rw [hflat] at h ⊢
    refine visitEach_eq (fun u hu found hu' => ?_) h
    have hu := putBack_removeEach hc (List.mem_of_mem_filter hu)
    have hback (found : List Grouping) :
        ({ s.take u with found } : Trail).putBack u = { s with found } := by
      simp only [Trail.putBack, Trail.take, hu, List.dropLast_concat]
    have hwalk := ih (s := { s.take u with found }) (hc.removeEach _ _) ⟨hu'.room, hu'.distinct⟩
    show (match tb.walk singles limit rest (tb.nextFloor shape rest u) { s.take u with found } with
      | (done, s') => (done, s'.putBack u)) = _
    rw [hwalk]
    exact Prod.ext rfl (hback _)

theorem found_walk {held : Tally} {singles : Nat} {shapes : Shape} {floor : Option (List SortKey)}
    (hc : tb.Covers held) (hlimit : limit ≠ some 0)
    (hsorted : shapes.Pairwise fun a b => structuredLe a b = true) (hsingle : .single ∉ shapes) :
    (tb.walk singles limit shapes floor ⟨held, [], []⟩).2.found =
      tb.place singles shapes floor held limit := by
  have hall : (tb.place singles shapes floor held none).map ([] ++ ·) =
      tb.place singles shapes floor held none := List.map_id _
  have hroom : (⟨held, [], []⟩ : Trail).hasEnough limit = false := by
    cases limit with
    | none => rfl
    | some k => simpa [Trail.hasEnough, Nat.pos_iff_ne_zero] using hlimit
  have hdistinct : (tb.place singles shapes floor held none).Pairwise fun g g' => ¬g.Perm g' :=
    (pairwise_place hc hsorted hsingle).imp fun hne hperm => hne (hperm.filter _)
  rw [walk_eq hc ⟨hroom, by rwa [hall]⟩, hall]
  exact (place_eq_cut singles shapes floor held limit).symm

end Matching

open Matching

variable {t : Trump} {cards : List Card} {shape : Shape} {policy : DrawPolicy}

/-- The matches that a walk notes, which may stop at a limit. -/
def walkShape (t : Trump) (cards : List Card) (shape : Shape) (policy : DrawPolicy)
    (limit : Budget) : List Grouping :=
  if cards.length < shape.size then []
  else
    let tb := Table.ofCards t cards policy
    let structured := shape.structured.mergeSort structuredLe
    (tb.walk (shape.count .single) limit structured none ⟨tb.all, [], []⟩).2.found

theorem walkShape_eq {limit : Budget} (hlimit : limit ≠ some 0) :
    walkShape t cards shape policy limit = matchShape t cards shape policy limit := by
  unfold walkShape matchShape
  split
  · rfl
  · refine found_walk (covers_ofCards t cards policy) hlimit ?_ ?_
    · exact List.pairwise_mergeSort structuredLe_trans structuredLe_total shape.structured
    · simp [Shape.structured]

/-- A search for matches with a limit gives the first matches of the search without one, also when it
is run as a walk that stops.  So there is no match at all when a search for one finds none. -/
theorem early_stop_gives_first_matches (t : Trump) (cards : List Card) (shape : Shape)
    (policy : DrawPolicy) (k : Nat) (hk : 1 ≤ k) :
    matchShape t cards shape policy (some k) = (matchShape t cards shape policy none).take k ∧
    walkShape t cards shape policy (some k) = matchShape t cards shape policy (some k) ∧
    walkShape t cards shape policy none = matchShape t cards shape policy none ∧
    (matchShape t cards shape policy (some 1) = [] ↔
      matchShape t cards shape policy none = []) ∧
    (canMatch t cards shape policy = false ↔ matchShape t cards shape policy none = []) := by
  have hfirst : matchShape t cards shape policy (some 1) = [] ↔
      matchShape t cards shape policy none = [] := by
    rw [matchShape_eq_cut]
    cases matchShape t cards shape policy none <;> simp [Budget.cut]
  have hlimit : (some k : Budget) ≠ some 0 := by
    rw [Ne, Option.some_inj]
    omega
  refine ⟨matchShape_eq_cut (some k), walkShape_eq hlimit,
    walkShape_eq (Option.some_ne_none 0).symm, hfirst, ?_⟩
  rw [← hfirst, canMatch, Bool.not_eq_false', List.isEmpty_iff]

/-- Two pairs and a jack, where a pair is asked for. -/
theorem first_of_two_pairs :
    let spade (n : Nat) (h : 2 ≤ n ∧ n ≤ 14) : Card := .suited .spades ⟨n, h.1, h.2⟩
    let three := spade 3 (by decide)
    let eight := spade 8 (by decide)
    let cards := [three, three, eight, eight, spade 11 (by decide)]
    let pair : UnitShape := ⟨2, 1, by decide, by decide⟩
    1 ≤ 1 ∧ ∃ g, matchShape {} cards [pair] .noProtections (some 1) = [g] ∧
      walkShape {} cards [pair] .noProtections (some 1) = [g] := by
  intro spade three eight cards pair
  have hpair : Placement {} .noProtections cards (Shape.structured [pair])
      [.repeated ⟨three, 2, by decide⟩] :=
    ⟨.refl _, by simpa [TrickUnit.members] using Trump.isRun_singleton three, by decide, nofun⟩
  have hcan : canMatch {} cards [pair] .noProtections = true :=
    canMatch_iff.mpr ⟨by decide, _, hpair⟩
  obtain ⟨htake, hwalk, -, -, hnone⟩ :=
    early_stop_gives_first_matches {} cards [pair] .noProtections 1 (Nat.le_refl 1)
  rw [htake] at hwalk ⊢
  cases hall : matchShape {} cards [pair] .noProtections none with
  | nil => exact absurd (hnone.mpr hall) (by simp [hcan])
  | cons g rest =>
    rw [hall] at hwalk
    exact ⟨Nat.le_refl 1, g, rfl, hwalk⟩

end TractorRules
