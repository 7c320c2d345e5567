import TractorRules.Proofs.Counts
import TractorRules.TrickUnit.Description

/-!
# Descriptions give the shapes back

A description is read from the left, one word after the other: the number of a part, then its noun,
and after each part the mark that tells whether it is the last.  So two lists of shapes read the same
only when they count the same shapes in the same order (`describe_eq_iff`).
-/

namespace TractorRules

/-! ### Words -/

def IsWord (w : String) : Prop := ∀ c ∈ w.toList, c ≠ ' ' ∧ c ≠ ','

instance : DecidablePred IsWord := fun w =>
  decidable_of_iff (w.toList.all fun c => c ≠ ' ' ∧ c ≠ ',') (by simp [IsWord])

/-- What can follow a word: nothing, a blank or a comma. -/
def EndsWord (rest : String) : Prop := ∀ c ∈ rest.toList.head?, c = ' ' ∨ c = ','

variable {w w' r r' : String}

theorem IsWord.append (hw : IsWord w) (hw' : IsWord w') : IsWord (w ++ w') := by
  rw [IsWord, String.toList_append, List.forall_mem_append]
  exact ⟨hw, hw'⟩

theorem endsWord_empty : EndsWord "" := by
  intro c hc
  simp at hc

theorem endsWord_append {mark : String} {c : Char} (hmark : mark.toList.head? = some c)
    (hc : c = ' ' ∨ c = ',') (r : String) : EndsWord (mark ++ r) := by
  intro d hd
  rw [String.toList_append, List.head?_append, hmark] at hd
  obtain rfl : c = d := Option.some.inj hd
  exact hc

theorem endsWord_blank (r : String) : EndsWord (" " ++ r) := endsWord_append rfl (Or.inl rfl) r

theorem endsWord_comma (r : String) : EndsWord (", " ++ r) := endsWord_append rfl (Or.inr rfl) r

theorem takeWhile_word (hw : IsWord w) (hr : EndsWord r) :
    (w ++ r).toList.takeWhile (fun c => c ≠ ' ' ∧ c ≠ ',') = w.toList := by
  have hrest : r.toList.takeWhile (fun c => c ≠ ' ' ∧ c ≠ ',') = [] := by
    rcases hcs : r.toList with _ | ⟨c, cs⟩
    · rfl
    · have hc : c = ' ' ∨ c = ',' := hr c (by rw [hcs]; rfl)
      exact List.takeWhile_cons_of_neg (by simpa [imp_iff_not_or] using hc)
  rw [String.toList_append, List.takeWhile_append_of_pos fun c hc => decide_eq_true (hw c hc),
    hrest, List.append_nil]

theorem word_inj (hw : IsWord w) (hw' : IsWord w') (hr : EndsWord r) (hr' : EndsWord r')
    (h : w ++ r = w' ++ r') : w = w' ∧ r = r' := by
  have hword : w = w' := by
    rw [← String.toList_inj, ← takeWhile_word hw hr, h, takeWhile_word hw' hr']
  subst hword
  exact ⟨rfl, (String.append_right_inj w).mp h⟩

/-! ### Number words -/

theorem toList_toString (n : Nat) : (toString n).toList = Nat.toDigits 10 n := by
  rw [Nat.toString_eq_repr, Nat.repr_eq_ofList_toDigits, String.toList_ofList]

theorem toString_injective : Function.Injective (toString : Nat → String) := by
  intro n m h
  have hdigits : Nat.toDigits 10 n = Nat.toDigits 10 m := by
    rw [← toList_toString, ← toList_toString, h]
  rw [← Nat.ofDigitChars_ten_toDigits (n := n), hdigits, Nat.ofDigitChars_ten_toDigits]

theorem isDigit_of_mem_toString {n : Nat} {c : Char} (h : c ∈ (toString n).toList) :
    c.isDigit = true := by
  rw [toList_toString] at h
  exact Nat.isDigit_of_mem_toDigits (by decide) (by decide) h

theorem isWord_toString (n : Nat) : IsWord (toString n) := by
  intro c hc
  have hdigit := isDigit_of_mem_toString hc
  constructor <;> rintro rfl <;> exact absurd hdigit (by decide)

/-- Names from a table up to a bound, and by a rule beyond it, are told apart by a mark that the rule
leaves and that the table has only where it follows the rule. -/
theorem injective_of_table {name rule : Nat → String} (bound : Nat) (mark : String → Prop)
    (hbeyond : ∀ n, bound < n → name n = rule n) (hrule : Function.Injective rule)
    (hmark : ∀ n, mark (rule n)) (htable : ∀ n ≤ bound, mark (name n) → name n = rule n)
    (hnames : ∀ n ≤ bound, ∀ m ≤ bound, name n = name m → n = m) : Function.Injective name := by
  have hmixed {n m : Nat} (hn : n ≤ bound) (hm : bound < m) (h : name n = name m) : n = m := by
    rw [hbeyond m hm] at h
    exact hrule ((htable n hn (h ▸ hmark m)).symm.trans h)
  intro n m h
  rcases Nat.lt_or_ge bound n with hn | hn <;> rcases Nat.lt_or_ge bound m with hm | hm
  · rw [hbeyond n hn, hbeyond m hm] at h
    exact hrule h
  · exact (hmixed hm hn h.symm).symm
  · exact hmixed hn hm h
  · exact hnames n hn m hm h

theorem ne_of_table {name rule : Nat → String} (bound : Nat)
    (hbeyond : ∀ n, bound < n → name n = rule n) (hrule : ∀ n, rule n ≠ w)
    (htable : ∀ n ≤ bound, name n ≠ w) (n : Nat) : name n ≠ w := by
  rcases Nat.lt_or_ge bound n with hn | hn
  · rw [hbeyond n hn]
    exact hrule n
  · exact htable n hn

theorem numberWord_of_twelve_lt {n : Nat} (h : 12 < n) : numberWord n = toString n := by
  unfold numberWord
  split <;> first | omega | rfl

theorem isWord_numberWord (n : Nat) : IsWord (numberWord n) := by
  unfold numberWord
  split
  case h_12 => exact isWord_toString n
  all_goals decide

theorem numberWord_injective : Function.Injective numberWord := by
  refine injective_of_table 12 (fun w => w.toList.all Char.isDigit = true)
    (fun _ => numberWord_of_twelve_lt) toString_injective
    (fun _ => List.all_eq_true.mpr fun _ => isDigit_of_mem_toString) ?_ ?_
  · decide +kernel
  · decide +kernel

/-- A word with a letter that is none of the number words is no number. -/
theorem numberWord_ne {c : Char} (hc : c ∈ w.toList) (hletter : c.isDigit = false)
    (htable : ∀ n ≤ 12, numberWord n ≠ w) : ∀ n, numberWord n ≠ w := by
  refine ne_of_table 12 (fun _ => numberWord_of_twelve_lt) (fun n => ?_) htable
  rintro rfl
  exact absurd (isDigit_of_mem_toString hc) (by simp [hletter])

theorem article_eq_or (noun : String) : article noun = "an" ∨ article noun = "a" := by
  unfold article
  split
  · exact Or.inl rfl
  · exact Or.inr rfl

theorem isWord_article (noun : String) : IsWord (article noun) := by
  rcases article_eq_or noun with h | h <;> rw [h] <;> decide

theorem numberWord_ne_article (n : Nat) (noun : String) : numberWord n ≠ article noun := by
  rcases article_eq_or noun with h | h <;> rw [h]
  · exact numberWord_ne (c := 'a') (by decide) (by decide) (by decide +kernel) n
  · exact numberWord_ne (c := 'a') (by decide) (by decide) (by decide +kernel) n

/-! ### Nouns -/

theorem tupleName_of_four_lt {n : Nat} (h : 4 < n) : tupleName n = toString n ++ "-tuple" := by
  unfold tupleName
  split <;> first | omega | rfl

theorem isWord_tupleName (n : Nat) : IsWord (tupleName n) := by
  unfold tupleName
  split
  case h_5 => exact (isWord_toString n).append (by decide)
  all_goals decide

theorem dash_mem_tuple (n : Nat) : '-' ∈ (toString n ++ "-tuple").toList := by
  rw [String.toList_append]
  exact List.mem_append_right _ (by decide)

theorem tupleName_injective : Function.Injective tupleName := by
  have hrule : Function.Injective fun n : Nat => toString n ++ "-tuple" := fun n m h =>
    toString_injective ((String.append_left_inj "-tuple").mp h)
  refine injective_of_table 4 (fun w => '-' ∈ w.toList) (fun _ => tupleName_of_four_lt) hrule
    dash_mem_tuple ?_ ?_
  · decide +kernel
  · decide +kernel

theorem tupleName_ne_tractor (n : Nat) : tupleName n ≠ "tractor" := by
  refine ne_of_table 4 (fun _ => tupleName_of_four_lt) (fun n h => ?_) (by decide +kernel) n
  have hdash := dash_mem_tuple n
  rw [h] at hdash
  revert hdash
  decide

namespace UnitShape

variable {s s' : UnitShape} {n n' : Nat}

/-- The words for a shape, with what makes them plural. -/
def noun (s : UnitShape) (plural : String) : String :=
  if s.groups = 1 then tupleName s.copies ++ plural
  else "tractor" ++ plural ++ (" of " ++ numberWord s.groups ++ " " ++ tupleName s.copies ++ "s")

theorem describe_eq (s : UnitShape) : s.describe = s.noun "" := by
  rw [describe, noun, String.append_empty, String.append_empty]
  simp only [String.append_assoc]
  rfl

theorem describePlural_eq (s : UnitShape) : s.describePlural = s.noun "s" := by
  rw [describePlural, noun]
  simp only [String.append_assoc]
  rfl

theorem noun_append (s : UnitShape) (plural r : String) :
    s.noun plural ++ r = if s.groups = 1 then tupleName s.copies ++ plural ++ r
      else "tractor" ++ plural ++ (" of " ++ (numberWord s.groups ++ (" " ++
        (tupleName s.copies ++ "s" ++ r)))) := by
  unfold noun
  split <;> simp only [String.append_assoc]

/-- A name for a tuple is one word, and not the word that a tractor starts with. -/
theorem noun_inj {plural : String} (hp : IsWord plural) (hr : EndsWord r) (hr' : EndsWord r')
    (h : s.noun plural ++ r = s'.noun plural ++ r') : s = s' ∧ r = r' := by
  have hname (n : Nat) {suffix : String} (hs : IsWord suffix) : IsWord (tupleName n ++ suffix) :=
    (isWord_tupleName n).append hs
  have htractor : IsWord ("tractor" ++ plural) := IsWord.append (by decide) hp
  have hof (q : String) : EndsWord (" of " ++ q) := endsWord_blank ("of " ++ q)
  rw [noun_append, noun_append] at h
  -- tuples or tractors on both sides, else the first words differ
  split at h <;> split at h
  · rename_i hgroups hgroups'
    obtain ⟨hcopies, hrest⟩ := word_inj (hname _ hp) (hname _ hp) hr hr' h
    have hcopies := tupleName_injective ((String.append_left_inj plural).mp hcopies)
    exact ⟨UnitShape.ext hcopies (hgroups.trans hgroups'.symm), hrest⟩
  · have hword := (word_inj (hname _ hp) htractor hr (hof _) h).1
    exact absurd ((String.append_left_inj plural).mp hword) (tupleName_ne_tractor _)
  · have hword := (word_inj htractor (hname _ hp) (hof _) hr' h).1
    exact absurd ((String.append_left_inj plural).mp hword).symm (tupleName_ne_tractor _)
  · rw [String.append_right_inj, String.append_right_inj] at h
    obtain ⟨hgroups, h⟩ := word_inj (isWord_numberWord _) (isWord_numberWord _)
      (endsWord_blank _) (endsWord_blank _) h
    obtain ⟨hcopies, hrest⟩ := word_inj (hname _ (by decide)) (hname _ (by decide)) hr hr'
      ((String.append_right_inj " ").mp h)
    have hcopies := tupleName_injective ((String.append_left_inj "s").mp hcopies)
    exact ⟨UnitShape.ext hcopies (numberWord_injective hgroups), hrest⟩

/-! ### Parts -/

/-- How many there are: an article or a number. -/
def quantity (s : UnitShape) (n : Nat) : String :=
  if n = 1 then article s.describe else numberWord n

theorem isWord_quantity (s : UnitShape) (n : Nat) : IsWord (s.quantity n) := by
  unfold quantity
  split
  · exact isWord_article _
  · exact isWord_numberWord n

theorem quantity_ne_nothing (s : UnitShape) (n : Nat) : s.quantity n ≠ "nothing" := by
  unfold quantity
  split
  · rcases article_eq_or s.describe with h | h <;> rw [h] <;> decide
  · exact numberWord_ne (c := 'o') (by decide) (by decide) (by decide +kernel) n

theorem quantity_inj (h : s.quantity n = s'.quantity n') : n = n' := by
  unfold quantity at h
  split at h <;> split at h
  · omega
  · exact absurd h.symm (numberWord_ne_article _ _)
  · exact absurd h (numberWord_ne_article _ _)
  · exact numberWord_injective h

theorem describeCount_eq (s : UnitShape) (n : Nat) :
    s.describeCount n = s.quantity n ++ (" " ++ s.noun (if n = 1 then "" else "s")) := by
  unfold describeCount quantity
  split
  · rw [← describe_eq, String.append_assoc]
  · rw [← describePlural_eq, String.append_assoc]

theorem describeCount_inj (hr : EndsWord r) (hr' : EndsWord r')
    (h : s.describeCount n ++ r = s'.describeCount n' ++ r') : (s, n) = (s', n') ∧ r = r' := by
  rw [describeCount_eq, describeCount_eq] at h
  simp only [String.append_assoc] at h
  obtain ⟨hn, h⟩ := word_inj (isWord_quantity _ _) (isWord_quantity _ _) (endsWord_blank _)
    (endsWord_blank _) h
  obtain rfl := quantity_inj hn
  have hplural : IsWord (if n = 1 then "" else "s") := by
    split <;> decide
  obtain ⟨rfl, hrest⟩ := noun_inj hplural hr hr' ((String.append_right_inj " ").mp h)
  exact ⟨rfl, hrest⟩

end UnitShape

/-! ### Lists of parts -/

/-- What stands before a part that is not the first: it tells whether the part is the last. -/
def mark (rest : List String) : String := if rest.isEmpty then " and " else ", "

theorem mark_inj {rest rest' : List String} (h : mark rest ++ r = mark rest' ++ r') : r = r' := by
  have hne (q q' : String) : " and " ++ q ≠ ", " ++ q' := by
    intro h
    have := congrArg String.toList h
    simp at this
  unfold mark at h
  split at h <;> split at h
  · exact (String.append_right_inj _).mp h
  · exact absurd h (hne r r')
  · exact absurd h.symm (hne r' r)
  · exact (String.append_right_inj _).mp h

/-- The parts after the first. -/
def joinRest : List String → String
  | [] => ""
  | part :: rest => mark rest ++ (part ++ joinRest rest)

theorem endsWord_joinRest (parts : List String) : EndsWord (joinRest parts) := by
  cases parts with
  | nil => exact endsWord_empty
  | cons part rest =>
    rw [joinRest, mark]
    split
    · exact endsWord_blank ("and " ++ _)
    · exact endsWord_comma _

theorem joinParts_cons (part : String) (rest : List String) :
    joinParts (part :: rest) = part ++ joinRest rest := by
  induction rest generalizing part with
  | nil => exact String.append_empty.symm
  | cons next rest ih =>
    cases rest with
    | nil => simp [joinParts, joinRest, mark, String.append_assoc]
    | cons third rest =>
      have hsplit : joinParts (part :: next :: third :: rest) =
          part ++ (", " ++ joinParts (next :: third :: rest)) := by
        simp only [joinParts, List.dropLast_cons_cons, String.intercalate_cons_cons,
          List.getLastD_cons, String.append_assoc]
      rw [hsplit, ih next, joinRest]
      rfl

def countedPart (e : UnitShape × Nat) : String := e.1.describeCount e.2

theorem countedPart_inj {e e' : UnitShape × Nat} {parts parts' : List String}
    (h : countedPart e ++ joinRest parts = countedPart e' ++ joinRest parts') :
    e = e' ∧ joinRest parts = joinRest parts' :=
  UnitShape.describeCount_inj (endsWord_joinRest _) (endsWord_joinRest _) h

theorem joinRest_inj {cs cs' : Counts UnitShape}
    (h : joinRest (cs.map countedPart) = joinRest (cs'.map countedPart)) : cs = cs' := by
  have hne (part : String) (rest : List String) : joinRest (part :: rest) ≠ "" := by
    rw [joinRest, mark]
    split <;> simp
  induction cs generalizing cs' with
  | nil =>
    cases cs' with
    | nil => rfl
    | cons e' cs' => exact absurd h.symm (hne _ _)
  | cons e cs ih =>
    cases cs' with
    | nil => exact absurd h (hne _ _)
    | cons e' cs' =>
      obtain ⟨rfl, hrest⟩ := countedPart_inj (mark_inj h)
      rw [ih hrest]

theorem joinParts_inj {cs cs' : Counts UnitShape}
    (h : joinParts (cs.map countedPart) = joinParts (cs'.map countedPart)) : cs = cs' := by
  have hnothing (e : UnitShape × Nat) (rest : List String) :
      joinParts (countedPart e :: rest) ≠ "nothing" := by
    intro h
    rw [joinParts_cons, countedPart, UnitShape.describeCount_eq, String.append_assoc,
      String.append_assoc, ← String.append_empty (s := "nothing")] at h
    exact UnitShape.quantity_ne_nothing _ _
      (word_inj (UnitShape.isWord_quantity _ _) (by decide) (endsWord_blank _) endsWord_empty h).1
  rcases cs with _ | ⟨e, cs⟩ <;> rcases cs' with _ | ⟨e', cs'⟩
  · rfl
  · exact absurd h.symm (hnothing e' _)
  · exact absurd h (hnothing e _)
  · rw [List.map_cons, List.map_cons, joinParts_cons, joinParts_cons] at h
    obtain ⟨rfl, hrest⟩ := countedPart_inj h
    rw [joinRest_inj hrest]

/-! ### Shapes -/

theorem Shape.describe_eq_iff (s s' : Shape) : s.describe = s'.describe ↔
    s.eraseDups = s'.eraseDups ∧ ∀ u, s.count u = s'.count u := by
  rw [← Counts.ofList_eq_iff]
  exact ⟨joinParts_inj, fun h => by rw [describe, describe, h]⟩

end TractorRules
