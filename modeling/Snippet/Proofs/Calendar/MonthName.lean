import Snippet.Calendar.DateToken
import Snippet.Proofs.Pattern.Spelling

/-!
# The names of the months

The months have the names and abbreviations of a table (`Calendar.monthNames`), in any case of the
letters. The expression for month names reads each of them (`takes_monthName`), and the first
three letters tell the number of the month (`monthNumber?_of_isMonthName`).
-/

namespace Snippet

namespace Calendar

/-- The names of the months in small letters, the abbreviation of three letters first. -/
def monthNames : List (List String) :=
  [["jan", "january"], ["feb", "february"], ["mar", "march"], ["apr", "april"], ["may"],
    ["jun", "june"], ["jul", "july"], ["aug", "august"], ["sep", "sept", "september"],
    ["oct", "october"], ["nov", "november"], ["dec", "december"]]

/-- A name of a month, in any case. -/
def IsMonthName (month : Nat) (name : Text) : Prop :=
  ∃ names ∈ monthNames[month - 1]?, ∃ w ∈ names, Text.lower name = w.toList

/-- A name of a month, in any case, where a letter beyond ASCII may stand for one that it is a form
of. -/
def IsMonthForm (month : Nat) (name : Text) : Prop :=
  ∃ names ∈ monthNames[month - 1]?, ∃ w ∈ names, name.map Text.foldCase = w.toList

/-- The abbreviations of the months. -/
def monthStems : List Text := monthNames.map fun names => (names.headD "").toList

theorem isLower_of_mem_monthNames :
    ∀ names ∈ monthNames, ∀ w ∈ names, w.toList.all Char.isLower := by
  decide

theorem IsMonthName.isMonthForm {month : Nat} {name : Text} (h : IsMonthName month name) :
    IsMonthForm month name := by
  obtain ⟨names, hnames, w, hw, hlower⟩ := h
  have hmem := isLower_of_mem_monthNames names (List.mem_of_getElem? hnames) w hw
  exact ⟨names, hnames, w, hw, Text.map_foldCase_eq_of_lower hmem hlower⟩

/-- The names of a month begin with its abbreviation. -/
theorem monthStems_prefix : ∀ names ∈ monthNames, ∀ w ∈ names,
    (names.headD "").toList <+: w.toList := by
  decide

theorem length_of_mem_monthStems : ∀ l ∈ monthStems, l.length = 3 := by decide

theorem nodup_monthStems : monthStems.Nodup := by decide

end Calendar

open Calendar

namespace Regex

/-- The expression reads the names of a month. -/
structure Names (r : Regex) (names : List String) : Prop where
  opens : Opens r (names.headD "").toList
  spells : ∀ w ∈ names, Spells r w
  reads : ∀ ⦃u⦄, r.Reads u → ∃ w ∈ names, u.map Text.foldCase = w.toList

/-- What a word with an optional rest reads is spelled by the word, or with a rest behind it. -/
theorem exists_of_reads_seq_opt {r : Regex} {w : String} {rests names : List String} {u : Text}
    (hw : w.toList.all Char.isLower)
    (hr : ∀ ⦃v⦄, r.Reads v → ∃ rest ∈ rests, v.map Text.foldCase = rest.toList)
    (hu : (seq (word w) (opt r)).Reads u) (hnames : names = w :: rests.map (w ++ ·)) :
    ∃ name ∈ names, u.map Text.foldCase = name.toList := by
  obtain ⟨a, b, rfl, ha, hb⟩ := reads_seq_iff.mp hu
  have ha := (reads_word_iff hw).mp ha
  rw [hnames]
  rcases reads_opt_iff.mp hb with rfl | hb
  · exact ⟨w, List.mem_cons_self .., by rw [List.append_nil, ha]⟩
  · obtain ⟨rest, hrest, hb⟩ := hr hb
    refine ⟨w ++ rest, List.mem_cons_of_mem _ (List.mem_map_of_mem hrest), ?_⟩
    rw [List.map_append, ha, hb, String.toList_append]

/-- A name with its abbreviation. -/
theorem names_stem {w rest name : String} (hw : w.toList.all Char.isLower)
    (hrest : rest.toList.all Char.isLower) (hne : rest.toList ≠ []) (hname : name = w ++ rest) :
    Names (Pattern.stem w rest) [w, name] := by
  refine ⟨(opens_word hw).seq, ?_, fun u hu => ?_⟩
  · simp only [List.forall_mem_cons, List.not_mem_nil, false_imp_iff, implies_true, and_true]
    rw [hname]
    exact ⟨spells_seq_opt hw (starts_word hrest hne), spells_append hw (spells_word hrest)⟩
  · have hread : ∀ ⦃v⦄, (word rest).Reads v → ∃ w ∈ [rest], v.map Text.foldCase = w.toList :=
      fun v hv => ⟨rest, List.mem_singleton_self rest, (reads_word_iff hrest).mp hv⟩
    exact exists_of_reads_seq_opt hw hread hu (by rw [hname]; rfl)

theorem names_word {w : String} (hw : w.toList.all Char.isLower) : Names (word w) [w] := by
  refine ⟨opens_word hw, by simpa using spells_word hw, fun u hu => ?_⟩
  exact ⟨w, by simp, (reads_word_iff hw).mp hu⟩

/-- The ninth month has two abbreviations. -/
theorem names_september :
    Names (seq (word "sep") (opt (Pattern.stem "t" "ember"))) ["sep", "sept", "september"] := by
  have hsep : "sep".toList.all Char.isLower := by decide
  have hrest : Names (Pattern.stem "t" "ember") ["t", "tember"] :=
    names_stem (by decide) (by decide) (by decide) (by decide)
  refine ⟨(opens_word hsep).seq, ?_, fun u hu =>
    exists_of_reads_seq_opt hsep hrest.reads hu (by decide)⟩
  simp only [List.forall_mem_cons, List.not_mem_nil, false_imp_iff, implies_true, and_true]
  exact ⟨spells_seq_opt hsep (.inl (starts_word (by decide) (by decide))),
    spells_append hsep (hrest.spells "t" (by simp)),
    spells_append hsep (hrest.spells "tember" (by simp))⟩

/-- The branches of the expression for month names read the names of the months in their order. -/
theorem exists_forall₂_names : ∃ rs, Pattern.monthName = anyOf rs ∧
    List.Forall₂ Names rs monthNames := by
  refine ⟨_, rfl, ?_⟩
  have hstem : ∀ w rest : String, w.toList.all Char.isLower && rest.toList.all Char.isLower &&
      !rest.toList.isEmpty → Names (Pattern.stem w rest) [w, w ++ rest] := by
    intro w rest h
    simp only [Bool.and_eq_true, Bool.not_eq_true', List.isEmpty_eq_false_iff] at h
    exact names_stem h.1.1 h.1.2 h.2 rfl
  exact .cons (hstem "jan" "uary" rfl) <| .cons (hstem "feb" "ruary" rfl) <|
    .cons (hstem "mar" "ch" rfl) <| .cons (hstem "apr" "il" rfl) <| .cons (names_word rfl) <|
    .cons (hstem "jun" "e" rfl) <| .cons (hstem "jul" "y" rfl) <| .cons (hstem "aug" "ust" rfl) <|
    .cons names_september <| .cons (hstem "oct" "ober" rfl) <| .cons (hstem "nov" "ember" rfl) <|
    .cons (hstem "dec" "ember" rfl) .nil

/-- **A name of a month is read as such.** -/
theorem takes_monthName {month : Nat} {name : Text} (h : IsMonthForm month name) :
    Takes Pattern.monthName name (NoneNext Text.isForm) noGroups := by
  obtain ⟨names, hnames, w, hw, hfold⟩ := h
  obtain ⟨rs, heq, hrs⟩ := exists_forall₂_names
  obtain ⟨hi, rfl⟩ := List.getElem?_eq_some_iff.mp hnames
  have hopens : List.Forall₂ Opens rs monthStems := by
    rw [monthStems, List.forall₂_map_right_iff]
    exact hrs.imp fun _ _ h => h.opens
  have hmem := List.getElem_mem hi
  have hspells : Spells (anyOf rs) w := by
    refine spells_anyOf hopens length_of_mem_monthStems nodup_monthStems hi ?_ ?_
    · simp only [monthStems, List.getElem_map]
      exact monthStems_prefix _ hmem w hw
    · exact (hrs.get (hrs.length_eq ▸ hi) hi).spells w hw
  rw [heq]
  exact hspells hfold

end Regex

theorem DateParts.monthNumber?_of_isMonthName {month : Nat} {name : Text}
    (h : IsMonthName month name) (hmonth : 1 ≤ month) : monthNumber? name = some month := by
  obtain ⟨names, hnames, w, hw, hlower⟩ := h
  have hall : ∀ i < 12, ∀ names ∈ monthNames[i]?, ∀ w ∈ names,
      (["jan", "feb", "mar", "apr", "may", "jun", "jul", "aug", "sep", "oct", "nov", "dec"].idxOf?
        (String.ofList (w.toList.take 3)) |>.map (· + 1)) = some (i + 1) := by
    decide
  have hi : month - 1 < 12 := (List.getElem?_eq_some_iff.mp hnames).1
  have htake : Text.lower (name.take 3) = w.toList.take 3 := by
    rw [Text.lower, List.map_take, ← hlower, Text.lower]
  rw [monthNumber?, htake, hall _ hi names hnames w hw, Nat.sub_add_cancel hmonth]

end Snippet
