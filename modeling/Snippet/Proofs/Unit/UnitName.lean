import Snippet.Proofs.Detection.Quantities

/-!
# The names of units as captions

A conversion shows its value with the name of a unit as it was written, in any case and perhaps with
points behind it. The names are those of two tables (`Measure.names`), and each of them can stand
behind a figure (`Unit.caption_of_conversion?`): it has at most one blank, no name of a month at its
end, and more letters than those of the word "of".
-/

namespace Snippet

open Pattern

namespace Measure

/-- The names of all units, in small letters. -/
def names : List Text :=
  (scaledUnits.flatMap (·.1) ++ temperatureUnits.flatMap (·.1)).map String.toList

theorem mem_names_of_ofKey? {k : Text} (h : (ofKey? k).isSome) : k ∈ names := by
  have hmem : String.ofList k ∈ scaledUnits.flatMap (·.1) ++ temperatureUnits.flatMap (·.1) := by
    rw [ofKey?] at h
    dsimp only at h
    split at h
    · rename_i hfind
      have hnamed := List.find?_some hfind
      exact List.mem_append_left _ (List.mem_flatMap.mpr
        ⟨_, List.mem_of_find?_eq_some hfind, List.contains_iff_mem.mp hnamed⟩)
    · rw [Option.isSome_map, List.find?_isSome] at h
      obtain ⟨u, hu, hnamed⟩ := h
      exact List.mem_append_right _ (List.mem_flatMap.mpr
        ⟨u, hu, List.contains_iff_mem.mp hnamed⟩)
  exact List.mem_map.mpr ⟨_, hmem, String.toList_ofList⟩

/-- The abbreviation of a month stands in the name of one unit only. -/
theorem stem_of_mem_names : ∀ k ∈ names, ∀ s ∈ k.tails, s.take 3 ∈ Calendar.monthStems →
    s ∈ ["deciliter".toList, "deciliters".toList] := by
  decide +kernel

/-- Where a name of a month stands in the name of a unit, a letter comes next. -/
theorem month_of_mem_names : ∀ k ∈ names, ∀ s ∈ k.tails, ∀ months ∈ Calendar.monthNames,
    ∀ w ∈ months, w.toList <+: s → (s.drop w.length).head?.any Char.isLower := by
  intro k hk s hs months hmonths w hw hpart
  have hstem : s.take 3 ∈ Calendar.monthStems := by
    have hmem : (months.headD "").toList ∈ Calendar.monthStems := List.mem_map_of_mem hmonths
    have hfirst := (Calendar.monthStems_prefix months hmonths w hw).trans hpart
    rw [List.prefix_iff_eq_take, Calendar.length_of_mem_monthStems _ hmem] at hfirst
    rwa [← hfirst]
  have hunit : ∀ s ∈ ["deciliter".toList, "deciliters".toList], ∀ months ∈ Calendar.monthNames,
      ∀ w ∈ months, w.toList <+: s → (s.drop w.length).head?.any Char.isLower := by
    decide
  exact hunit s (stem_of_mem_names k hk s hs hstem) months hmonths w hw hpart

theorem blank_of_mem_names : ∀ k ∈ names, k.countP Text.isWhite ≤ 1 := by
  decide +kernel

theorem other_of_mem_names :
    ∀ k ∈ names, k.filter (!isArithmetic ·) ∉ [[], "of".toList] := by
  decide +kernel

end Measure

/-! ## The characters of a name -/

/-- What becomes of a character of a unit name when the name is looked up. -/
structure FoldsTo (c d : Char) : Prop where
  lowerLetter_eq : Measure.lowerLetter c = d
  isWhite_eq : Text.isWhite d = Text.isWhite c
  isArithmetic_eq : isArithmetic d = isArithmetic c
  isDigit_eq_false : Text.isDigit c = false
  not_mem : c ∉ ['+', '-', ';']

instance (c d : Char) : Decidable (FoldsTo c d) :=
  decidable_of_iff (Measure.lowerLetter c = d ∧ Text.isWhite d = Text.isWhite c ∧
      isArithmetic d = isArithmetic c ∧ Text.isDigit c = false ∧ c ∉ ['+', '-', ';'])
    ⟨fun ⟨h₁, h₂, h₃, h₄, h₅⟩ => ⟨h₁, h₂, h₃, h₄, h₅⟩, fun ⟨h₁, h₂, h₃, h₄, h₅⟩ => ⟨h₁, h₂, h₃, h₄, h₅⟩⟩

theorem foldsTo_of_isUnitChar {c : Char} (h : isUnitChar c) : FoldsTo c (Text.foldCase c) := by
  have hall : ∀ n < 256, isUnitChar (Char.ofNat n) →
      FoldsTo (Char.ofNat n) (Text.foldCase (Char.ofNat n)) := by
    decide +kernel
  have hlt : c.toNat < 256 := by
    rw [isUnitChar, isUnitLead, Bool.or_eq_true, Bool.or_eq_true, Bool.or_eq_true, beq_iff_eq,
      beq_iff_eq, List.contains_iff_mem] at h
    rcases h with ((h | h) | rfl) | rfl
    · have := Text.toNat_of_isAlpha h
      omega
    · have hmark : ∀ c ∈ "°µ'\"".toList, c.toNat < 256 := by decide
      exact hmark c h
    · decide
    · decide
  rw [← Char.ofNat_toNat c] at h ⊢
  exact hall _ hlt h

namespace Unit

variable {t target name : Text} {x : Float}

/-- The name that is shown is that of a unit, as it was written. -/
theorem name_of_conversion? (h : conversion? t = some (x, name)) :
    ∃ target, name = Text.trim target ∧ (∀ c ∈ target, isUnitChar c) ∧
      (Measure.lookup? target).isSome := by
  simp only [conversion?, parts?, converted?, Option.bind_eq_bind, Option.bind_eq_some_iff,
    Option.pure_def, Option.some.injEq] at h
  obtain ⟨⟨value, source, target⟩, ⟨m, hm, y, -, z, -, target', htarget, heq⟩, x', hx', hname⟩ := h
  cases heq
  cases hname
  refine ⟨target, rfl, ?_, ?_⟩
  · obtain ⟨body, hbody, hread, -⟩ := reads_group_of_full? hm (by decide) htarget
    have hbodies : unitConversion.regex.bodies = [(1, unitValue),
      (2, .seq (.one isUnitLead) (Regex.few (.one isUnitChar))),
      (3, .seq (.one isUnitLead) (Regex.many (.one isUnitChar)))] := rfl
    have hbody : body = .seq (.one isUnitLead) (Regex.many (.one isUnitChar)) := by
      simpa [hbodies] using hbody
    subst hbody
    refine hread.forall_mem (p := (isUnitChar ·)) ⟨fun c hc => ?_, fun _ => id⟩
    simp [isUnitChar, hc]
  · obtain ⟨-, -, -, -, -, -, m', hm', -⟩ := hx'
    exact Option.isSome_of_mem hm'

theorem namesNoMonth_of_mem_names {core : Text} (h : core.map Text.foldCase ∈ Measure.names) :
    NamesNoMonth core :=
  .of_tails (Measure.month_of_mem_names _ h)

theorem filter_map_foldCase (h : ∀ c ∈ t, isUnitChar c) (p : Char → Bool)
    (hp : ∀ c, isUnitChar c → p (Text.foldCase c) = p c) :
    (t.map Text.foldCase).filter p = (t.filter p).map Text.foldCase := by
  rw [List.filter_map]
  congr 1
  exact List.filter_congr fun c hc => hp c (h c hc)

/-- A name that is found is that of a unit and perhaps points. -/
theorem exists_core (hchars : ∀ c ∈ target, isUnitChar c) (h : (Measure.lookup? target).isSome) :
    ∃ core dots, Text.trim target = core ++ dots ∧ (∀ c ∈ core, isUnitChar c) ∧
      core.map Text.foldCase ∈ Measure.names ∧ ∀ c ∈ dots, c = '.' := by
  have htrim := Text.dropWhileEnd_append_takeWhileEnd (· == '.') (Text.trim target)
  generalize hcore : Text.dropWhileEnd (· == '.') (Text.trim target) = core at htrim
  have hmem : ∀ c ∈ core, isUnitChar c := fun c hc =>
    hchars c (Text.mem_of_mem_trim (htrim ▸ List.mem_append_left _ hc))
  refine ⟨core, _, htrim.symm, hmem, ?_, fun c hc => ?_⟩
  · have hmap : core.map Text.foldCase = Measure.key target := by
      rw [Measure.key, hcore]
      exact (List.map_congr_left fun c hc => (foldsTo_of_isUnitChar (hmem c hc)).lowerLetter_eq).symm
    rw [hmap]
    exact Measure.mem_names_of_ofKey? h
  · rw [Text.takeWhileEnd, List.mem_reverse] at hc
    have hpoint : (c == '.') = true := List.mem_takeWhile_imp (p := (· == '.')) hc
    exact beq_iff_eq.mp hpoint

section

variable {core dots : Text} (hcore : ∀ c ∈ core, isUnitChar c)
  (hnames : core.map Text.foldCase ∈ Measure.names) (hdots : ∀ c ∈ dots, c = '.')
include hcore hnames hdots

theorem countP_core_append : (core ++ dots).countP Text.isWhite ≤ 1 := by
  have hpoints : dots.countP Text.isWhite = 0 := List.countP_eq_zero.mpr fun c hc =>
    hdots c hc ▸ by decide
  have hblank := Measure.blank_of_mem_names _ hnames
  rw [List.countP_eq_length_filter, filter_map_foldCase hcore _ fun c hc =>
    (foldsTo_of_isUnitChar hc).isWhite_eq, List.length_map, ← List.countP_eq_length_filter] at hblank
  rwa [List.countP_append, hpoints, Nat.add_zero]

theorem filter_core_append :
    ((core ++ dots).filter (!isArithmetic ·)).map Text.foldCase ∉ [[], "of".toList] := by
  have hpoints : dots.filter (!isArithmetic ·) = [] := List.filter_eq_nil_iff.mpr fun c hc =>
    hdots c hc ▸ by decide
  rw [List.filter_append, hpoints, List.append_nil, ← filter_map_foldCase hcore _ fun c hc => by
    rw [(foldsTo_of_isUnitChar hc).isArithmetic_eq]]
  exact Measure.other_of_mem_names _ hnames

omit hcore in
theorem namesNoMonth_core_append : NamesNoMonth (core ++ dots) := by
  have hbefore := namesNoMonth_of_mem_names hnames
  cases dots with
  | nil => rwa [List.append_nil]
  | cons d dots =>
    have hform : ∀ c ∈ d :: dots, Text.isForm c = false := fun c hc => hdots c hc ▸ by decide
    exact hbefore.append_cons (.of_forall fun c hc => hform c (List.mem_cons_of_mem d hc))
      (hform d (List.mem_cons_self ..))

end

/-- **The name of a unit that is shown is a caption with more letters than those of "of".** -/
theorem caption_of_conversion? (h : conversion? t = some (x, name)) :
    Caption (' ' :: name) ∧
      (name.filter (!isArithmetic ·)).map Text.foldCase ∉ [[], "of".toList] := by
  obtain ⟨target, rfl, hchars, hlookup⟩ := name_of_conversion? h
  obtain ⟨core, dots, htrim, hcore, hnames, hdots⟩ := exists_core hchars hlookup
  have hfold : ∀ c ∈ Text.trim target, FoldsTo c (Text.foldCase c) := fun c hc =>
    foldsTo_of_isUnitChar (hchars c (Text.mem_of_mem_trim hc))
  have hfilter := htrim.symm ▸ filter_core_append hcore hnames hdots
  have hne : Text.trim target ≠ [] := by
    intro hnil
    rw [hnil] at hfilter
    exact hfilter (List.mem_cons_self ..)
  have hmonth := htrim.symm ▸ namesNoMonth_core_append hnames hdots
  refine ⟨⟨by simp, ?_, ?_, ?_, ?_, ?_⟩, hfilter⟩
  · rw [List.forall_mem_cons]
    exact ⟨by decide, fun c hc => (hfold c hc).isDigit_eq_false⟩
  · rw [List.forall_mem_cons]
    exact ⟨by decide, fun c hc => (hfold c hc).not_mem⟩
  · intro c hc
    rw [← List.singleton_append, List.getLast?_append_of_ne_nil _ hne, ← Text.trimEnd_trim] at hc
    exact Text.isWhite_eq_false_of_getLast?_trimEnd hc
  · exact htrim.symm ▸ countP_core_append hcore hnames hdots
  · simpa using NamesNoMonth.append_cons (a := []) (c := ' ') (.of_forall (by simp)) hmonth (by decide)

end Unit

end Snippet
