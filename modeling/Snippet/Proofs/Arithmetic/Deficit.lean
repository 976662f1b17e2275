import Snippet.Proofs.Arithmetic.Balance
import Snippet.Proofs.Arithmetic.Scanning

/-!
# Missing operands

A scan does not check that operands and operators alternate. Where an operand is missing, the
symbols fall short of a number, and they stay short of it however the text goes on
(`Scan.deficit_le_of_step?`). A group that is closed without having been opened cannot be made good
either, so a state with one of the two is doomed (`Scan.Doomed.step?`, `Scan.Doomed.not_complete`).
-/

namespace Snippet.Arithmetic

namespace Scan

variable {s s' : Scan}

/-- A group that is complete counts for one number, except that a minus which still waits behind it
takes the place of the next operator. -/
def owed (s : Scan) : Int :=
  match s.symbols, s.digits, s.negative with
  | .closing :: _, [], false => 1
  | _, _, _ => 0

/-- The operands that are missing in what has been read. -/
def deficit (s : Scan) : Int := s.owed - weight s.symbols

/-- However the text goes on, it has no value: a group is closed that was not opened, or an operand
is missing. -/
def Doomed (s : Scan) : Prop := depth? s.symbols = none ∨ 1 ≤ s.deficit

theorem owed_nonneg (s : Scan) : 0 ≤ s.owed := by
  unfold owed
  split <;> decide

theorem owed_le_one (s : Scan) : s.owed ≤ 1 := by
  unfold owed
  split <;> decide

theorem owed_eq_zero
    (h : s.digits ≠ [] ∨ s.negative = true ∨ ∀ rest, s.symbols ≠ .closing :: rest) :
    s.owed = 0 := by
  unfold owed
  split
  · rename_i hsyms hd hn
    rcases h with h | h | h
    · exact absurd hd h
    · exact absurd (hn.symm.trans h) Bool.false_ne_true
    · exact absurd hsyms (h _)
  · rfl

theorem owed_of_expectsOperand (h : expectsOperand s.symbols) : s.owed = 0 := by
  refine owed_eq_zero (.inr (.inr ?_))
  intro rest hsyms
  rw [hsyms] at h
  cases h

@[simp] theorem owed_operator (op : Operator) (syms : List Symbol) (ds : Text) (negative : Bool) :
    owed ⟨.operator op :: syms, ds, negative⟩ = 0 := rfl

@[simp] theorem owed_opening (syms : List Symbol) (ds : Text) (negative : Bool) :
    owed ⟨.opening :: syms, ds, negative⟩ = 0 := rfl

theorem owed_closing (syms : List Symbol) : owed ⟨.closing :: syms, [], false⟩ = 1 := rfl

theorem deficit_le_readDigit (s : Scan) (c : Char) : s.deficit ≤ (s.readDigit c).deficit := by
  obtain ⟨syms, ds, negative⟩ := s
  have hle := owed_le_one ⟨syms, ds, negative⟩
  have hread : ∀ syms', owed ⟨syms', c :: ds, negative⟩ = 0 := fun _ =>
    owed_eq_zero (.inl (List.cons_ne_nil c ds))
  unfold readDigit
  split
  · -- behind a group the product that is inserted is owed
    simp only [deficit, push, hread, weight_cons, Symbol.weight]
    omega
  · rename_i hnot
    have howed : owed ⟨syms, ds, negative⟩ = 0 := by
      refine owed_eq_zero ?_
      by_cases hds : ds = []
      · exact .inr (.inr fun rest => hnot rest hds)
      · exact .inl hds
    simp only [deficit, hread, howed]
    exact Int.le_refl _

theorem deficit_le_operator {s₁ : Scan} (h : s.endNumber? = some s₁) (op : Operator) :
    s.deficit ≤ (s₁.push (.operator op)).deficit := by
  rcases endNumber?_cases h with rfl | ⟨hd, x, rfl⟩
  · have hle := s₁.owed_le_one
    simp only [deficit, push, owed_operator, weight_cons, Symbol.weight]
    omega
  · simp only [deficit, push, owed_operator, owed_eq_zero (.inl hd), weight_cons, Symbol.weight]
    omega

theorem deficit_le_closing {s₁ : Scan} (h : s.endNumber? = some s₁) :
    s.deficit ≤ (s₁.push .closing).deficit := by
  rcases endNumber?_cases h with rfl | ⟨hd, x, rfl⟩
  · have hle : s₁.owed ≤ (s₁.push .closing).owed := by
      conv_lhs => unfold owed
      split
      · rename_i hd hn
        simp [owed, push, hd, hn]
      · exact owed_nonneg _
    simp only [deficit, push, weight_cons, Symbol.weight] at hle ⊢
    omega
  · simp only [deficit, push, owed_closing, owed_eq_zero (.inl hd), weight_cons, Symbol.weight]
    omega

theorem deficit_le_openGroup {s₁ : Scan} (h : s.endNumber? = some s₁) :
    s.deficit ≤ s₁.openGroup.deficit := by
  rcases endNumber?_cases h with rfl | ⟨hd, x, rfl⟩
  · obtain ⟨syms, ds, negative⟩ := s₁
    have hle := owed_le_one ⟨syms, ds, negative⟩
    unfold openGroup
    split
    · rename_i hn
      obtain rfl : negative = true := hn
      have howed : owed ⟨syms, ds, true⟩ = 0 := owed_eq_zero (.inr (.inl rfl))
      simp only [deficit, howed, owed_opening, weight_cons, Symbol.weight]
      omega
    · split
      · simp only [deficit, push, owed_opening, weight_cons, Symbol.weight]
        omega
      · simp only [deficit, push, owed_opening, weight_cons, Symbol.weight]
        omega
      · rename_i hnot
        have howed : owed ⟨syms, ds, negative⟩ = 0 := owed_eq_zero (.inr (.inr hnot))
        simp only [deficit, push, howed, owed_opening, weight_cons, Symbol.weight]
        omega
  · have hgroup : openGroup ⟨.number x :: s.symbols, [], false⟩ =
        ⟨.opening :: .operator .mul :: .number x :: s.symbols, [], false⟩ := rfl
    simp only [hgroup, deficit, owed_opening, owed_eq_zero (.inl hd), weight_cons, Symbol.weight]
    omega

/-- **A missing operand stays missing.** -/
theorem deficit_le_of_step? {c : Char} (hc : isClean c) (h : s.step? c = some s') :
    s.deficit ≤ s'.deficit := by
  rcases step?_cases hc h with ⟨-, rfl⟩ | ⟨hs, negative, rfl⟩ | ⟨s₁, h₁, rfl | rfl | ⟨op, rfl⟩⟩
  · exact s.deficit_le_readDigit c
  · simp only [deficit, owed_of_expectsOperand hs]
    have := owed_of_expectsOperand (s := { s with negative := negative }) hs
    omega
  · exact deficit_le_openGroup h₁
  · exact deficit_le_closing h₁
  · exact deficit_le_operator h₁ op

/-- A step adds symbols to those that were read. -/
theorem suffix_of_step? {c : Char} (hc : isClean c) (h : s.step? c = some s') :
    s.symbols <:+ s'.symbols := by
  have hend : ∀ {s₁}, s.endNumber? = some s₁ → s.symbols <:+ s₁.symbols := by
    intro s₁ h₁
    rcases endNumber?_cases h₁ with rfl | ⟨-, x, rfl⟩
    · exact List.suffix_refl _
    · exact List.suffix_cons _ _
  rcases step?_cases hc h with ⟨-, rfl⟩ | ⟨-, negative, rfl⟩ | ⟨s₁, h₁, rfl | rfl | ⟨op, rfl⟩⟩
  · unfold readDigit
    split
    · exact List.suffix_cons _ _
    · exact List.suffix_refl _
  · exact List.suffix_refl _
  · refine (hend h₁).trans ?_
    unfold openGroup
    split
    · exact (List.suffix_cons _ _).trans (List.suffix_cons _ _)
    · split
      · exact (List.suffix_cons _ _).trans (List.suffix_cons _ _)
      · exact (List.suffix_cons _ _).trans (List.suffix_cons _ _)
      · exact List.suffix_cons _ _
  · exact (hend h₁).trans (List.suffix_cons _ _)
  · exact (hend h₁).trans (List.suffix_cons _ _)

theorem depth?_eq_none_of_suffix {before symbols : List Symbol} (h : before <:+ symbols)
    (hbefore : depth? before = none) : depth? symbols = none := by
  obtain ⟨added, rfl⟩ := h
  induction added with
  | nil => exact hbefore
  | cons sym added ih => exact depth?_cons_eq_none ih sym

theorem Doomed.step? {c : Char} (hs : s.Doomed) (hc : isClean c) (h : s.step? c = some s') :
    s'.Doomed := by
  rcases hs with hdepth | hdeficit
  · exact .inl (depth?_eq_none_of_suffix (suffix_of_step? hc h) hdepth)
  · exact .inr (Int.le_trans hdeficit (deficit_le_of_step? hc h))

/-- A doomed scan does not end with one number more than operators and no group open. -/
theorem Doomed.not_complete {s₁ : Scan} (hs : s.Doomed) (hend : s.endNumber? = some s₁)
    (hweight : weight s₁.symbols = 1) (hdepth : depth? s₁.symbols = some 0) : False := by
  have hle := s.owed_le_one
  rcases endNumber?_cases hend with rfl | ⟨hd, x, rfl⟩
  · rcases hs with hnone | hdeficit
    · rw [hnone] at hdepth
      cases hdepth
    · rw [deficit] at hdeficit
      omega
  · rcases hs with hnone | hdeficit
    · rw [depth?_cons_eq_none hnone] at hdepth
      cases hdepth
    · rw [deficit, owed_eq_zero (.inl hd)] at hdeficit
      rw [weight_cons, Symbol.weight] at hweight
      omega

end Scan

/-- **What is checked of a text with a value:** its last number can be ended, it has one number more
than it has operators, and its groups are opened and closed in pairs. -/
theorem exists_scan_of_evaluate {t : Text} {v : Float} (h : evaluate t = some v) :
    ∃ s s₁, Scan.Reads {} t s ∧ s.endNumber? = some s₁ ∧ weight s₁.symbols = 1 ∧
      depth? s₁.symbols = some 0 := by
  obtain ⟨symbols, hsymbols, h⟩ := Option.bind_eq_some_iff.mp h
  obtain ⟨code, hcode, hrun⟩ := Option.bind_eq_some_iff.mp h
  obtain ⟨s, hreads, h⟩ := Option.bind_eq_some_iff.mp hsymbols
  obtain ⟨s₁, hend, h⟩ := Option.bind_eq_some_iff.mp h
  split at h
  · cases h
  · obtain rfl := Option.some.inj h
    obtain ⟨hweight, hdepth⟩ := weight_depth_of_program? hcode
    rw [programWeight_of_run? hrun] at hweight
    exact ⟨s, s₁, hreads, hend, hweight.symm, hdepth⟩

end Snippet.Arithmetic
