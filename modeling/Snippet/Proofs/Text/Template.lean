import Snippet.Proofs.Text.Phrase
import Snippet.Template

/-!
# Placeholders in a template

A template is read from left to right, so a placeholder is filled exactly if nothing in front of it
is still open. `Closed` says this of the text in front: rendering goes on behind such a text
(`render_append_of_closed`), and every key that is read is that of a placeholder behind one
(`exists_of_placeholder_mem`).
-/

namespace Snippet.Template

variable {t u v before after key : Text} {values : List (Text × Text)}

/-- Every start of a placeholder in the text has an end behind it. -/
def Closed (t : Text) : Prop := ∀ a b, t = a ++ (opening ++ b) → '\x7d' ∈ b

/-- The placeholder of a key. -/
def placeholder (key : Text) : Text := opening ++ (key ++ closing)

theorem closed_of_find?_eq_none (h : Text.find? opening t = none) : Closed t :=
  fun a b heq => absurd heq (Text.find?_eq_none_iff.mp h a b)

/-- The end of a placeholder closes all that was opened in front of it. -/
theorem Closed.append (h : Closed v) (u : Text) : Closed (u ++ '\x7d' :: v) := by
  intro a b heq
  rcases Text.cases_of_append_cons heq (by decide) with ⟨z, -, rfl⟩ | ⟨z, -, hz⟩
  · simp
  · exact h z b hz

theorem Closed.of_append (h : Closed (u ++ v)) : Closed v :=
  fun a b heq => h (u ++ a) b (by simp [heq])

/-! ## The segments -/

theorem segments_eq_of_find?_eq_none (h : Text.find? opening t = none) :
    segments t = [.literal t] := by
  rw [segments]
  split
  · rfl
  · rename_i hfind
    simp [h] at hfind

theorem segments_eq_cons (h : Text.find? opening t = some (u, v)) (hkey : '\x7d' ∉ key)
    (hv : v = key ++ '\x7d' :: after) :
    segments t = .literal u :: .placeholder key :: segments after := by
  have hclosing : Text.find? closing v = some (key, after) := by
    rw [hv]
    exact Text.find?_singleton_append hkey after
  rw [segments]
  split
  · rename_i hfind
    simp [h] at hfind
  · rename_i lit rest hfind
    obtain ⟨rfl, rfl⟩ : u = lit ∧ v = rest := by simpa [h] using hfind
    split
    · rename_i hnone
      simp [hclosing] at hnone
    · rename_i key' after' hsome
      obtain ⟨rfl, rfl⟩ : key = key' ∧ after = after' := by simpa [hclosing] using hsome
      rfl

theorem segments_eq_unclosed (h : Text.find? opening t = some (u, v)) (hv : '\x7d' ∉ v) :
    segments t = [.literal u, .unclosed v] := by
  have hclosing : Text.find? closing v = none := Text.find?_singleton_eq_none_iff.mpr hv
  rw [segments]
  split
  · rename_i hfind
    simp [h] at hfind
  · rename_i lit rest hfind
    obtain ⟨rfl, rfl⟩ : u = lit ∧ v = rest := by simpa [h] using hfind
    split
    · rfl
    · rename_i hsome
      simp [hclosing] at hsome

/-- How a template is read: it has no placeholder, it has one and goes on behind it, or the last
one is not closed. -/
theorem segments_cases (t : Text) :
    (Text.find? opening t = none ∧ segments t = [.literal t]) ∨
    (∃ u key after, Text.find? opening t = some (u, key ++ '\x7d' :: after) ∧ '\x7d' ∉ key ∧
      segments t = .literal u :: .placeholder key :: segments after) ∨
    ∃ u v, Text.find? opening t = some (u, v) ∧ '\x7d' ∉ v ∧
      segments t = [.literal u, .unclosed v] := by
  cases hfind : Text.find? opening t with
  | none => exact .inl ⟨rfl, segments_eq_of_find?_eq_none hfind⟩
  | some s =>
    obtain ⟨u, v⟩ := s
    by_cases hv : '\x7d' ∈ v
    · obtain ⟨key, after, rfl, hkey⟩ := List.eq_append_cons_of_mem hv
      exact .inr (.inl ⟨u, key, after, rfl, hkey, segments_eq_cons hfind hkey rfl⟩)
    · exact .inr (.inr ⟨u, v, rfl, hv, segments_eq_unclosed hfind hv⟩)

/-! ## Rendering -/

theorem find?_opening_append (h : Text.find? opening u = none) (v : Text) :
    Text.find? opening (u ++ (opening ++ v)) = some (u, v) := by
  induction u with
  | nil => rfl
  | cons c u ih =>
    obtain ⟨hdrop, hu⟩ := Text.find?_cons_eq_none_iff.mp h
    -- a start that reaches over the end of the text would need a brace in place of the dollar sign
    have hstart : Text.dropPhrase? opening (c :: (u ++ (opening ++ v))) = none := by
      cases u with
      | nil => simp [Text.dropPhrase?, opening]
      | cons d u => simpa [Text.dropPhrase?, opening] using hdrop
    rw [List.cons_append, Text.find?, hstart, ih hu]
    rfl

theorem render_eq_of_find?_eq_none (h : Text.find? opening t = none) : render t values = t := by
  simp [render, segments_eq_of_find?_eq_none h, Segment.render]

theorem render_eq_append (h : Text.find? opening t = some (u, key ++ '\x7d' :: after))
    (hkey : '\x7d' ∉ key) :
    render t values = u ++ ((values.lookup key).getD [] ++ render after values) := by
  simp [render, segments_eq_cons h hkey rfl, Segment.render]

/-- A placeholder at the start of a template is replaced by the value of its key. -/
theorem render_placeholder_append (hkey : '\x7d' ∉ key) (after : Text) :
    render (placeholder key ++ after) values =
      (values.lookup key).getD [] ++ render after values := by
  have hfind := find?_opening_append (u := []) rfl (key ++ '\x7d' :: after)
  have htext : placeholder key ++ after = [] ++ (opening ++ (key ++ '\x7d' :: after)) := by
    simp [placeholder, closing]
  rw [htext, render_eq_append hfind hkey, List.nil_append]

/-- The text in front of the first start of a placeholder is kept. -/
theorem render_append_opening (h : Text.find? opening u = none) (v : Text) :
    render (u ++ (opening ++ v)) values = u ++ render (opening ++ v) values := by
  have hfind := find?_opening_append h v
  have hstart := find?_opening_append (u := []) rfl v
  rw [List.nil_append] at hstart
  by_cases hv : '\x7d' ∈ v
  · obtain ⟨key, after, rfl, hkey⟩ := List.eq_append_cons_of_mem hv
    rw [render_eq_append hfind hkey, render_eq_append hstart hkey, List.nil_append]
  · simp [render, segments_eq_unclosed hfind hv, segments_eq_unclosed hstart hv, Segment.render]

/-- **Rendering goes on behind a text in which nothing is open.** -/
theorem render_append_of_closed (h : Closed before) (after : Text) :
    render (before ++ (opening ++ after)) values =
      render before values ++ render (opening ++ after) values := by
  induction hn : before.length using Nat.strongRecOn generalizing before with
  | ind n ih =>
    rcases segments_cases before with ⟨hfind, -⟩ | ⟨u, key, rest, hfind, hkey, -⟩ | ⟨u, v, hfind, hv, -⟩
    · rw [render_append_opening hfind, render_eq_of_find?_eq_none hfind]
    · have htext : before = u ++ opening ++ key ++ '\x7d' :: rest := by
        simpa using Text.eq_append_of_find? hfind
      have hrest : Closed rest := by
        refine Closed.of_append (u := u ++ opening ++ key ++ ['\x7d']) ?_
        simpa [htext] using h
      have hlength : rest.length < n := by
        rw [← hn, htext]
        simp
        omega
      have hlong := Text.find?_append_of_find? hfind (opening ++ after)
      rw [List.append_assoc, List.cons_append] at hlong
      rw [render_eq_append hlong hkey, render_eq_append hfind hkey, ih _ hlength hrest rfl]
      simp
    · refine absurd (h u v ?_) hv
      simpa using Text.eq_append_of_find? hfind

/-! ## The keys that are read -/

/-- **A key that is read** is that of a placeholder behind a text in which nothing is open. -/
theorem exists_of_placeholder_mem (h : .placeholder key ∈ segments t) :
    ∃ before after, t = before ++ (placeholder key ++ after) ∧ Closed before := by
  induction hn : t.length using Nat.strongRecOn generalizing t with
  | ind n ih =>
    rcases segments_cases t with ⟨-, hsegments⟩ | ⟨u, key', rest, hfind, hkey, hsegments⟩ |
      ⟨u, v, -, -, hsegments⟩
    · simp [hsegments] at h
    · have htext : t = u ++ (placeholder key' ++ rest) := by
        simpa [placeholder, closing] using Text.eq_append_of_find? hfind
      rw [hsegments, List.mem_cons, List.mem_cons] at h
      rcases h with h | h | h
      · cases h
      · cases h
        have hu := Text.find?_eq_none_of_find? hfind (by simp [opening])
        exact ⟨u, rest, htext, closed_of_find?_eq_none hu⟩
      · have hlength : rest.length < n := by
          rw [← hn, htext]
          simp [placeholder, opening]
          omega
        obtain ⟨before, after, rfl, hbefore⟩ := ih _ hlength h rfl
        refine ⟨u ++ opening ++ key' ++ '\x7d' :: before, after, ?_, hbefore.append _⟩
        simp [htext, placeholder, closing]
    · simp [hsegments] at h

/-- A value whose key is not read changes nothing. -/
theorem render_cons_of_not_mem {value : Text} (h : .placeholder key ∉ segments t) :
    render t ((key, value) :: values) = render t values := by
  have hsegment : ∀ s ∈ segments t, s.render ((key, value) :: values) = s.render values := by
    rintro (_ | key' | _) hs
    · rfl
    · have hne : key' ≠ key := by
        rintro rfl
        exact h hs
      simp [Segment.render, List.lookup_cons, beq_eq_false_iff_ne.mpr hne]
    · rfl
  rw [render, render, List.flatMap_def, List.flatMap_def, List.map_congr_left hsegment]

end Snippet.Template
