import Snippet.Proofs.Calendar.TokenItems
import Snippet.Proofs.Pattern.Leftmost

/-!
# Which tokens are kept

The candidates are sorted, and each one that starts before the end of the last one kept is dropped
(`dropOverlaps_eq_cons`). A written date that no other match reaches into is a candidate
(`mem_candidates`), and of two written dates with a joiner between them both are kept, before all
others (`exists_all_eq`).
-/

namespace Snippet

open Regex Pattern Date

namespace DateToken

variable {stop : Nat} {tokens : List DateToken} {token : DateToken} {s t u v w a b : Text}

/-! ## The order of the candidates -/

theorem comesFirst_iff (x y : DateToken) : x.comesFirst y ↔
    x.span.start < y.span.start ∨ x.span.start = y.span.start ∧ y.span.stop ≤ x.span.stop := by
  simp [comesFirst]

theorem comesFirst_trans (x y z : DateToken) (hxy : x.comesFirst y) (hyz : y.comesFirst z) :
    x.comesFirst z := by
  rw [comesFirst_iff] at *
  omega

theorem comesFirst_total (x y : DateToken) : x.comesFirst y || y.comesFirst x := by
  rw [Bool.or_eq_true, comesFirst_iff, comesFirst_iff]
  omega

/-- **Among sorted tokens the first one that starts at a place or later is kept, and then the search
goes on behind it.** -/
theorem dropOverlaps_eq_cons (stop : Nat) (hsorted : tokens.Pairwise (comesFirst · ·))
    (hspan : ∀ x ∈ tokens, x.span = token.span → x = token) (hmem : token ∈ tokens)
    (hstart : stop ≤ token.span.start)
    (hfirst : ∀ x ∈ tokens, stop ≤ x.span.start → token.comesFirst x) :
    ∃ rest, dropOverlaps stop tokens = token :: dropOverlaps token.span.stop rest ∧
      rest.Pairwise (comesFirst · ·) ∧ (∀ x ∈ rest, x ∈ tokens) ∧
      ∀ x ∈ tokens, stop ≤ x.span.start → x ≠ token → x ∈ rest := by
  induction tokens with
  | nil => cases hmem
  | cons x tokens ih =>
    rw [List.pairwise_cons] at hsorted
    rw [List.forall_mem_cons] at hspan hfirst
    by_cases hx : x.span.start < stop
    · have hne : token ≠ x := by
        rintro rfl
        omega
      obtain ⟨rest, heq, hrest, hsub, hkept⟩ := ih hsorted.2 hspan.2
        (List.mem_of_ne_of_mem hne hmem) hfirst.2
      refine ⟨rest, by rw [dropOverlaps, if_pos hx, heq], hrest,
        fun y hy => List.mem_cons_of_mem _ (hsub y hy), fun y hy hstart hne => ?_⟩
      rcases List.mem_cons.mp hy with rfl | hy
      · omega
      · exact hkept y hy hstart hne
    · -- both come first, so they are the same
      obtain rfl : x = token := by
        rcases List.mem_cons.mp hmem with rfl | hmem
        · rfl
        · refine hspan.1 ?_
          have hxt := (comesFirst_iff _ _).mp (hsorted.1 token hmem)
          have htx := (comesFirst_iff _ _).mp (hfirst.1 (by omega))
          obtain ⟨⟨start, stop⟩, text⟩ := x
          obtain ⟨⟨start', stop'⟩, text'⟩ := token
          dsimp only at hxt htx ⊢
          rw [Span.mk.injEq]
          omega
      refine ⟨tokens, by rw [dropOverlaps, if_neg hx], hsorted.2,
        fun y hy => List.mem_cons_of_mem _ hy, fun y hy _ hne => List.mem_of_ne_of_mem hne hy⟩

/-- Tokens that are kept stand behind one another. -/
theorem pairwise_dropOverlaps (hspan : ∀ x ∈ tokens, x.span.start ≤ x.span.stop) :
    (∀ x ∈ dropOverlaps stop tokens, stop ≤ x.span.start) ∧
      (dropOverlaps stop tokens).Pairwise (·.span.stop ≤ ·.span.start) := by
  induction tokens generalizing stop with
  | nil => exact ⟨by simp [dropOverlaps], .nil⟩
  | cons x tokens ih =>
    rw [List.forall_mem_cons] at hspan
    unfold dropOverlaps
    split
    · exact ih hspan.2
    · rename_i hstart
      obtain ⟨hbehind, hpairwise⟩ := @ih x.span.stop hspan.2
      refine ⟨?_, hpairwise.cons hbehind⟩
      rw [List.forall_mem_cons]
      refine ⟨not_lt.mp hstart, fun y hy => ?_⟩
      have hstop := hbehind y hy
      omega

/-! ## The candidates -/

/-- The token stands where a pattern has a match, and has its start. -/
structure Within (t : Text) (token : DateToken) (a u b : Text) : Prop where
  eq_append : t = a ++ (u ++ b)
  reads : ∃ p ∈ [dateTokenIso, dateToken, dateTokenText], p.regex.Reads u
  start_eq : token.span.start = a.length
  start_lt : token.span.start < token.span.stop
  stop_le : token.span.stop ≤ a.length + u.length
  text_eq : token.text = token.span.of t

theorem isEdgePunctuation_eq_false {c : Char} (h : Text.isDigit c ∨ Text.isForm c) :
    isEdgePunctuation c = false :=
  h.elim isEdgePunctuation_eq_false_of_isDigit fun h => isEdgePunctuation_eq_false_of h (by decide)

theorem isEdgePunctuation_eq_false_of_isAlphanum {c : Char} (h : c.isAlphanum) :
    isEdgePunctuation c = false :=
  isEdgePunctuation_eq_false_of h (by decide)

/-- A candidate is a match without the punctuation at its end. -/
theorem exists_trims (h : token ∈ candidates t) :
    ∃ a v b, t = a ++ (token.text ++ (v ++ b)) ∧ token.text ≠ [] ∧
      (∃ p ∈ [dateTokenIso, dateToken, dateTokenText], p.regex.Reads (token.text ++ v)) ∧
      (∀ c ∈ v, isEdgePunctuation c) ∧ token.span = ⟨a.length, a.length + token.text.length⟩ := by
  obtain ⟨p, hp, h⟩ := List.mem_flatMap.mp h
  obtain ⟨m, hm, h⟩ := List.mem_filterMap.mp h
  obtain ⟨a, u, b, rfl, hoccurs⟩ := occurrence_of_mem_findAll hm
  have hitems := items_of_reads hp hoccurs.reads
  have htrimmed : u.dropWhile isEdgePunctuation = u := by
    obtain ⟨c, v, rfl, hc⟩ := hitems.1.exists_cons
    rw [List.dropWhile_cons_of_neg]
    simp [isEdgePunctuation_eq_false hc]
  obtain ⟨w, hw, hedge⟩ : ∃ w, u = Text.dropWhileEnd isEdgePunctuation u ++ w ∧
      ∀ c ∈ w, isEdgePunctuation c := by
    refine ⟨_, (Text.dropWhileEnd_append_takeWhileEnd isEdgePunctuation u).symm, fun c hc => ?_⟩
    rw [Text.takeWhileEnd, List.mem_reverse] at hc
    exact List.all_eq_true.mp List.all_takeWhile c hc
  simp only [ofMatch?, hoccurs.text_eq, htrimmed, hoccurs.span_eq, Nat.sub_self, Nat.add_zero] at h
  generalize Text.dropWhileEnd isEdgePunctuation u = v at h hw
  subst hw
  split at h
  · cases h
  · rename_i hif
    obtain rfl := Option.some.inj h
    rw [Bool.or_eq_true, not_or, Bool.not_eq_true, List.isEmpty_eq_false_iff] at hif
    exact ⟨a, w, b, by rw [List.append_assoc], hif.1, ⟨p, hp, hoccurs.reads⟩, hedge, rfl⟩

/-- A candidate has the start of a match. -/
theorem exists_within (h : token ∈ candidates t) : ∃ a u b, Within t token a u b := by
  obtain ⟨a, v, b, heq, hne, hreads, -, hspan⟩ := exists_trims h
  have hpos := List.length_pos_iff.mpr hne
  refine ⟨a, token.text ++ v, b, by rw [heq, List.append_assoc], hreads, ?_, ?_, ?_, ?_⟩
  · rw [hspan]
  · rw [hspan]
    dsimp only
    omega
  · rw [hspan, List.length_append]
    dsimp only
    omega
  · rw [hspan, heq, Span.of_append]

theorem start_lt_of_mem_candidates (h : token ∈ candidates t) :
    token.span.start < token.span.stop := by
  obtain ⟨a, u, b, hwithin⟩ := exists_within h
  exact hwithin.start_lt

/-- The tokens of a text are taken from its candidates in their order. -/
theorem exists_all_eq_dropOverlaps (t : Text) : ∃ tokens, all t = dropOverlaps 0 tokens ∧
    tokens.Pairwise (comesFirst · ·) ∧ ∀ x, x ∈ tokens ↔ x ∈ candidates t :=
  ⟨_, rfl, List.pairwise_mergeSort comesFirst_trans comesFirst_total _,
    fun _ => List.mem_mergeSort⟩

/-- **The tokens of a text stand behind one another.** -/
theorem pairwise_all (t : Text) : (all t).Pairwise (·.span.stop ≤ ·.span.start) := by
  obtain ⟨tokens, hall, -, hmem⟩ := exists_all_eq_dropOverlaps t
  rw [hall]
  exact (pairwise_dropOverlaps fun x hx => (start_lt_of_mem_candidates ((hmem x).mp hx)).le).2

/-- The first token starts where the first of the candidates does. -/
theorem start_head?_all (hmem : token ∈ candidates t)
    (hle : ∀ x ∈ candidates t, token.span.start ≤ x.span.start) :
    (all t).head?.map (·.span.start) = some token.span.start := by
  obtain ⟨tokens, hall, hsorted, htokens⟩ := exists_all_eq_dropOverlaps t
  simp only [← htokens] at hmem hle
  rw [hall]
  cases tokens with
  | nil => cases hmem
  | cons x tokens =>
    rw [dropOverlaps, if_neg (Nat.not_lt_zero _), List.head?_cons, Option.map_some, Option.some_inj]
    refine Nat.le_antisymm ?_ (hle x (List.mem_cons_self ..))
    rcases List.mem_cons.mp hmem with rfl | hmem
    · exact Nat.le_refl _
    · have hfirst := (comesFirst_iff _ _).mp ((List.pairwise_cons.mp hsorted).1 _ hmem)
      omega

/-- A match of a written date that is not glued to a number is a token as it stands. -/
theorem ofMatch?_of_written {d : Date} (hs : Written d s) (hyear : 0 ≤ d.year ∧ d.year ≤ 9999)
    (hnumber : joinsNumber a.reverse = false) (hnumber' : joinsNumber b = false) {m : Match}
    (hm : m.span = ⟨a.length, a.length + s.length⟩) :
    ofMatch? (a ++ (s ++ b)) m = some ⟨⟨a.length, a.length + s.length⟩, s⟩ := by
  have htext : m.text (a ++ (s ++ b)) = s := by rw [Match.text, hm, Span.of_append]
  have hstart : s.dropWhile isEdgePunctuation = s := by
    obtain ⟨x, v, rfl, hx⟩ := hs.starts hyear
    rw [List.dropWhile_cons_of_neg]
    simp [isEdgePunctuation_eq_false_of_isAlphanum hx]
  have hend : Text.dropWhileEnd isEdgePunctuation s = s := by
    obtain ⟨v, x, rfl, hx⟩ := hs.ends hyear
    rw [Text.dropWhileEnd, List.reverse_concat, List.dropWhile_cons_of_neg]
    · simp
    · simp [isEdgePunctuation_eq_false_of_isAlphanum (Text.isAlphanum_of_isDigit hx)]
  have hne : s.isEmpty = false := by
    obtain ⟨x, v, rfl, -⟩ := hs.starts hyear
    rfl
  have hinside : isInsideNumber (a ++ (s ++ b)) ⟨a.length, a.length + s.length⟩ = false := by
    rw [isInsideNumber, List.take_left, hnumber, Bool.false_or, ← List.append_assoc,
      List.drop_left' List.length_append, hnumber']
  simp only [ofMatch?, htext, hstart, hend, hm, Nat.sub_self, Nat.add_zero, hne, hinside,
    Bool.or_false, Bool.false_eq_true, if_false]

/-- A written date between other texts is a candidate, if no match that begins before it reaches
into it. -/
theorem mem_candidates {d : Date} (hs : Written d s) (hyear : 0 ≤ d.year ∧ d.year ≤ 9999)
    (ha : a.getLast?.any Text.isWord = false) (hnumber : joinsNumber a.reverse = false)
    (hb : Delimited b) (hnumber' : joinsNumber b = false)
    (hbefore : ∀ x y u c, a = x ++ y → y ≠ [] → y ++ (s ++ b) = u ++ c →
      ∀ p ∈ [dateTokenIso, dateToken, dateTokenText], p.regex.Reads u → u.length ≤ y.length) :
    ⟨⟨a.length, a.length + s.length⟩, s⟩ ∈ candidates (a ++ (s ++ b)) := by
  obtain ⟨p, hp, hprefers⟩ := hs.exists_prefers hyear
  have hread := hprefers (c := .start (.between a (s ++ b))) rfl ha hb
  have hmatch := mem_findAll_of_head? ?_ hread.head?_eq ?_
  · refine List.mem_flatMap.mpr ⟨p, hp, List.mem_filterMap.mpr ⟨_, hmatch, ?_⟩⟩
    exact ofMatch?_of_written hs hyear hnumber hnumber' rfl
  · intro hnil
    obtain ⟨c, v, hc, -⟩ := (items_of_reads hp hnil).1.exists_cons
    cases hc
  · intro x y hxy hy c hc
    obtain ⟨u, hu, -, hpos, hoccurs⟩ := Occurrence.of_mem_outcomes hc
    have hle := hbefore x y u c.rest hxy hy hu p hp hoccurs.reads
    rw [hpos, hxy, List.length_append]
    exact Nat.add_le_add_left hle _

/-- No token begins in the text, whatever follows it. -/
def BeginsNoToken (a : Text) : Prop :=
  ∀ x y u b c, a = x ++ y → y ≠ [] → y ++ b = u ++ c →
    ∀ p ∈ [dateTokenIso, dateToken, dateTokenText], ¬ p.regex.Reads u

theorem joinsNumber_blank (t : Text) : joinsNumber (' ' :: t) = false := by
  cases t <;> rfl

theorem Within.ext {x y : DateToken} {a' u' b' : Text} (hx : Within t x a u b)
    (hy : Within t y a' u' b') (h : x.span = y.span) : x = y := by
  have htext : x.text = y.text := by rw [hx.text_eq, hy.text_eq, h]
  cases x
  cases y
  simp_all

/-- **The first token is a written date where no token begins in front of it.** -/
theorem start_of_beginsNoToken {d : Date} (hs : Written d s) (hyear : 0 ≤ d.year ∧ d.year ≤ 9999)
    (ha : a.getLast?.any Text.isWord = false) (hnumber : joinsNumber a.reverse = false)
    (hb : Delimited b) (hnumber' : joinsNumber b = false) (hnone : BeginsNoToken a) :
    (all (a ++ (s ++ b))).head?.map (·.span.start) = some a.length := by
  have hmem := mem_candidates hs hyear ha hnumber hb hnumber' fun x y u c hxy hy hu p hp hread =>
    absurd hread (hnone x y u (s ++ b) c hxy hy hu p hp)
  have hle : ∀ z ∈ candidates (a ++ (s ++ b)), a.length ≤ z.span.start := by
    intro z hz
    obtain ⟨x, u, c, hwithin⟩ := exists_within hz
    obtain ⟨p, hp, hread⟩ := hwithin.reads
    rw [hwithin.start_eq]
    by_contra hlt
    rcases List.append_eq_append_iff.mp hwithin.eq_append with ⟨y, rfl, -⟩ | ⟨y, rfl, hy⟩
    · simp at hlt
    · refine hnone x y u (s ++ b) c rfl ?_ hy.symm p hp hread
      rintro rfl
      simp at hlt
  exact start_head?_all hmem hle

/-- Two candidates are the first tokens if one comes before all others, and the other before all
that start behind it. -/
theorem exists_all_eq_cons_cons {x y : DateToken} (hx : x ∈ candidates t) (hy : y ∈ candidates t)
    (hne : y ≠ x) (hxy : x.span.stop ≤ y.span.start) (hfirst : ∀ z ∈ candidates t, x.comesFirst z)
    (hsecond : ∀ z ∈ candidates t, x.span.stop ≤ z.span.start → y.comesFirst z) :
    ∃ rest, all t = x :: y :: rest := by
  obtain ⟨tokens, hall, hsorted, hmem⟩ := exists_all_eq_dropOverlaps t
  have hspan : ∀ y ∈ tokens, ∀ z ∈ tokens, z.span = y.span → z = y := by
    intro y hy z hz heq
    obtain ⟨a, u, b, hyw⟩ := exists_within ((hmem y).mp hy)
    obtain ⟨a', u', b', hzw⟩ := exists_within ((hmem z).mp hz)
    exact hzw.ext hyw heq
  have hx' := (hmem x).mpr hx
  have hy' := (hmem y).mpr hy
  obtain ⟨rest, hrest, hrestSorted, hsub, hkept⟩ := dropOverlaps_eq_cons 0 hsorted
    (hspan x hx') hx' (Nat.zero_le _) fun z hz _ => hfirst z ((hmem z).mp hz)
  obtain ⟨rest', hrest', -⟩ := dropOverlaps_eq_cons _ hrestSorted
    (fun z hz => hspan y hy' z (hsub z hz)) (hkept y hy' (Nat.zero_le _) hne) hxy
    fun z hz => hsecond z ((hmem z).mp (hsub z hz))
  exact ⟨_, hall.trans (hrest.trans (congrArg _ hrest'))⟩

/-! ## Two dates with a joiner between them -/

/-- A written date at the start of a text is a candidate. -/
theorem mem_candidates_of_start {d : Date} (hs : Written d s) (hyear : 0 ≤ d.year ∧ d.year ≤ 9999)
    (b : Text) : ⟨⟨0, s.length⟩, s⟩ ∈ candidates (s ++ ' ' :: b) := by
  have hmem := mem_candidates (a := []) (b := ' ' :: b) hs hyear rfl rfl (by simp [Delimited])
    (joinsNumber_blank _) fun x y u c h hy => absurd (List.append_eq_nil_iff.mp h.symm).2 hy
  simpa using hmem

/-- A candidate that begins before the second date ends with the first one. -/
theorem stop_le_of_joiner (hw : Joiner w)
    (hmem : token ∈ candidates (s ++ ' ' :: (w ++ ' ' :: b)))
    (hlt : token.span.start < s.length + w.length + 2) : token.span.stop ≤ s.length := by
  obtain ⟨a, u, c, hwithin⟩ := exists_within hmem
  obtain ⟨p, hp, hread⟩ := hwithin.reads
  obtain ⟨hitem, hspaced⟩ := items_of_reads hp hread
  rw [hwithin.start_eq] at hlt
  exact hwithin.stop_le.trans (length_le_of_joiner hw hitem hspaced hwithin.eq_append hlt)

/-- A candidate that begins with a date is not longer than it, if no match is. -/
theorem stop_le_of_start (hmem : token ∈ candidates (a ++ (t ++ v)))
    (htail : ∀ p ∈ [dateTokenIso, dateToken, dateTokenText], ∀ u b, p.regex.Reads u →
      t ++ v = u ++ b → u.length ≤ t.length)
    (hstart : token.span.start = a.length) : token.span.stop ≤ a.length + t.length := by
  obtain ⟨x, u, c, hwithin⟩ := exists_within hmem
  obtain ⟨p, hp, hread⟩ := hwithin.reads
  have hlength : a.length = x.length := hstart.symm.trans hwithin.start_eq
  obtain ⟨-, htv⟩ := List.append_inj hwithin.eq_append hlength
  have hle := htail p hp u c hread htv
  have hstop := hwithin.stop_le
  omega

/-- A written date behind a joiner is a candidate: a match that begins before it ends with the date
in front of the joiner. -/
theorem mem_candidates_of_joiner {e : Date} (hw : Joiner w) (ht : Written e t)
    (hyear : 0 ≤ e.year ∧ e.year ≤ 9999) (hv : Delimited v) (hnumber : joinsNumber v = false) :
    ⟨⟨s.length + w.length + 2, s.length + w.length + 2 + t.length⟩, t⟩ ∈
      candidates (s ++ ' ' :: (w ++ ' ' :: (t ++ v))) := by
  have hfront : s ++ ' ' :: (w ++ ' ' :: (t ++ v)) = (s ++ ' ' :: w ++ [' ']) ++ (t ++ v) := by simp
  have hlength : (s ++ ' ' :: w ++ [' ']).length = s.length + w.length + 2 := by
    simp only [List.length_append, List.length_cons, List.length_nil]
    omega
  have hlast : (s ++ ' ' :: w ++ [' ']).getLast?.any Text.isWord = false := by
    rw [List.getLast?_concat]
    rfl
  rw [hfront, ← hlength]
  refine mem_candidates ht hyear hlast (by simp [joinsNumber_blank]) hv hnumber ?_
  intro x y u c hxy hy hu p hp hread
  obtain ⟨hitem, hspaced⟩ := items_of_reads hp hread
  have hpos := List.length_pos_iff.mpr hy
  have hlengths := congrArg List.length hxy
  rw [hlength, List.length_append] at hlengths
  have hsplit : s ++ ' ' :: (w ++ ' ' :: (t ++ v)) = x ++ (u ++ c) := by
    rw [hfront, hxy, List.append_assoc, hu]
  have hle := length_le_of_joiner hw hitem hspaced hsplit (by omega)
  omega

/-- **Two written dates with a joiner between them are the first tokens.** -/
theorem exists_all_eq {d e : Date} (hs : Written d s) (hsyear : 0 ≤ d.year ∧ d.year ≤ 9999)
    (hw : Joiner w) (ht : Written e t) (htyear : 0 ≤ e.year ∧ e.year ≤ 9999) (hv : Delimited v)
    (hnumber : joinsNumber v = false)
    (htail : ∀ p ∈ [dateTokenIso, dateToken, dateTokenText], ∀ u b, p.regex.Reads u →
      t ++ v = u ++ b → u.length ≤ t.length) :
    ∃ i j rest, all (s ++ ' ' :: (w ++ ' ' :: (t ++ v))) = ⟨i, s⟩ :: ⟨j, t⟩ :: rest := by
  have hlength : (s ++ ' ' :: (w ++ [' '])).length = s.length + w.length + 2 := by
    simp only [List.length_append, List.length_cons, List.length_nil]
    omega
  have hbounds : ∀ z ∈ candidates (s ++ ' ' :: (w ++ ' ' :: (t ++ v))),
      (z.span.start < s.length + w.length + 2 → z.span.stop ≤ s.length) ∧
        (z.span.start = s.length + w.length + 2 →
          z.span.stop ≤ s.length + w.length + 2 + t.length) := by
    refine fun z hz => ⟨stop_le_of_joiner hw hz, fun hstart => ?_⟩
    rw [← hlength] at hstart ⊢
    exact stop_le_of_start (by simpa using hz) htail hstart
  obtain ⟨rest, hrest⟩ := exists_all_eq_cons_cons (mem_candidates_of_start hs hsyear _)
    (mem_candidates_of_joiner hw ht htyear hv hnumber) (by simp) (by dsimp only; omega)
    (fun z hz => by
      have hz := (hbounds z hz).1
      rw [comesFirst_iff]
      dsimp only
      omega)
    (fun z hz hstart => by
      have hlt := start_lt_of_mem_candidates hz
      have hz := hbounds z hz
      rw [comesFirst_iff]
      dsimp only at hstart ⊢
      omega)
  exact ⟨_, _, rest, hrest⟩

end DateToken

end Snippet
