import Snippet.Pattern.Build
import Snippet.Pattern.Regex

/-!
# The language of a regular expression

The texts that an expression reads, when word boundaries and the end of the text are passed over
(`Regex.Reads`). Every outcome of an expression reads a text of its language from the place where it
began, and every group that it records has read a text of the language of its body
(`Regex.exists_advance`).
-/

namespace Snippet.Regex

/-- The texts that an expression reads. Word boundaries and ends of the text read nothing. -/
inductive Reads : Regex → Text → Prop where
  | empty : Reads empty []
  | one {p : Char → Bool} {x : Char} : p x → Reads (one p) [x]
  | seq {r s : Regex} {u v : Text} : Reads r u → Reads s v → Reads (seq r s) (u ++ v)
  | left {r s : Regex} {u : Text} : Reads r u → Reads (alt r s) u
  | right {r s : Regex} {u : Text} : Reads s u → Reads (alt r s) u
  | stop {greedy : Bool} {r : Regex} : Reads (star greedy r) []
  | round {greedy : Bool} {r : Regex} {u v : Text} : u ≠ [] → Reads r u → Reads (star greedy r) v →
      Reads (star greedy r) (u ++ v)
  | group {index : Nat} {r : Regex} {u : Text} : Reads r u → Reads (group index r) u
  | wordBoundary : Reads wordBoundary []
  | textEnd : Reads textEnd []

/-- The groups of an expression with their bodies. -/
def bodies : Regex → List (Nat × Regex)
  | empty | one _ | wordBoundary | textEnd => []
  | seq r s | alt r s => r.bodies ++ s.bodies
  | star _ r => r.bodies
  | group index r => (index, r) :: r.bodies

/-! ## The languages of the constructors -/

variable {r s : Regex} {u v : Text}

theorem reads_empty_iff : Reads empty u ↔ u = [] :=
  ⟨fun h => by cases h; rfl, fun h => h ▸ .empty⟩

theorem reads_one_iff {p : Char → Bool} : Reads (one p) u ↔ ∃ x, u = [x] ∧ p x := by
  constructor
  · rintro ⟨⟩
    exact ⟨_, rfl, ‹_›⟩
  · rintro ⟨x, rfl, hx⟩
    exact .one hx

theorem reads_seq_iff : Reads (seq r s) u ↔ ∃ a b, u = a ++ b ∧ Reads r a ∧ Reads s b := by
  constructor
  · rintro ⟨⟩
    exact ⟨_, _, rfl, ‹_›, ‹_›⟩
  · rintro ⟨a, b, rfl, ha, hb⟩
    exact .seq ha hb

theorem reads_alt_iff : Reads (alt r s) u ↔ Reads r u ∨ Reads s u := by
  constructor
  · rintro (_ | _ | _ | h | h)
    · exact .inl h
    · exact .inr h
  · rintro (h | h)
    · exact .left h
    · exact .right h

theorem reads_group_iff {index : Nat} : Reads (group index r) u ↔ Reads r u := by
  constructor
  · rintro ⟨⟩
    assumption
  · exact .group

/-- A repetition of a class of characters. -/
theorem reads_star_one_iff {greedy : Bool} {p : Char → Bool} :
    Reads (star greedy (one p)) u ↔ ∀ x ∈ u, p x := by
  constructor
  · intro h
    generalize hr : star greedy (one p) = r at h
    induction h with
    | stop => simp
    | round _ ha _ _ ihb =>
      cases hr
      obtain ⟨x, rfl, hx⟩ := reads_one_iff.mp ha
      simpa [hx] using ihb rfl
    | _ => cases hr
  · intro h
    induction u with
    | nil => exact .stop
    | cons x u ih =>
      have hx := h x (List.mem_cons_self ..)
      have hu := ih fun y hy => h y (List.mem_cons_of_mem _ hy)
      exact .round (List.cons_ne_nil x []) (.one hx) hu

theorem reads_many1_one_iff {p : Char → Bool} :
    Reads (many1 (one p)) u ↔ u ≠ [] ∧ ∀ x ∈ u, p x := by
  rw [many1, many, reads_seq_iff]
  constructor
  · rintro ⟨a, b, rfl, ha, hb⟩
    obtain ⟨x, rfl, hx⟩ := reads_one_iff.mp ha
    refine ⟨List.cons_ne_nil x b, ?_⟩
    simpa [hx] using reads_star_one_iff.mp hb
  · rintro ⟨hne, hu⟩
    obtain ⟨x, b, rfl⟩ := List.exists_cons_of_ne_nil hne
    rw [List.forall_mem_cons] at hu
    exact ⟨[x], b, rfl, .one hu.1, reads_star_one_iff.mpr hu.2⟩

/-! ## The characters of a language -/

variable {p : Char → Prop}

/-- All characters that are read satisfy `p`. -/
def Over (p : Char → Prop) : Regex → Prop
  | empty | wordBoundary | textEnd => True
  | one q => ∀ x, q x → p x
  | seq r s | alt r s => r.Over p ∧ s.Over p
  | star _ r | group _ r => r.Over p

/-- In every text that is read there is a character that satisfies `p`. -/
def Needs (p : Char → Prop) : Regex → Prop
  | empty | wordBoundary | textEnd | star _ _ => False
  | one q => ∀ x, q x → p x
  | seq r s => r.Needs p ∨ s.Needs p
  | alt r s => r.Needs p ∧ s.Needs p
  | group _ r => r.Needs p

/-- Nothing is read. -/
def isSilent : Regex → Bool
  | empty | wordBoundary | textEnd => true
  | one _ | star _ _ => false
  | seq r s | alt r s => r.isSilent && s.isSilent
  | group _ r => r.isSilent

/-- The first character that is read satisfies `p`, and there is one. -/
def Starts (p : Char → Prop) : Regex → Prop
  | empty | wordBoundary | textEnd | star _ _ => False
  | one q => ∀ x, q x → p x
  | seq r s => r.Starts p ∨ (r.isSilent ∧ s.Starts p)
  | alt r s => r.Starts p ∧ s.Starts p
  | group _ r => r.Starts p

/-- What is read has a character that satisfies `q` behind characters that satisfy `p`. -/
def Leads (p q : Char → Prop) : Regex → Prop
  | empty | wordBoundary | textEnd | star _ _ => False
  | one s => ∀ x, s x → q x
  | seq r s => r.Leads p q ∨ (r.Over p ∧ s.Leads p q)
  | alt r s => r.Leads p q ∧ s.Leads p q
  | group _ r => r.Leads p q

theorem Over.mono {q : Char → Prop} (h : r.Over p) (hpq : ∀ x, p x → q x) : r.Over q := by
  induction r with
  | one _ => exact fun x hx => hpq x (h x hx)
  | seq _ _ ihr ihs => exact ⟨ihr h.1, ihs h.2⟩
  | alt _ _ ihr ihs => exact ⟨ihr h.1, ihs h.2⟩
  | star _ _ ih => exact ih h
  | group _ _ ih => exact ih h
  | _ => trivial

theorem Reads.forall_mem (h : r.Reads u) (hr : r.Over p) : ∀ x ∈ u, p x := by
  induction h with
  | one hx => simpa using hr _ hx
  | seq _ _ ihr ihs =>
    intro x hx
    rcases List.mem_append.mp hx with hx | hx
    · exact ihr hr.1 x hx
    · exact ihs hr.2 x hx
  | left _ ih => exact ih hr.1
  | right _ ih => exact ih hr.2
  | round _ _ _ iha ihb =>
    intro x hx
    rcases List.mem_append.mp hx with hx | hx
    · exact iha hr x hx
    · exact ihb hr x hx
  | group _ ih => exact ih hr
  | _ => simp

theorem Reads.exists_mem (h : r.Reads u) (hr : r.Needs p) : ∃ x ∈ u, p x := by
  induction h with
  | one hx => exact ⟨_, List.mem_singleton.mpr rfl, hr _ hx⟩
  | seq _ _ ihr ihs =>
    rcases hr with hr | hs
    · obtain ⟨x, hx, hp⟩ := ihr hr
      exact ⟨x, List.mem_append_left _ hx, hp⟩
    · obtain ⟨x, hx, hp⟩ := ihs hs
      exact ⟨x, List.mem_append_right _ hx, hp⟩
  | left _ ih => exact ih hr.1
  | right _ ih => exact ih hr.2
  | group _ ih => exact ih hr
  | _ => exact hr.elim

theorem Reads.eq_nil (h : r.Reads u) (hr : r.isSilent) : u = [] := by
  induction h with
  | seq _ _ ihr ihs =>
    rw [isSilent, Bool.and_eq_true] at hr
    rw [ihr hr.1, ihs hr.2, List.append_nil]
  | left _ ih => exact ih (Bool.and_eq_true .. ▸ hr).1
  | right _ ih => exact ih (Bool.and_eq_true .. ▸ hr).2
  | group _ ih => exact ih hr
  | one => cases hr
  | round => cases hr
  | _ => rfl

theorem Reads.exists_cons (h : r.Reads u) (hr : r.Starts p) : ∃ x v, u = x :: v ∧ p x := by
  induction h with
  | one hx => exact ⟨_, [], rfl, hr _ hx⟩
  | @seq r s a b ha _ ihr ihs =>
    rcases hr with hr | ⟨hsilent, hs⟩
    · obtain ⟨x, v, rfl, hp⟩ := ihr hr
      exact ⟨x, v ++ b, rfl, hp⟩
    · obtain rfl := ha.eq_nil hsilent
      exact ihs hs
  | left _ ih => exact ih hr.1
  | right _ ih => exact ih hr.2
  | group _ ih => exact ih hr
  | _ => exact hr.elim

theorem Reads.exists_append_cons {q : Char → Prop} (h : r.Reads u) (hr : r.Leads p q) :
    ∃ a x b, u = a ++ x :: b ∧ (∀ y ∈ a, p y) ∧ q x := by
  induction h with
  | one hx => exact ⟨[], _, [], rfl, by simp, hr _ hx⟩
  | @seq r s a b ha _ ihr ihs =>
    rcases hr with hr | ⟨hover, hs⟩
    · obtain ⟨c, x, d, rfl, hc, hx⟩ := ihr hr
      exact ⟨c, x, d ++ b, by simp, hc, hx⟩
    · obtain ⟨c, x, d, rfl, hc, hx⟩ := ihs hs
      refine ⟨a ++ c, x, d, by simp, fun y hy => ?_, hx⟩
      exact (List.mem_append.mp hy).elim (ha.forall_mem hover y) (hc y)
  | left _ ih => exact ih hr.1
  | right _ ih => exact ih hr.2
  | group _ ih => exact ih hr
  | _ => exact hr.elim

/-! ## Sequences, choices and words -/

@[simp] theorem over_all_iff {rs : List Regex} : (all rs).Over p ↔ ∀ r ∈ rs, r.Over p := by
  induction rs with
  | nil => simp [all, Over]
  | cons r rs ih =>
    cases rs with
    | nil => simp [all]
    | cons s rs =>
      have hcons : (all (r :: s :: rs)).Over p ↔ r.Over p ∧ (all (s :: rs)).Over p := Iff.rfl
      rw [hcons, ih]
      simp

@[simp] theorem needs_all_iff {rs : List Regex} : (all rs).Needs p ↔ ∃ r ∈ rs, r.Needs p := by
  induction rs with
  | nil => simp [all, Needs]
  | cons r rs ih =>
    cases rs with
    | nil => simp [all]
    | cons s rs =>
      have hcons : (all (r :: s :: rs)).Needs p ↔ r.Needs p ∨ (all (s :: rs)).Needs p := Iff.rfl
      rw [hcons, ih]
      simp

@[simp] theorem needs_anyOf_iff {rs : List Regex} : (anyOf rs).Needs p ↔ ∀ r ∈ rs, r.Needs p := by
  induction rs with
  | nil => simp [anyOf, Needs]
  | cons r rs ih =>
    cases rs with
    | nil => simp [anyOf]
    | cons s rs =>
      have hcons : (anyOf (r :: s :: rs)).Needs p ↔ r.Needs p ∧ (anyOf (s :: rs)).Needs p := Iff.rfl
      rw [hcons, ih]
      simp

theorem starts_anyOf {rs : List Regex} (h : ∀ r ∈ rs, r.Starts p) : (anyOf rs).Starts p := by
  induction rs with
  | nil => simp [anyOf, Starts]
  | cons r rs ih =>
    rw [List.forall_mem_cons] at h
    cases rs with
    | nil => exact h.1
    | cons s rs => exact ⟨h.1, ih h.2⟩

theorem over_times (h : r.Over p) (n : Nat) : (times r n).Over p := by
  rw [times, over_all_iff]
  intro s hs
  rwa [List.eq_of_mem_replicate hs]

theorem over_upTo (h : r.Over p) (n : Nat) : (upTo r n).Over p := by
  induction n with
  | zero => trivial
  | succ n ih => exact ⟨⟨h, ih⟩, trivial⟩

/-- The characters that a letter up to case reads. -/
def letterForms (c : Char) : Text :=
  c :: c.toUpper :: ((if c == 's' then ['ſ'] else []) ++ if c == 'k' then ['\u212a'] else [])

theorem mem_letterForms_iff {c x : Char} :
    x ∈ letterForms c ↔
      (x == c || x == c.toUpper || (c == 's' && x == 'ſ') || (c == 'k' && x == '\u212a')) := by
  rw [letterForms]
  split <;> split <;> simp_all [or_assoc]

@[simp] theorem over_letter_iff {c : Char} : (letter c).Over p ↔ ∀ x ∈ letterForms c, p x := by
  simp only [mem_letterForms_iff]
  rfl

@[simp] theorem needs_letter_iff {c : Char} : (letter c).Needs p ↔ ∀ x ∈ letterForms c, p x := by
  simp only [mem_letterForms_iff]
  rfl

/-- All forms of the letters of a word are in a class. The check runs over these forms, where one of
the statement would run over all characters. -/
theorem over_word_iff [DecidablePred p] {w : String} :
    (word w).Over p ↔ w.toList.all fun c => (letterForms c).all fun x => decide (p x) := by
  rw [word, over_all_iff, List.forall_mem_map]
  simp only [over_letter_iff, List.all_eq_true, decide_eq_true_iff]

/-- A letter of a word has all its forms in a class. -/
theorem needs_word_iff [DecidablePred p] {w : String} :
    (word w).Needs p ↔ w.toList.any fun c => (letterForms c).all fun x => decide (p x) := by
  rw [word, needs_all_iff]
  simp only [List.any_eq_true, List.all_eq_true, decide_eq_true_iff]
  constructor
  · rintro ⟨r, hr, h⟩
    obtain ⟨c, hc, rfl⟩ := List.mem_map.mp hr
    exact ⟨c, hc, needs_letter_iff.mp h⟩
  · rintro ⟨c, hc, h⟩
    exact ⟨letter c, List.mem_map_of_mem hc, needs_letter_iff.mpr h⟩

/-! ## Outcomes read the language -/

/-- From one cursor to another an expression reads a text, with what it records on the way. -/
structure Advance (r : Regex) (c d : Cursor) (u : Text) : Prop where
  reads : r.Reads u
  rest_eq : c.rest = u ++ d.rest
  pos_eq : d.pos = c.pos + u.length
  origin_eq : d.origin = c.origin
  opened_eq : d.opened = c.opened
  /-- A group that was recorded has read a text of its body. -/
  groups_eq : ∃ gs, d.groups = gs ++ c.groups ∧ ∀ g ∈ gs, ∃ body, (g.1, body) ∈ r.bodies ∧
    ∃ x y z, u = x ++ (y ++ z) ∧ body.Reads y ∧
      g.2 = ⟨c.pos + x.length, c.pos + x.length + y.length⟩

namespace Advance

variable {c d e : Cursor}

/-- A step that reads nothing and records nothing. -/
theorem refl (h : r.Reads []) : Advance r c c [] where
  reads := h
  rest_eq := rfl
  pos_eq := rfl
  origin_eq := rfl
  opened_eq := rfl
  groups_eq := ⟨[], rfl, by simp⟩

/-- Two advances in sequence, where the groups of both are those of an expression. -/
theorem trans {t : Regex} (hr : Advance r c d u) (hs : Advance s d e v) (ht : t.Reads (u ++ v))
    (hbr : ∀ g ∈ r.bodies, g ∈ t.bodies) (hbs : ∀ g ∈ s.bodies, g ∈ t.bodies) :
    Advance t c e (u ++ v) where
  reads := ht
  rest_eq := by rw [hr.rest_eq, hs.rest_eq, List.append_assoc]
  pos_eq := by rw [hs.pos_eq, hr.pos_eq, List.length_append, Nat.add_assoc]
  origin_eq := hs.origin_eq.trans hr.origin_eq
  opened_eq := hs.opened_eq.trans hr.opened_eq
  groups_eq := by
    obtain ⟨gs, hgs, hrecorded⟩ := hr.groups_eq
    obtain ⟨gs', hgs', hrecorded'⟩ := hs.groups_eq
    refine ⟨gs' ++ gs, by rw [hgs', hgs, List.append_assoc], ?_⟩
    intro g hg
    rcases List.mem_append.mp hg with hg | hg
    · obtain ⟨body, hbody, x, y, z, rfl, hy, hspan⟩ := hrecorded' g hg
      refine ⟨body, hbs _ hbody, u ++ x, y, z, by simp, hy, ?_⟩
      rw [hspan, hr.pos_eq, List.length_append, Nat.add_assoc]
    · obtain ⟨body, hbody, x, y, z, rfl, hy, hspan⟩ := hrecorded g hg
      exact ⟨body, hbr _ hbody, x, y, z ++ v, by simp, hy, hspan⟩

/-- The same advance, seen as one of an expression with more texts and groups. -/
theorem weaken {t : Regex} (h : Advance r c d u) (ht : t.Reads u)
    (hb : ∀ g ∈ r.bodies, g ∈ t.bodies) : Advance t c d u where
  reads := ht
  rest_eq := h.rest_eq
  pos_eq := h.pos_eq
  origin_eq := h.origin_eq
  opened_eq := h.opened_eq
  groups_eq := by
    obtain ⟨gs, hgs, hrecorded⟩ := h.groups_eq
    refine ⟨gs, hgs, fun g hg => ?_⟩
    obtain ⟨body, hbody, hread⟩ := hrecorded g hg
    exact ⟨body, hb _ hbody, hread⟩

/-- A group records what its body has read. -/
theorem closeGroup {index : Nat} (h : Advance r c.openGroup d u) :
    Advance (group index r) c (d.closeGroup index) u := by
  have hopened : d.opened = c.pos :: c.opened := h.opened_eq
  have hclose : d.closeGroup index =
      { d with opened := c.opened, groups := (index, ⟨c.pos, d.pos⟩) :: d.groups } := by
    unfold Cursor.closeGroup
    split
    · rename_i hnil
      rw [hopened] at hnil
      cases hnil
    · rename_i hcons
      rw [hopened] at hcons
      cases hcons
      rfl
  have hpos : d.pos = c.pos + u.length := h.pos_eq
  rw [hclose]
  refine ⟨.group h.reads, h.rest_eq, hpos, h.origin_eq, rfl, ?_⟩
  obtain ⟨gs, hgs, hrecorded⟩ := h.groups_eq
  refine ⟨(index, ⟨c.pos, d.pos⟩) :: gs, ?_, ?_⟩
  · rw [hgs]
    rfl
  · intro g hg
    rcases List.mem_cons.mp hg with rfl | hg
    · exact ⟨r, List.mem_cons_self .., [], u, [], by simp, h.reads, by simp [hpos]⟩
    · obtain ⟨body, hbody, hread⟩ := hrecorded g hg
      exact ⟨body, List.mem_cons_of_mem _ hbody, hread⟩

end Advance

/-- A repetition ends where it begins, or goes on behind a round that has read something. -/
theorem mem_outcomes_star_iff {greedy : Bool} {c d : Cursor} :
    d ∈ (star greedy r).outcomes c ↔ d = c ∨ ∃ e ∈ r.outcomes c,
      e.rest.length < c.rest.length ∧ d ∈ (star greedy r).outcomes e := by
  have hmore : (d ∈ (r.outcomes c).flatMap fun e =>
      if e.rest.length < c.rest.length then (star greedy r).outcomes e else []) ↔
      ∃ e ∈ r.outcomes c, e.rest.length < c.rest.length ∧ d ∈ (star greedy r).outcomes e := by
    simp only [List.mem_flatMap, List.mem_ite_nil_right]
  rw [outcomes_star]
  cases greedy with
  | true => simp only [if_true, List.mem_append, List.mem_singleton, hmore, or_comm]
  | false => simp only [Bool.false_eq_true, if_false, List.mem_cons, hmore]

/-- The outcomes of a repetition are advances if those of its body are. -/
theorem exists_advance_star {greedy : Bool}
    (ih : ∀ {c d : Cursor}, d ∈ r.outcomes c → ∃ u, Advance r c d u) {c d : Cursor}
    (h : d ∈ (star greedy r).outcomes c) : ∃ u, Advance (star greedy r) c d u := by
  -- every round reads a character, so the induction is on what is left
  induction hn : c.rest.length using Nat.strongRecOn generalizing c with
  | _ n ihn =>
    rcases mem_outcomes_star_iff.mp h with rfl | ⟨e, he, hlt, hd⟩
    · exact ⟨[], .refl .stop⟩
    · obtain ⟨u, hu⟩ := ih he
      obtain ⟨v, hv⟩ := ihn _ (hn ▸ hlt) hd rfl
      have hne : u ≠ [] := by
        rintro rfl
        rw [hu.rest_eq] at hlt
        exact absurd hlt (Nat.lt_irrefl _)
      exact ⟨u ++ v, hu.trans hv (.round hne hu.reads hv.reads) (fun _ => id) fun _ => id⟩

/-- **Every outcome has read a text of the language, and so has every group that it records.** -/
theorem exists_advance {c d : Cursor} (h : d ∈ r.outcomes c) : ∃ u, Advance r c d u := by
  induction r generalizing c d with
  | empty =>
    obtain rfl := List.mem_singleton.mp h
    exact ⟨[], .refl .empty⟩
  | one p =>
    rw [outcomes] at h
    split at h
    · cases h
    · rename_i x rest hrest
      split at h
      · obtain rfl := List.mem_singleton.mp h
        exact ⟨[x], .one ‹_›, hrest, rfl, rfl, rfl, [], rfl, by simp⟩
      · cases h
  | seq r s ihr ihs =>
    rw [outcomes, List.mem_flatMap] at h
    obtain ⟨e, he, hd⟩ := h
    obtain ⟨u, hu⟩ := ihr he
    obtain ⟨v, hv⟩ := ihs hd
    exact ⟨u ++ v, hu.trans hv (.seq hu.reads hv.reads) (fun _ => List.mem_append_left _)
      fun _ => List.mem_append_right _⟩
  | alt r s ihr ihs =>
    rw [outcomes, List.mem_append] at h
    rcases h with h | h
    · obtain ⟨u, hu⟩ := ihr h
      exact ⟨u, hu.weaken (.left hu.reads) fun _ => List.mem_append_left _⟩
    · obtain ⟨u, hu⟩ := ihs h
      exact ⟨u, hu.weaken (.right hu.reads) fun _ => List.mem_append_right _⟩
  | star greedy r ih => exact exists_advance_star ih h
  | group index r ih =>
    rw [outcomes, List.mem_map] at h
    obtain ⟨e, he, rfl⟩ := h
    obtain ⟨u, hu⟩ := ih he
    exact ⟨u, hu.closeGroup⟩
  | wordBoundary =>
    rw [outcomes] at h
    split at h
    · obtain rfl := List.mem_singleton.mp h
      exact ⟨[], .refl .wordBoundary⟩
    · cases h
  | textEnd =>
    rw [outcomes] at h
    split at h
    · obtain rfl := List.mem_singleton.mp h
      exact ⟨[], .refl .textEnd⟩
    · cases h

end Snippet.Regex
