import Snippet.Pattern.Automaton

/-!
# Running an automaton with threads

An automaton is run along a text once, with all its ways at the same time. A thread waits at a leaf;
of several threads that wait at one leaf only the first goes on, since all of them end at the same
places and the first is preferred. An end that is accepted drops the threads behind it.

The main statement: the result is the first accepted outcome in the order of preference
(`run_eq_find?`).
-/

namespace Snippet

/-- Where a run is after a branch: it waits at a leaf, or it is done. -/
structure Way (n : Nat) where
  target : Option (Fin n)
  cursor : Cursor

/-- A run that waits at a leaf. -/
structure Thread (n : Nat) where
  leaf : Fin n
  cursor : Cursor

namespace Automaton

variable {n : Nat}

/-- The ways along some branches, in the order of preference. -/
def ways (bs : List (Branch n)) (c : Cursor) : List (Way n) :=
  bs.filterMap fun b => (b.run? c).map fun d => ⟨b.target, d⟩

/-- The ways of a run that begins at a place, or none. -/
def starts (a : Automaton n) (begins : Bool) (p : Place) : List (Way n) :=
  if begins then ways a.first (.start p) else []

/-- Of the ways at one place the threads that can go on, each leaf once, up to the first way that is
done and accepted, and that way's end. The leaves in `seen` have a thread already. -/
def settle (a : Automaton n) (final : Place → Bool) (rest : Text) :
    (seen : List (Fin n)) → List (Way n) → List (Thread n) × Option Cursor
  | _, [] => ([], none)
  | seen, w :: ws =>
    match w.target with
    | none => if final w.cursor.toPlace then ([], some w.cursor) else a.settle final rest seen ws
    | some i =>
      if seen.contains i || !rest.head?.any (a.leaf i).accepts then a.settle final rest seen ws
      else
        let s := a.settle final rest (i :: seen) ws
        (⟨i, w.cursor⟩ :: s.1, s.2)

/-- The ways of the threads after the next character. -/
def step (a : Automaton n) (ts : List (Thread n)) (x : Char) (rest : Text) : List (Way n) :=
  ts.flatMap fun t =>
    if (a.leaf t.leaf).accepts x then ways (a.leaf t.leaf).next (t.cursor.read x rest) else []

/-- Runs the ways that have come to a place along the rest of the text. As long as no end is
accepted, `search` starts a new run at every place. The result is the preferred accepted end, and
`best` if there is none. -/
def run (a : Automaton n) (final : Place → Bool) (search : Bool) (rest : Text) (pos : Nat)
    (last : Option Char) (ws : List (Way n)) (best : Option Cursor) : Option Cursor :=
  let s := a.settle final rest [] (ws ++ a.starts (search && best.isNone) ⟨pos, last, rest⟩)
  let best := s.2.or best
  match rest with
  | [] => best
  | x :: rest =>
    if s.1.isEmpty && (best.isSome || !search) then best
    else a.run final search rest (pos + 1) (some x) (a.step s.1 x rest) best

/-- The preferred end of a run from `c` that is accepted. -/
def preferred? (a : Automaton n) (final : Place → Bool) (c : Cursor) : Option Cursor :=
  a.run final false c.rest c.pos c.last (ways a.first c) none

/-- The preferred end of the runs that begin at the first place possible. -/
def leftmost? (a : Automaton n) (p : Place) : Option Cursor :=
  a.run (fun _ => true) true p.rest p.pos p.last [] none

end Automaton

/-! ## One thread for a leaf -/

theorem Action.isSome_run?_eq {c d : Cursor} (h : c.toPlace = d.toPlace) (act : Action) :
    (act.run? c).isSome = (act.run? d).isSome := by
  cases act <;> simp only [Action.run?, h, Option.isSome_some] <;> split <;> rfl

theorem Branch.isSome_run?_eq {n : Nat} {c d : Cursor} (h : c.toPlace = d.toPlace) (b : Branch n) :
    (b.run? c).isSome = (b.run? d).isSome := by
  obtain ⟨actions, target⟩ := b
  simp only [run?]
  induction actions generalizing c d with
  | nil => rfl
  | cons act actions ih =>
    have hact := Action.isSome_run?_eq h act
    simp only [List.foldlM_cons, Option.bind_eq_bind]
    cases hc : act.run? c <;> cases hd : act.run? d <;> simp only [hc, hd] at hact
    · rfl
    · cases hact
    · cases hact
    · exact ih (by rw [Action.toPlace_of_run? hc, Action.toPlace_of_run? hd, h])

namespace Automaton

variable {n : Nat}

/-- Where runs end depends only on the place where they wait. -/
theorem map_toPlace_wait (a : Automaton n) {c d : Cursor} (h : c.toPlace = d.toPlace) (rest : Text)
    (i : Fin n) :
    (a.wait rest i c).map Cursor.toPlace = (a.wait rest i d).map Cursor.toPlace := by
  induction rest generalizing i c d with
  | nil => rfl
  | cons x rest ih =>
    simp only [wait]
    split
    · simp only [List.map_flatMap]
      congr 1
      funext b
      have hread : (c.read x rest).toPlace = (d.read x rest).toPlace := by simp [h]
      have hsome := b.isSome_run?_eq hread
      simp only [Branch.ends]
      cases hc : b.run? (c.read x rest) <;> cases hd : b.run? (d.read x rest) <;>
        simp only [hc, hd] at hsome
      · rfl
      · cases hsome
      · cases hsome
      · have hp := (Branch.toPlace_of_run? hc).trans (hread.trans (Branch.toPlace_of_run? hd).symm)
        cases b.target with
        | none => simp [hp]
        | some j => exact ih hp j
    · rfl

/-- If one run that waits at a leaf has no accepted end, then no other run there has one. -/
theorem find?_wait_eq_none (a : Automaton n) (final : Place → Bool) {c d : Cursor}
    (h : c.toPlace = d.toPlace) {rest : Text} {i : Fin n}
    (hc : (a.wait rest i c).find? (fun e => final e.toPlace) = none) :
    (a.wait rest i d).find? (fun e => final e.toPlace) = none := by
  have hmap := congrArg (List.find? final) (a.map_toPlace_wait h rest i)
  simp only [List.find?_map] at hmap
  have hc' : (a.wait rest i c).find? (final ∘ Cursor.toPlace) = none := hc
  rw [hc', Option.map_none] at hmap
  exact Option.map_eq_none_iff.mp hmap.symm

/-- The ends of a way. -/
def waitOf (a : Automaton n) (rest : Text) (w : Way n) : List Cursor :=
  match w.target with
  | none => [w.cursor]
  | some i => a.wait rest i w.cursor

theorem flatMap_ways (a : Automaton n) (bs : List (Branch n)) (c : Cursor) :
    (ways bs c).flatMap (a.waitOf c.rest) = a.ends bs c := by
  induction bs with
  | nil => rfl
  | cons b bs ih =>
    simp only [ends, List.flatMap_cons] at ih ⊢
    rw [← ih]
    simp only [ways, List.filterMap_cons, Branch.ends]
    cases b.run? c with
    | none => rfl
    | some d =>
      cases ht : b.target <;> simp [waitOf]

theorem toPlace_of_mem_ways {bs : List (Branch n)} {c : Cursor} {w : Way n} (h : w ∈ ways bs c) :
    w.cursor.toPlace = c.toPlace := by
  simp only [ways, List.mem_filterMap, Option.map_eq_some_iff] at h
  obtain ⟨b, -, d, hd, rfl⟩ := h
  exact Branch.toPlace_of_run? hd

/-- The ends of a thread. -/
def waitAt (a : Automaton n) (rest : Text) (t : Thread n) : List Cursor :=
  a.wait rest t.leaf t.cursor

/-- Nothing that is preferred is lost when ways are settled, behind the ends `before` of the threads
at the leaves in `seen`. -/
theorem find?_settle (a : Automaton n) (final : Place → Bool) (rest : Text) (p : Place)
    (ws : List (Way n)) (hws : ∀ w ∈ ws, w.cursor.toPlace = p) (seen : List (Fin n))
    (before : List Cursor)
    (hseen : ∀ i ∈ seen, before.find? (fun e => final e.toPlace) = none →
      ∀ c : Cursor, c.toPlace = p → (a.wait rest i c).find? (fun e => final e.toPlace) = none) :
    (before ++ ws.flatMap (a.waitOf rest)).find? (fun e => final e.toPlace) =
      ((before ++ (a.settle final rest seen ws).1.flatMap (a.waitAt rest)).find?
        fun e => final e.toPlace).or (a.settle final rest seen ws).2 := by
  induction ws generalizing seen before with
  | nil => simp [settle]
  | cons w ws ih =>
    have hp := hws w List.mem_cons_self
    have ih := ih fun w hw => hws w (List.mem_cons_of_mem _ hw)
    obtain ⟨target, c⟩ := w
    cases target with
    | none =>
      simp only [settle, List.flatMap_cons, waitOf]
      split
      · rename_i hf
        simp [List.find?_append, hf]
      · rename_i hf
        rw [← ih seen before hseen]
        simp [List.find?_append, hf]
    | some i =>
      simp only [settle, List.flatMap_cons, waitOf]
      split
      · rename_i hi
        rw [← ih seen before hseen]
        have hnone : before.find? (fun e => final e.toPlace) = none →
            (a.wait rest i c).find? (fun e => final e.toPlace) = none := by
          intro hbefore
          rw [Bool.or_eq_true, Bool.not_eq_true'] at hi
          rcases hi with hi | hi
          · exact hseen i (by simpa using hi) hbefore c hp
          · cases rest with
            | nil => rfl
            | cons x rest => simp_all [wait]
        simp only [List.find?_append]
        cases hb : before.find? (fun e => final e.toPlace) with
        | none => simp [hnone hb]
        | some d => simp
      · rename_i hi
        simp only [List.flatMap_cons, waitAt]
        have := ih (i :: seen) (before ++ a.wait rest i c) (by
          intro j hj hbefore d hd
          rw [List.find?_append, Option.or_eq_none_iff] at hbefore
          rcases List.mem_cons.mp hj with rfl | hj
          · exact a.find?_wait_eq_none final (hp.trans hd.symm) hbefore.2
          · exact hseen j hj hbefore.1 d hd)
        simpa only [List.append_assoc] using this

theorem flatMap_step (a : Automaton n) (ts : List (Thread n)) (x : Char) (rest : Text) :
    (a.step ts x rest).flatMap (a.waitOf rest) = ts.flatMap (a.waitAt (x :: rest)) := by
  simp only [step, List.flatMap_assoc]
  congr 1
  funext t
  simp only [waitAt, wait]
  split
  · exact a.flatMap_ways _ (t.cursor.read x rest)
  · rfl

theorem toPlace_of_mem_settle {a : Automaton n} {final : Place → Bool} {rest : Text} {p : Place}
    {ws : List (Way n)} (hws : ∀ w ∈ ws, w.cursor.toPlace = p) {seen : List (Fin n)}
    {t : Thread n} (h : t ∈ (a.settle final rest seen ws).1) : t.cursor.toPlace = p := by
  induction ws generalizing seen with
  | nil => simp [settle] at h
  | cons w ws ih =>
    have ih := @ih fun w hw => hws w (List.mem_cons_of_mem _ hw)
    simp only [settle] at h
    split at h
    · split at h
      · simp at h
      · exact ih h
    · split at h
      · exact ih h
      · rcases List.mem_cons.mp h with rfl | h
        · exact hws w List.mem_cons_self
        · exact ih h

theorem toPlace_of_mem_step {a : Automaton n} {ts : List (Thread n)} {p : Place}
    (hts : ∀ t ∈ ts, t.cursor.toPlace = p) {x : Char} {rest : Text} {w : Way n}
    (h : w ∈ a.step ts x rest) : w.cursor.toPlace = p.read x rest := by
  simp only [step, List.mem_flatMap, List.mem_ite_nil_right] at h
  obtain ⟨t, ht, -, h⟩ := h
  rw [toPlace_of_mem_ways h, Cursor.toPlace_read, hts t ht]

theorem flatMap_starts (a : Automaton n) (begins : Bool) (p : Place) :
    (a.starts begins p).flatMap (a.waitOf p.rest) =
      if begins then a.outcomes (.start p) else [] := by
  cases begins with
  | false => rfl
  | true => exact a.flatMap_ways a.first (.start p)

theorem toPlace_of_mem_append_starts (a : Automaton n) (begins : Bool) {p : Place}
    {ws : List (Way n)} (hws : ∀ w ∈ ws, w.cursor.toPlace = p) :
    ∀ w ∈ ws ++ a.starts begins p, w.cursor.toPlace = p := by
  intro w hw
  rcases List.mem_append.mp hw with hw | hw
  · exact hws w hw
  · cases begins with
    | false => simp [starts] at hw
    | true => exact toPlace_of_mem_ways hw

/-- The first accepted end of the ways and of a run that begins here is that of the threads, or
else the one that was accepted when the ways were settled. -/
theorem find?_settle_starts (a : Automaton n) (final : Place → Bool) (begins : Bool) (p : Place)
    {ws : List (Way n)} (hws : ∀ w ∈ ws, w.cursor.toPlace = p) :
    (ws.flatMap (a.waitOf p.rest) ++ if begins then a.outcomes (.start p) else []).find?
        (fun e => final e.toPlace) =
      (((a.settle final p.rest [] (ws ++ a.starts begins p)).1.flatMap (a.waitAt p.rest)).find?
        fun e => final e.toPlace).or (a.settle final p.rest [] (ws ++ a.starts begins p)).2 := by
  have h := a.find?_settle final p.rest p _ (a.toPlace_of_mem_append_starts begins hws) [] []
    (by simp)
  rwa [List.nil_append, List.nil_append, List.flatMap_append, flatMap_starts] at h

/-- A run finds the first accepted end of its ways, then of the runs that begin here or later, and
falls back on `best`. -/
theorem run_eq_find? (a : Automaton n) (final : Place → Bool) (search : Bool) (rest : Text)
    (pos : Nat) (last : Option Char) (ws : List (Way n)) (best : Option Cursor)
    (hws : ∀ w ∈ ws, w.cursor.toPlace = ⟨pos, last, rest⟩) :
    a.run final search rest pos last ws best =
      ((ws.flatMap (a.waitOf rest) ++ if search && best.isNone then
          (Place.onwardFrom rest pos last).flatMap fun q => a.outcomes (.start q) else []).find?
        fun e => final e.toPlace).or best := by
  induction rest generalizing pos last ws best with
  | nil =>
    have h := a.find?_settle_starts final (search && best.isNone) ⟨pos, last, []⟩ hws
    have hnil : ∀ ts : List (Thread n), ts.flatMap (a.waitAt []) = [] := fun ts =>
      List.flatMap_eq_nil_iff.mpr fun _ _ => rfl
    simp only [hnil, List.find?_nil, Option.none_or] at h
    simp only [run, Place.onwardFrom, List.flatMap_cons, List.flatMap_nil, List.append_nil, h]
  | cons x rest ih =>
    have h := a.find?_settle_starts final (search && best.isNone) ⟨pos, last, x :: rest⟩ hws
    have hts := fun t (ht : t ∈ (a.settle final (x :: rest) [] (ws ++ a.starts _ _)).1) =>
      toPlace_of_mem_settle (a.toPlace_of_mem_append_starts (search && best.isNone) hws) ht
    simp only [run, Place.onwardFrom, List.flatMap_cons]
    generalize a.settle final (x :: rest) []
      (ws ++ a.starts (search && best.isNone) ⟨pos, last, x :: rest⟩) = s at h hts ⊢
    rw [ih (pos + 1) (some x) (a.step s.1 x rest) (s.2.or best) fun w hw =>
      toPlace_of_mem_step hts hw, flatMap_step]
    generalize (Place.onwardFrom rest (pos + 1) (some x)).flatMap
      (fun q => a.outcomes (.start q)) = later
    have hrest : ∀ (b : Bool) (l : List Cursor), (if b then l ++ later else []) =
        (if b then l else []) ++ if b then later else [] := by
      intro b l
      cases b <;> rfl
    rw [hrest, ← List.append_assoc, List.find?_append, List.find?_append, h]
    obtain ⟨ts, accepted⟩ := s
    cases search <;> cases best <;> cases accepted <;> cases ts <;> simp

/-- The preferred accepted end of a run is the first accepted outcome. -/
theorem preferred?_eq (a : Automaton n) (final : Place → Bool) (c : Cursor) :
    a.preferred? final c = (a.outcomes c).find? fun e => final e.toPlace := by
  rw [preferred?, run_eq_find? _ _ _ _ _ _ _ _ fun w hw => toPlace_of_mem_ways hw, flatMap_ways]
  simp [outcomes]

/-- The leftmost end is the first outcome of the runs that begin here or later. -/
theorem leftmost?_eq (a : Automaton n) (p : Place) :
    a.leftmost? p = (p.onward.flatMap fun q => a.outcomes (.start q)).head? := by
  rw [leftmost?, run_eq_find? _ _ _ _ _ _ _ _ (by simp)]
  simp only [List.flatMap_nil, List.nil_append, Option.isNone_none, Bool.and_self, if_true,
    Option.or_none, ← Place.onward.eq_1]
  cases p.onward.flatMap fun q => a.outcomes (.start q) <;> rfl

end Automaton

end Snippet
