import Snippet.Pattern.Regex

/-!
# The automaton of a regular expression

The leaves of an expression are its single characters. Between two characters a run of the
automaton takes a branch: it opens and closes groups, tests word boundaries and the end of the text,
and then waits at a leaf or is done. The branches behind a leaf, and those at the beginning, are
listed in the order of preference.

The main statement: the automaton of an expression has the outcomes of the expression, in the same
order (`Regex.outcomes_automaton`).
-/

namespace Snippet

/-- What a run does between two characters. -/
inductive Action where
  | openGroup
  | closeGroup (index : Nat)
  | wordBoundary
  | textEnd

/-- The cursor after an action, if a test in it holds. -/
def Action.run? (c : Cursor) : Action → Option Cursor
  | openGroup => some c.openGroup
  | closeGroup index => some (c.closeGroup index)
  | wordBoundary => if c.atWordBoundary then some c else none
  | textEnd => if c.rest.isEmpty then some c else none

/-- Actions, and then the leaf where the run waits for a character, or nothing if it is done. -/
structure Branch (n : Nat) where
  actions : List Action
  target : Option (Fin n)

namespace Branch

/-- The run is done. -/
def done {n : Nat} : Branch n := ⟨[], none⟩

/-- The branch with more actions in front. -/
def after {n : Nat} (actions : List Action) (b : Branch n) : Branch n :=
  ⟨actions ++ b.actions, b.target⟩

/-- The branch among renamed leaves; if it is done it goes on with one of `bs`. -/
def andThen {m n : Nat} (f : Fin m → Fin n) (bs : List (Branch n)) (b : Branch m) :
    List (Branch n) :=
  match b.target with
  | some i => [⟨b.actions, some (f i)⟩]
  | none => bs.map (after b.actions)

/-- The cursor after the actions, if their tests hold. -/
def run? {n : Nat} (c : Cursor) (b : Branch n) : Option Cursor := b.actions.foldlM Action.run? c

/-- The ends of a run that takes the branch, where `k` has the ends of a run that waits at a
leaf. -/
def ends {n : Nat} (k : Fin n → Cursor → List Cursor) (c : Cursor) (b : Branch n) :
    List Cursor :=
  match b.run? c with
  | none => []
  | some d =>
    match b.target with
    | none => [d]
    | some i => k i d

end Branch

/-- A character of an expression: which ones it accepts and the branches behind it. -/
structure Leaf (n : Nat) where
  accepts : Char → Bool
  next : List (Branch n)

/-- The leaf among renamed leaves, where a run that is done goes on with one of `bs`. -/
def Leaf.andThen {m n : Nat} (f : Fin m → Fin n) (bs : List (Branch n)) (l : Leaf m) : Leaf n :=
  ⟨l.accepts, l.next.flatMap (Branch.andThen f bs)⟩

/-- The branches at the beginning, and the leaves. -/
structure Automaton (n : Nat) where
  first : List (Branch n)
  leaf : Fin n → Leaf n

namespace Automaton

/-- The ends of a run that waits at a leaf, with the given text left. -/
def wait {n : Nat} (a : Automaton n) : (rest : Text) → Fin n → Cursor → List Cursor
  | [], _, _ => []
  | x :: rest, i, c =>
    if (a.leaf i).accepts x then (a.leaf i).next.flatMap (Branch.ends (a.wait rest) (c.read x rest))
    else []

/-- The ends of the runs that take one of the branches, in the order of preference. -/
def ends {n : Nat} (a : Automaton n) (bs : List (Branch n)) (c : Cursor) : List Cursor :=
  bs.flatMap (Branch.ends (a.wait c.rest) c)

/-- All outcomes, in the order of preference. -/
def outcomes {n : Nat} (a : Automaton n) (c : Cursor) : List Cursor := a.ends a.first c

/-- The same automaton with its leaves in a table. -/
def tabulate {n : Nat} (a : Automaton n) : Automaton n :=
  let leaves := Vector.ofFn a.leaf
  ⟨a.first, fun i => leaves[i]⟩

/-- No leaf: the given actions, and the run is done. -/
def acts (actions : List Action) : Automaton 0 := ⟨[⟨actions, none⟩], fun i => i.elim0⟩

/-- One character of a class. -/
def one (p : Char → Bool) : Automaton 1 :=
  ⟨[⟨[], some ⟨0, Nat.zero_lt_one⟩⟩], fun _ => ⟨p, [.done]⟩⟩

variable {m n : Nat}

/-- The first automaton, then the second. -/
def seq (a : Automaton m) (b : Automaton n) : Automaton (m + n) :=
  let second := b.first.flatMap (Branch.andThen (Fin.natAdd m) [.done])
  ⟨a.first.flatMap (Branch.andThen (Fin.castAdd n) second),
    Fin.addCases (fun i => (a.leaf i).andThen (Fin.castAdd n) second)
      fun i => (b.leaf i).andThen (Fin.natAdd m) [.done]⟩

/-- The first automaton or else the second. -/
def alt (a : Automaton m) (b : Automaton n) : Automaton (m + n) :=
  ⟨a.first.flatMap (Branch.andThen (Fin.castAdd n) [.done]) ++
    b.first.flatMap (Branch.andThen (Fin.natAdd m) [.done]),
    Fin.addCases (fun i => (a.leaf i).andThen (Fin.castAdd n) [.done])
      fun i => (b.leaf i).andThen (Fin.natAdd m) [.done]⟩

/-- The branches of one more round, which reads, and of the stop. -/
def again (greedy : Bool) (a : Automaton n) : List (Branch n) :=
  let more := a.first.filter fun b => b.target.isSome
  if greedy then more ++ [.done] else .done :: more

/-- Any number of rounds. -/
def star (greedy : Bool) (a : Automaton n) : Automaton n :=
  ⟨a.again greedy, fun i => (a.leaf i).andThen id (a.again greedy)⟩

/-- A group around an automaton. -/
def group (index : Nat) (a : Automaton n) : Automaton n :=
  let close := [⟨[.closeGroup index], none⟩]
  ⟨(a.first.flatMap (Branch.andThen id close)).map (.after [.openGroup]),
    fun i => (a.leaf i).andThen id close⟩

end Automaton

namespace Regex

/-- The number of leaves. -/
def size : Regex → Nat
  | empty | wordBoundary | textEnd => 0
  | one _ => 1
  | seq r s | alt r s => r.size + s.size
  | star _ r | group _ r => r.size

/-- The automaton of an expression. -/
def automaton : (r : Regex) → Automaton r.size
  | empty => .acts []
  | one p => .one p
  | seq r s => r.automaton.seq s.automaton
  | alt r s => r.automaton.alt s.automaton
  | star greedy r => r.automaton.star greedy
  | group index r => r.automaton.group index
  | wordBoundary => .acts [.wordBoundary]
  | textEnd => .acts [.textEnd]

end Regex

/-! ## Actions keep the place -/

theorem Action.toPlace_of_run? {c d : Cursor} {a : Action} (h : a.run? c = some d) :
    d.toPlace = c.toPlace := by
  cases a <;> simp only [Action.run?, Option.some.injEq, Option.ite_none_right_eq_some] at h
  · simp [← h]
  · simp [← h]
  · simp [← h.2]
  · simp [← h.2]

namespace Branch

variable {m n : Nat}

theorem toPlace_of_run? {c d : Cursor} {b : Branch n} (h : b.run? c = some d) :
    d.toPlace = c.toPlace := by
  obtain ⟨actions, target⟩ := b
  simp only [run?] at h
  induction actions generalizing c with
  | nil => simp_all
  | cons a actions ih =>
    simp only [List.foldlM_cons, Option.bind_eq_bind, Option.bind_eq_some_iff] at h
    obtain ⟨e, he, h⟩ := h
    rw [ih h, Action.toPlace_of_run? he]

theorem run?_after (actions : List Action) (b : Branch n) (c : Cursor) :
    (b.after actions).run? c = (actions.foldlM Action.run? c).bind b.run? := by
  simp only [run?, after, List.foldlM_append]
  rfl

/-- Actions in front come first. -/
theorem ends_after (k : Fin n → Cursor → List Cursor) (actions : List Action) (b : Branch n)
    (c : Cursor) :
    (b.after actions).ends k c =
      ((actions.foldlM Action.run? c).map fun d => b.ends k d).getD [] := by
  simp only [ends, run?_after]
  cases actions.foldlM Action.run? c <;> rfl

@[simp] theorem ends_done (k : Fin n → Cursor → List Cursor) (c : Cursor) :
    (done : Branch n).ends k c = [c] := rfl

end Branch

/-! ## Runs that go on -/

namespace Automaton

variable {m n : Nat}

theorem tabulate_eq (a : Automaton n) : a.tabulate = a := by
  simp [tabulate]

@[simp] theorem ends_append (a : Automaton n) (bs bs' : List (Branch n)) (c : Cursor) :
    a.ends (bs ++ bs') c = a.ends bs c ++ a.ends bs' c := by
  simp [ends]

@[simp] theorem ends_done (a : Automaton n) : a.ends [.done] = fun c => [c] := by
  funext c
  simp [ends]

theorem ends_cons_done (a : Automaton n) (bs : List (Branch n)) (c : Cursor) :
    a.ends (.done :: bs) c = c :: a.ends bs c := by
  simp [ends]

theorem ends_map_after_openGroup (a : Automaton n) (bs : List (Branch n)) (c : Cursor) :
    a.ends (bs.map (.after [.openGroup])) c = a.ends bs c.openGroup := by
  simp [ends, List.flatMap_map, Branch.ends_after, Action.run?]

/-- One branch: if the runs that wait at a leaf go on with `bs`, then so do those that take a
branch. -/
theorem flatMap_ends_andThen {a : Automaton m} {b : Automaton n} {f : Fin m → Fin n}
    {bs : List (Branch n)} {rest : Text}
    (h : ∀ i d, b.wait rest (f i) d = (a.wait rest i d).flatMap (b.ends bs)) {c : Cursor}
    (hc : c.rest = rest) (e : Branch m) :
    (e.andThen f bs).flatMap (Branch.ends (b.wait rest) c) =
      (e.ends (a.wait rest) c).flatMap (b.ends bs) := by
  obtain ⟨actions, target⟩ := e
  cases target with
  | none =>
    simp only [Branch.andThen, List.flatMap_map, Branch.ends_after]
    simp only [Branch.ends, Branch.run?]
    cases hr : actions.foldlM Action.run? c with
    | none => simp
    | some d =>
      have hd : d.rest = rest := by
        rw [Branch.toPlace_of_run? (b := (⟨actions, none⟩ : Branch m)) hr, hc]
      simp [ends, hd]
      rfl
  | some i =>
    simp only [Branch.andThen, Branch.ends, Branch.run?, List.flatMap_cons, List.flatMap_nil,
      List.append_nil]
    cases actions.foldlM Action.run? c with
    | none => rfl
    | some d => exact h i d

/-- If the leaves of `a` are among those of `b` and go on with `bs`, then so do the runs that wait
at one of them. -/
theorem wait_andThen {a : Automaton m} {b : Automaton n} {f : Fin m → Fin n}
    {bs : List (Branch n)} (h : ∀ i, b.leaf (f i) = (a.leaf i).andThen f bs)
    (rest : Text) (i : Fin m) (c : Cursor) :
    b.wait rest (f i) c = (a.wait rest i c).flatMap (b.ends bs) := by
  induction rest generalizing i c with
  | nil => rfl
  | cons x rest ih =>
    simp only [wait, h, Leaf.andThen]
    split
    · simp only [List.flatMap_assoc]
      congr 1
      funext e
      exact flatMap_ends_andThen ih rfl e
    · rfl

/-- If the leaves of `a` are among those of `b` and go on with `bs`, then so do all its runs. -/
theorem ends_andThen {a : Automaton m} {b : Automaton n} {f : Fin m → Fin n}
    {bs : List (Branch n)} (h : ∀ i, b.leaf (f i) = (a.leaf i).andThen f bs)
    (l : List (Branch m)) (c : Cursor) :
    b.ends (l.flatMap (Branch.andThen f bs)) c = (a.ends l c).flatMap (b.ends bs) := by
  simp only [ends, List.flatMap_assoc]
  congr 1
  funext e
  exact flatMap_ends_andThen (wait_andThen h _) rfl e

/-- If the leaves of `a` are among those of `b`, then so are all its runs. -/
theorem ends_andThen_done {a : Automaton m} {b : Automaton n} {f : Fin m → Fin n}
    (h : ∀ i, b.leaf (f i) = (a.leaf i).andThen f [.done]) (l : List (Branch m)) (c : Cursor) :
    b.ends (l.flatMap (Branch.andThen f [.done])) c = a.ends l c := by
  rw [ends_andThen h]
  simp

/-! ## Runs that read -/

/-- A run that waits at a leaf reads a character. -/
theorem length_lt_of_mem_wait {a : Automaton n} {rest : Text} {i : Fin n} {c d : Cursor}
    (h : d ∈ a.wait rest i c) : d.rest.length < rest.length := by
  induction rest generalizing i c with
  | nil => simp [wait] at h
  | cons x rest ih =>
    simp only [wait, List.mem_ite_nil_right, List.mem_flatMap] at h
    obtain ⟨-, e, -, h⟩ := h
    simp only [Branch.ends] at h
    split at h
    · simp at h
    · rename_i c' hc
      split at h
      · have := Branch.toPlace_of_run? hc
        simp_all
      · have := ih h
        simp only [List.length_cons]
        omega

/-- The ends behind a branch to a leaf are those where something was read. -/
theorem ends_filter (a : Automaton n) (bs : List (Branch n)) (c : Cursor) :
    a.ends (bs.filter fun b => b.target.isSome) c =
      (a.ends bs c).filter fun d => d.rest.length < c.rest.length := by
  simp only [ends]
  induction bs with
  | nil => rfl
  | cons b bs ih =>
    rw [List.flatMap_cons, List.filter_append, ← ih, List.filter_cons]
    cases ht : b.target with
    | none =>
      have : (b.ends (a.wait c.rest) c).filter (fun d => d.rest.length < c.rest.length) = [] := by
        simp only [Branch.ends, ht]
        split
        · rfl
        · rename_i d hd
          simp [Branch.toPlace_of_run? hd]
      simp [this]
    | some i =>
      have : (b.ends (a.wait c.rest) c).filter (fun d => d.rest.length < c.rest.length) =
          b.ends (a.wait c.rest) c := by
        rw [List.filter_eq_self]
        intro d hd
        simp only [Branch.ends, ht] at hd
        split at hd
        · simp at hd
        · exact decide_eq_true (length_lt_of_mem_wait hd)
      simp [this]

/-! ## The outcomes of the parts -/

theorem outcomes_acts (actions : List Action) (c : Cursor) :
    (acts actions).outcomes c = (actions.foldlM Action.run? c).toList := by
  simp only [outcomes, acts, ends, List.flatMap_cons, List.flatMap_nil, List.append_nil,
    Branch.ends, Branch.run?]
  cases actions.foldlM Action.run? c <;> rfl

theorem outcomes_one (p : Char → Bool) (c : Cursor) :
    (one p).outcomes c = (Regex.one p).outcomes c := by
  simp only [outcomes, one, ends, Regex.outcomes]
  cases c.rest with
  | nil => rfl
  | cons x rest => simp [Branch.ends, Branch.run?, wait, Branch.done]

theorem outcomes_seq (a : Automaton m) (b : Automaton n) (c : Cursor) :
    (a.seq b).outcomes c = (a.outcomes c).flatMap b.outcomes := by
  simp only [outcomes]
  rw [show (a.seq b).first = a.first.flatMap (Branch.andThen (Fin.castAdd n)
      (b.first.flatMap (Branch.andThen (Fin.natAdd m) [.done]))) from rfl,
    ends_andThen (a := a) fun i => by simp [seq]]
  congr 1
  funext d
  exact ends_andThen_done (fun i => by simp [seq]) _ d

theorem outcomes_alt (a : Automaton m) (b : Automaton n) (c : Cursor) :
    (a.alt b).outcomes c = a.outcomes c ++ b.outcomes c := by
  simp only [outcomes]
  rw [show (a.alt b).first = a.first.flatMap (Branch.andThen (Fin.castAdd n) [.done]) ++
      b.first.flatMap (Branch.andThen (Fin.natAdd m) [.done]) from rfl,
    ends_append, ends_andThen_done (a := a) fun i => by simp [alt],
    ends_andThen_done (a := b) fun i => by simp [alt]]

theorem outcomes_group (index : Nat) (a : Automaton n) (c : Cursor) :
    (a.group index).outcomes c = (a.outcomes c.openGroup).map (Cursor.closeGroup index) := by
  simp only [outcomes]
  rw [show (a.group index).first = (a.first.flatMap
      (Branch.andThen id [⟨[.closeGroup index], none⟩])).map (.after [.openGroup]) from rfl,
    ends_map_after_openGroup, ends_andThen (a := a) fun i => by simp [group],
    List.map_eq_flatMap]
  congr 1

/-- Branches to leaves are never done. -/
theorem flatMap_andThen_id {l bs : List (Branch n)} (h : ∀ b ∈ l, b.target.isSome) :
    l.flatMap (Branch.andThen id bs) = l := by
  induction l with
  | nil => rfl
  | cons b l ih =>
    obtain ⟨actions, target⟩ := b
    have hb := h _ List.mem_cons_self
    obtain ⟨i, rfl⟩ := Option.isSome_iff_exists.mp hb
    simp [List.flatMap_cons, Branch.andThen, ih fun b hb => h b (List.mem_cons_of_mem _ hb)]

/-- A repetition is one more round that reads and a repetition, or the stop. -/
theorem outcomes_star (greedy : Bool) (a : Automaton n) (c : Cursor) :
    (a.star greedy).outcomes c =
      let more := (a.outcomes c).flatMap fun d =>
        if d.rest.length < c.rest.length then (a.star greedy).outcomes d else []
      if greedy then more ++ [c] else c :: more := by
  have hmore : (a.star greedy).ends (a.first.filter fun b => b.target.isSome) c =
      (a.outcomes c).flatMap fun d =>
        if d.rest.length < c.rest.length then (a.star greedy).outcomes d else [] := by
    have hread : (a.first.filter fun b => b.target.isSome).flatMap
        (Branch.andThen id (a.again greedy)) = a.first.filter fun b => b.target.isSome :=
      flatMap_andThen_id (by simp)
    rw [← hread, ends_andThen (a := a) (fun i => rfl), ends_filter]
    simp only [outcomes]
    generalize a.ends a.first c = l
    induction l with
    | nil => rfl
    | cons d l ih =>
      rw [List.filter_cons, List.flatMap_cons, ← ih]
      by_cases hd : d.rest.length < c.rest.length
      · simp [hd, star]
      · simp [hd]
  rw [← hmore]
  cases greedy with
  | true => exact (ends_append _ _ _ c).trans (by rw [ends_done]; rfl)
  | false => exact ends_cons_done _ _ c

end Automaton

/-- The automaton of an expression has the outcomes of the expression. -/
theorem Regex.outcomes_automaton (r : Regex) (c : Cursor) :
    r.automaton.outcomes c = r.outcomes c := by
  induction r generalizing c with
  | empty => rfl
  | one p => exact Automaton.outcomes_one p c
  | seq r s ihr ihs =>
    refine (Automaton.outcomes_seq _ _ c).trans ?_
    simp only [ihr, outcomes, funext ihs]
  | alt r s ihr ihs =>
    refine (Automaton.outcomes_alt _ _ c).trans ?_
    simp only [ihr, ihs, outcomes]
  | star greedy r ih =>
    obtain ⟨k, hk⟩ : ∃ k, k = c.rest.length := ⟨_, rfl⟩
    induction k using Nat.strongRecOn generalizing c with
    | _ k ihk =>
      refine (Automaton.outcomes_star greedy r.automaton c).trans ?_
      rw [Regex.outcomes_star, ih]
      have : ∀ d : Cursor, (if d.rest.length < c.rest.length then
            (r.automaton.star greedy).outcomes d else []) =
          if d.rest.length < c.rest.length then (star greedy r).outcomes d else [] := by
        intro d
        split
        · exact ihk _ (by omega) d rfl
        · rfl
      simp only [this]
  | group index r ih =>
    refine (Automaton.outcomes_group index r.automaton c).trans ?_
    simp only [ih, outcomes]
  | wordBoundary =>
    refine (Automaton.outcomes_acts _ c).trans ?_
    cases h : c.atWordBoundary <;> simp [outcomes, Action.run?, h]
  | textEnd =>
    refine (Automaton.outcomes_acts _ c).trans ?_
    cases h : c.rest.isEmpty <;> simp [outcomes, Action.run?, h]

end Snippet
