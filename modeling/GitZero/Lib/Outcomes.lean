/-
Module: GitZero.Lib.Outcomes
Purpose: What the result of a computation in `Except` says about its parts.
Trusted boundary: none
Main exports: bind_eq_ok, mapM_eq_ok, forM_eq_ok, foldlM_cons_eq_ok, foldlM_ok_induction,
  foldlM_ok_reaches, bind_eq_error, foldlM_eq_error, Avoids, Agree
-/
import Mathlib.Data.List.Forall2

namespace GitZero.Outcomes

variable {ε α β : Type}

/-- A sequence succeeds if both parts do. -/
theorem bind_eq_ok {first : Except ε α} {next : α → Except ε β} {result : β} :
    (first >>= next) = .ok result ↔ ∃ value, first = .ok value ∧ next value = .ok result := by
  cases first with
  | error error => simp [bind, Except.bind]
  | ok value => simp [bind, Except.bind]

theorem pure_eq_ok {value result : α} :
    (pure value : Except ε α) = .ok result ↔ value = result := by
  simp [pure, Except.pure]

/-- A traversal succeeds if every item does. -/
theorem mapM_eq_ok {run : α → Except ε β} {list : List α} {results : List β} :
    list.mapM run = .ok results ↔
      List.Forall₂ (fun item result => run item = .ok result) list results := by
  induction list generalizing results with
  | nil =>
      rw [List.mapM_nil, pure_eq_ok, List.forall₂_nil_left_iff]
      exact eq_comm
  | cons head tail inductionHypothesis =>
      rw [List.mapM_cons, bind_eq_ok]
      constructor
      · rintro ⟨first, ran, rest⟩
        obtain ⟨others, ranOthers, same⟩ := bind_eq_ok.mp rest
        cases same
        exact .cons ran (inductionHypothesis.mp ranOthers)
      · intro all
        cases all with
        | cons ran ranOthers =>
            exact ⟨_, ran, bind_eq_ok.mpr ⟨_, inductionHypothesis.mpr ranOthers, rfl⟩⟩

theorem forall₂_mem_right {related : α → β → Prop} {list : List α} {others : List β}
    (all : List.Forall₂ related list others) {other : β} (member : other ∈ others) :
    ∃ item ∈ list, related item other := by
  induction all with
  | nil => cases member
  | cons first _ inductionHypothesis =>
      rcases List.mem_cons.mp member with same | later
      · exact ⟨_, List.mem_cons_self, same ▸ first⟩
      · obtain ⟨item, inside, holds⟩ := inductionHypothesis later
        exact ⟨item, List.mem_cons_of_mem _ inside, holds⟩

/-- A loop succeeds if every turn does. -/
theorem forM_eq_ok {run : α → Except ε Unit} {list : List α} :
    list.forM run = .ok () ↔ ∀ item ∈ list, run item = .ok () := by
  induction list with
  | nil => simp [List.forM_nil, pure_eq_ok]
  | cons head tail inductionHypothesis =>
      change (run head >>= fun _ => tail.forM run) = _ ↔ _
      rw [bind_eq_ok]
      simp only [List.mem_cons, forall_eq_or_imp]
      constructor
      · rintro ⟨_, ran, rest⟩
        exact ⟨ran, inductionHypothesis.mp rest⟩
      · rintro ⟨ran, rest⟩
        exact ⟨(), ran, inductionHypothesis.mpr rest⟩

/-- A fold succeeds if its first turn and the rest do. -/
theorem foldlM_cons_eq_ok {run : β → α → Except ε β} {head : α} {tail : List α} {start stop : β} :
    (head :: tail).foldlM run start = .ok stop ↔
      ∃ middle, run start head = .ok middle ∧ tail.foldlM run middle = .ok stop := by
  rw [List.foldlM_cons, bind_eq_ok]

theorem foldlM_append_eq_ok {run : β → α → Except ε β} {front back : List α} {start stop : β} :
    (front ++ back).foldlM run start = .ok stop ↔
      ∃ middle, front.foldlM run start = .ok middle ∧ back.foldlM run middle = .ok stop := by
  rw [List.foldlM_append, bind_eq_ok]

/-- What each step of a loop that may fail keeps, a loop that succeeds keeps; a step may rely
on the item being one of the loop's. -/
theorem foldlM_ok_induction (Inv : β → Prop) {run : β → α → Except ε β} {list : List α}
    {start stop : β}
    (keeps : ∀ current, ∀ item ∈ list, ∀ next, Inv current → run current item = .ok next → Inv next)
    (holds : Inv start) (ran : list.foldlM run start = .ok stop) : Inv stop := by
  induction list generalizing start with
  | nil =>
      cases ran
      exact holds
  | cons item items inductionHypothesis =>
      obtain ⟨middle, first, rest⟩ := foldlM_cons_eq_ok.mp ran
      refine inductionHypothesis (fun current other member => ?_)
        (keeps start item List.mem_cons_self middle holds first) rest
      exact keeps current other (List.mem_cons_of_mem _ member)

/-- What a loop that succeeds has reached: the step of one item brings it, from an invariant of
the loop, and no step takes it away. -/
theorem foldlM_ok_reaches (Inv Goal : β → Prop) {run : β → α → Except ε β}
    {list : List α} {item : α}
    {start stop : β} (member : item ∈ list)
    (keeps : ∀ current, ∀ other ∈ list, ∀ next, Inv current →
      run current other = .ok next → Inv next)
    (reaches : ∀ current next, Inv current → run current item = .ok next → Goal next)
    (stays : ∀ current, ∀ other ∈ list, ∀ next, Inv current → Goal current →
      run current other = .ok next → Goal next)
    (holds : Inv start) (ran : list.foldlM run start = .ok stop) : Goal stop := by
  obtain ⟨before, after, rfl⟩ := List.append_of_mem member
  obtain ⟨middle, front, back⟩ := foldlM_append_eq_ok.mp ran
  obtain ⟨next, step, rest⟩ := foldlM_cons_eq_ok.mp back
  have arrived : Inv middle := foldlM_ok_induction Inv
    (fun current other inside => keeps current other (List.mem_append_left _ inside)) holds front
  have both : Inv stop ∧ Goal stop := by
    refine foldlM_ok_induction (fun current => Inv current ∧ Goal current)
      (fun current other inside last held ran => ?_)
      ⟨keeps middle item member next arrived step, reaches middle next arrived step⟩ rest
    have within := List.mem_append_right before (List.mem_cons_of_mem item inside)
    exact ⟨keeps current other within last held.1 ran,
      stays current other within last held.1 held.2 ran⟩
  exact both.2

/-! ### Failures -/

/-- A sequence fails with its first part, or with its second. -/
theorem bind_eq_error {first : Except ε α} {next : α → Except ε β} {failure : ε} :
    (first >>= next) = .error failure ↔
      first = .error failure ∨ ∃ value, first = .ok value ∧ next value = .error failure := by
  cases first with
  | error error => simp [bind, Except.bind]
  | ok value => simp [bind, Except.bind]

/-- A loop fails in its first round that fails. -/
theorem foldlM_eq_error {run : β → α → Except ε β} {list : List α} {start : β} {failure : ε} :
    list.foldlM run start = .error failure ↔
      ∃ before item after middle, list = before ++ item :: after ∧
        before.foldlM run start = .ok middle ∧ run middle item = .error failure := by
  induction list generalizing start with
  | nil => simp [pure, Except.pure]
  | cons head tail inductionHypothesis =>
      rw [List.foldlM_cons, bind_eq_error]
      constructor
      · intro failed
        rcases failed with first | ⟨next, ran, rest⟩
        · exact ⟨[], head, tail, start, rfl, rfl, first⟩
        · obtain ⟨before, item, after, middle, same, earlier, stopped⟩ :=
            inductionHypothesis.mp rest
          exact ⟨head :: before, item, after, middle, by rw [same, List.cons_append],
            foldlM_cons_eq_ok.mpr ⟨next, ran, earlier⟩, stopped⟩
      · intro found
        obtain ⟨before, item, after, middle, same, earlier, stopped⟩ := found
        cases before with
        | nil =>
            cases same
            cases pure_eq_ok.mp earlier
            exact .inl stopped
        | cons first others =>
            cases same
            obtain ⟨next, ran, earlier⟩ := foldlM_cons_eq_ok.mp earlier
            exact .inr ⟨next, ran, inductionHypothesis.mpr
              ⟨others, item, after, middle, rfl, earlier, stopped⟩⟩

/-- What `collect` into an `Option` has collected. -/
theorem exists_of_mem_mapM {parse : α → Option β} {inputs : List α} {values : List β}
    (parsed : inputs.mapM parse = some values) {value : β} (member : value ∈ values) :
    ∃ input ∈ inputs, parse input = some value := by
  induction inputs generalizing values with
  | nil =>
      cases parsed
      cases member
  | cons input inputs inductionHypothesis =>
      rw [List.mapM_cons, Option.bind_eq_bind, Option.bind_eq_some_iff] at parsed
      obtain ⟨first, parsedFirst, parsed⟩ := parsed
      obtain ⟨rest, parsedRest, same⟩ := Option.bind_eq_some_iff.mp parsed
      cases same
      rcases List.mem_cons.mp member with rfl | later
      · exact ⟨input, List.mem_cons_self, parsedFirst⟩
      · obtain ⟨origin, inside, found⟩ := inductionHypothesis parsedRest later
        exact ⟨origin, List.mem_cons_of_mem _ inside, found⟩

/-- A computation without failures of a kind. -/
def Avoids (kind : ε → Prop) (outcome : Except ε α) : Prop :=
  ∀ failure, outcome = .error failure → ¬ kind failure

section Avoids

variable {kind : ε → Prop}

theorem avoids_ok (value : α) : Avoids kind (.ok value : Except ε α) := by
  intro failure impossible
  cases impossible

theorem avoids_bind {first : Except ε α} {next : α → Except ε β} (start : Avoids kind first)
    (rest : ∀ value, first = .ok value → Avoids kind (next value)) :
    Avoids kind (first >>= next) := by
  intro failure failed
  rcases bind_eq_error.mp failed with early | ⟨value, ran, late⟩
  · exact start failure early
  · exact rest value ran failure late

theorem avoids_mapM {run : α → Except ε β} {list : List α}
    (each : ∀ item ∈ list, Avoids kind (run item)) : Avoids kind (list.mapM run) := by
  induction list with
  | nil => exact avoids_ok []
  | cons head tail inductionHypothesis =>
      rw [List.mapM_cons]
      apply avoids_bind (each head List.mem_cons_self)
      intro first _
      apply avoids_bind (inductionHypothesis fun item member =>
        each item (List.mem_cons_of_mem _ member))
      intro rest _
      exact avoids_ok (first :: rest)

theorem avoids_forM {run : α → Except ε Unit} {list : List α}
    (each : ∀ item ∈ list, Avoids kind (run item)) : Avoids kind (list.forM run) := by
  induction list with
  | nil => exact avoids_ok ()
  | cons head tail inductionHypothesis =>
      apply avoids_bind (each head List.mem_cons_self)
      intro _ _
      exact inductionHypothesis fun item member => each item (List.mem_cons_of_mem _ member)

/-- A loop avoids what its body avoids under an invariant. -/
theorem avoids_foldlM {run : β → α → Except ε β} {list : List α} {start : β}
    (invariant : β → Prop) (initial : invariant start)
    (each : ∀ state, invariant state → ∀ item ∈ list, Avoids kind (run state item) ∧
      ∀ next, run state item = .ok next → invariant next) :
    Avoids kind (list.foldlM run start) := by
  induction list generalizing start with
  | nil => exact avoids_ok start
  | cons head tail inductionHypothesis =>
      rw [List.foldlM_cons]
      obtain ⟨avoids, kept⟩ := each start initial head List.mem_cons_self
      apply avoids_bind avoids
      intro next ran
      exact inductionHypothesis (kept next ran) fun state holds item member =>
        each state holds item (List.mem_cons_of_mem _ member)

end Avoids

/-! ### Computations that agree -/

section Agree

variable {ε α β : Type}

/-- Two computations that have one result if both have one. -/
def Agree (one two : Except ε α) : Prop :=
  ∀ left right, one = .ok left → two = .ok right → left = right

theorem Agree.refl (outcome : Except ε α) : Agree outcome outcome := by
  intro left right isLeft isRight
  rw [isLeft] at isRight
  exact Except.ok.inj isRight

theorem Agree.bind {one two : Except ε α} {oneNext twoNext : α → Except ε β}
    (first : Agree one two) (next : ∀ value, Agree (oneNext value) (twoNext value)) :
    Agree (one >>= oneNext) (two >>= twoNext) := by
  intro left right isLeft isRight
  obtain ⟨oneValue, oneRan, oneRest⟩ := bind_eq_ok.mp isLeft
  obtain ⟨twoValue, twoRan, twoRest⟩ := bind_eq_ok.mp isRight
  cases first oneValue twoValue oneRan twoRan
  exact next oneValue left right oneRest twoRest

theorem Agree.mapM {one two : α → Except ε β} {list : List α}
    (each : ∀ item ∈ list, Agree (one item) (two item)) :
    Agree (list.mapM one) (list.mapM two) := by
  induction list with
  | nil => exact Agree.refl _
  | cons head tail inductionHypothesis =>
      rw [List.mapM_cons, List.mapM_cons]
      refine (each head List.mem_cons_self).bind fun first => ?_
      refine (inductionHypothesis fun item member =>
        each item (List.mem_cons_of_mem _ member)).bind fun rest => ?_
      exact Agree.refl _

end Agree

end GitZero.Outcomes
