/-
Module: GitZero.Lib.DepthFirst
Purpose: Depth-first search for a cycle in a graph of dependencies, with two marks:
  a node is open while its dependencies are visited and done afterwards.
Trusted boundary: none
Main exports: Mark, Obstacle, visit, visitAll, DependsOn, visitAll_acc,
  visitAll_obstacle, not_transGen_self_of_acc
-/
import Mathlib.Data.Finset.Card
import Mathlib.Logic.Function.Basic
import Mathlib.Logic.Relation

namespace GitZero.DepthFirst

/-- A node that the search is inside of, or has left. -/
inductive Mark where
  | active | done
deriving Repr, DecidableEq

/-- Why a search stops early: a node that is still open is met again, a node is not in
the graph, or the depth bound is reached. -/
inductive Obstacle (κ : Type) where
  | cycle (node : κ)
  | missing (node : κ)
  | exhausted
deriving Repr, DecidableEq

variable {κ : Type} [DecidableEq κ]

/-- The marks of a search so far. -/
abbrev Marks (κ : Type) := κ → Option Mark

/-- The search from one node; `fuel` bounds the depth. -/
def visit (graph : κ → Option (List κ)) : Nat → Marks κ → κ → Except (Obstacle κ) (Marks κ)
  | 0, _, _ => .error .exhausted
  | fuel + 1, marks, node =>
      match marks node with
      | some .active => .error (.cycle node)
      | some .done => .ok marks
      | none =>
          match graph node with
          | none => .error (.missing node)
          | some dependencies =>
              match dependencies.foldlM (visit graph fuel)
                  (Function.update marks node (some .active)) with
              | .error obstacle => .error obstacle
              | .ok marks => .ok (Function.update marks node (some .done))

/-- Visits every listed node; the depth bound is more than the number of nodes. -/
def visitAll (graph : κ → Option (List κ)) (nodes : List κ) : Except (Obstacle κ) (Marks κ) :=
  nodes.foldlM (visit graph (nodes.length + 1)) (fun _ => none)

/-- `DependsOn graph dependency node`: the node lists the dependency. -/
def DependsOn (graph : κ → Option (List κ)) (dependency node : κ) : Prop :=
  ∃ dependencies, graph node = some dependencies ∧ dependency ∈ dependencies

section Soundness

variable {graph : κ → Option (List κ)}

/-- Nodes that are done have a well-founded history of dependencies. -/
def Settled (graph : κ → Option (List κ)) (marks : Marks κ) : Prop :=
  ∀ node, marks node = some .done → Acc (DependsOn graph) node

/-- What a successful visit does to the marks. -/
structure Visits (graph : κ → Option (List κ)) (marks after : Marks κ) : Prop where
  settled : Settled graph marks → Settled graph after
  keeps : ∀ node, marks node = some .done → after node = some .done

omit [DecidableEq κ] in
theorem Visits.refl (marks : Marks κ) : Visits graph marks marks :=
  ⟨fun settled => settled, fun _ done => done⟩

omit [DecidableEq κ] in
theorem Visits.trans {first second third : Marks κ} (one : Visits graph first second)
    (two : Visits graph second third) : Visits graph first third :=
  ⟨fun settled => two.settled (one.settled settled),
    fun node done => two.keeps node (one.keeps node done)⟩

/-- Visiting a list of nodes leaves every one of them done. -/
theorem foldlM_visits {fuel : Nat}
    (step : ∀ marks after node, visit graph fuel marks node = .ok after →
      Visits graph marks after ∧ after node = some .done)
    {nodes : List κ} {marks after : Marks κ}
    (ran : nodes.foldlM (visit graph fuel) marks = .ok after) :
    Visits graph marks after ∧ ∀ node ∈ nodes, after node = some .done := by
  induction nodes generalizing marks with
  | nil =>
      cases ran
      exact ⟨Visits.refl _, by simp⟩
  | cons node rest inductionHypothesis =>
      rw [List.foldlM_cons] at ran
      cases first : visit graph fuel marks node with
      | error obstacle => simp [first, bind, Except.bind] at ran
      | ok middle =>
          simp only [first, bind, Except.bind] at ran
          obtain ⟨visits, done⟩ := step marks middle node first
          obtain ⟨later, others⟩ := inductionHypothesis ran
          refine ⟨visits.trans later, ?_⟩
          intro other member
          cases List.mem_cons.mp member with
          | inl same => exact same ▸ later.keeps node done
          | inr behind => exact others other behind

theorem visit_visits {fuel : Nat} {marks after : Marks κ} {node : κ}
    (ran : visit graph fuel marks node = .ok after) :
    Visits graph marks after ∧ after node = some .done := by
  induction fuel generalizing marks after node with
  | zero => cases ran
  | succ fuel inductionHypothesis =>
      unfold visit at ran
      split at ran
      · cases ran
      · next done =>
          cases ran
          exact ⟨Visits.refl _, done⟩
      · next fresh =>
          split at ran
          · cases ran
          · next dependencies listed =>
              split at ran
              · cases ran
              · next middle searched =>
                  cases ran
                  obtain ⟨visits, all⟩ :=
                    foldlM_visits (fun _ _ _ ran => inductionHypothesis ran) searched
                  refine ⟨⟨?_, ?_⟩, Function.update_self ..⟩
                  · intro settled
                    have opened : Settled graph (Function.update marks node (some .active)) := by
                      intro other done
                      by_cases same : other = node
                      · simp [same] at done
                      · exact settled other (by simpa [same] using done)
                    intro other done
                    by_cases same : other = node
                    · subst same
                      refine Acc.intro other fun dependency depends => ?_
                      obtain ⟨list, found, member⟩ := depends
                      cases found.symm.trans listed
                      exact visits.settled opened dependency (all dependency member)
                    · exact visits.settled opened other (by simpa [same] using done)
                  · intro other done
                    by_cases same : other = node
                    · simp [same]
                    · have kept := visits.keeps other (by simpa [same] using done)
                      simpa [same] using kept

/-- A search that ends finds a well-founded graph. -/
theorem visitAll_acc {nodes : List κ} {after : Marks κ} (ran : visitAll graph nodes = .ok after) :
    ∀ node ∈ nodes, Acc (DependsOn graph) node := by
  obtain ⟨visits, done⟩ := foldlM_visits (fun _ _ _ ran => visit_visits ran) ran
  intro node member
  exact visits.settled (fun _ impossible => by cases impossible) node (done node member)

/-- An accessible node is on no cycle. -/
theorem not_transGen_self_of_acc {α : Type} {r : α → α → Prop} {node : α} (acc : Acc r node) :
    ¬ Relation.TransGen r node node := by
  intro loop
  have transitive : Acc (Relation.TransGen r) node := Acc.transGen acc
  induction transitive with
  | intro node _ inductionHypothesis => exact inductionHypothesis node loop acc loop

end Soundness

section Obstacles

variable {graph : κ → Option (List κ)} {nodes : Finset κ}

/-- The listed nodes that carry no mark yet. -/
def fresh (nodes : Finset κ) (marks : Marks κ) : Finset κ :=
  nodes.filter fun node => marks node = none

/-- The outcome of a search over a graph whose edges stay among the nodes. -/
def Bounded (nodes : Finset κ) (marks : Marks κ) : Except (Obstacle κ) (Marks κ) → Prop
  | .ok after => fresh nodes after ⊆ fresh nodes marks
  | .error obstacle => ∃ node, obstacle = .cycle node

theorem fresh_update_subset (marks : Marks κ) (node : κ) (mark : Mark) :
    fresh nodes (Function.update marks node (some mark)) ⊆ fresh nodes marks := by
  intro other member
  simp only [fresh, Finset.mem_filter] at member ⊢
  by_cases same : other = node
  · simp [same] at member
  · simpa [same] using member

theorem card_fresh_update_lt {marks : Marks κ} {node : κ} (member : node ∈ nodes)
    (unmarked : marks node = none) (mark : Mark) :
    (fresh nodes (Function.update marks node (some mark))).card < (fresh nodes marks).card := by
  apply Finset.card_lt_card
  refine ⟨fresh_update_subset marks node mark, ?_⟩
  intro subset
  have inside : node ∈ fresh nodes marks := by simp [fresh, member, unmarked]
  have outside := subset inside
  simp [fresh] at outside

theorem foldlM_bounded {fuel : Nat} {list : List κ}
    (step : ∀ marks, (fresh nodes marks).card < fuel → ∀ node ∈ nodes,
      Bounded nodes marks (visit graph fuel marks node))
    (among : ∀ node ∈ list, node ∈ nodes) (marks : Marks κ)
    (bound : (fresh nodes marks).card < fuel) :
    Bounded nodes marks (list.foldlM (visit graph fuel) marks) := by
  induction list generalizing marks with
  | nil => exact subset_rfl
  | cons node rest inductionHypothesis =>
      rw [List.foldlM_cons]
      have first := step marks bound node (among node List.mem_cons_self)
      cases visited : visit graph fuel marks node with
      | error obstacle => simpa [visited, bind, Except.bind, Bounded] using first
      | ok middle =>
          rw [visited] at first
          have smaller := Finset.card_le_card first
          have later := inductionHypothesis
            (fun node member => among node (List.mem_cons_of_mem _ member)) middle (by omega)
          simp only [bind, Except.bind]
          cases searched : rest.foldlM (visit graph fuel) middle with
          | error obstacle => simpa [searched, Bounded] using later
          | ok after =>
              rw [searched] at later
              exact later.trans first

theorem visit_bounded
    (closed : ∀ node ∈ nodes, ∃ dependencies, graph node = some dependencies ∧
      ∀ dependency ∈ dependencies, dependency ∈ nodes)
    {fuel : Nat} {marks : Marks κ} (bound : (fresh nodes marks).card < fuel) {node : κ}
    (member : node ∈ nodes) : Bounded nodes marks (visit graph fuel marks node) := by
  induction fuel generalizing marks node with
  | zero => omega
  | succ fuel inductionHypothesis =>
      unfold visit
      split
      · exact ⟨node, rfl⟩
      · exact subset_rfl
      · next unmarked =>
          obtain ⟨dependencies, listed, inside⟩ := closed node member
          rw [listed]
          have smaller := card_fresh_update_lt member unmarked .active
          have searched := foldlM_bounded
            (fun marks bound node member => inductionHypothesis bound member) inside
            (Function.update marks node (some .active)) (by omega)
          dsimp only
          split
          · next obstacle failed =>
              rw [failed] at searched
              exact searched
          · next middle ran =>
              rw [ran] at searched
              exact (fresh_update_subset middle node .done).trans
                (searched.trans (fresh_update_subset marks node .active))

/-- Over a closed graph the only obstacle is a cycle. -/
theorem visitAll_obstacle {list : List κ}
    (closed : ∀ node ∈ list, ∃ dependencies, graph node = some dependencies ∧
      ∀ dependency ∈ dependencies, dependency ∈ list)
    {obstacle : Obstacle κ} (stopped : visitAll graph list = .error obstacle) :
    ∃ node, obstacle = .cycle node := by
  have size : (fresh list.toFinset fun _ => none).card < list.length + 1 :=
    Nat.lt_succ_of_le ((Finset.card_filter_le _ _).trans list.toFinset_card_le)
  have searched := foldlM_bounded
    (fun marks bound node member => visit_bounded (by simpa using closed) bound member)
    (fun node member => List.mem_toFinset.mpr member) (fun _ => none) size
  unfold visitAll at stopped
  rw [stopped] at searched
  exact searched

end Obstacles

end GitZero.DepthFirst
