/-
Module: GitZero.Lib.Table
Purpose: Relational tables as row lists: `UPDATE .. WHERE`, `DELETE .. WHERE`
  and primary-key lookup, with the frame and invariant rules of each.
Trusted boundary: none
Main exports: update, delete, row, forall_update, row_update, Ordered,
  find?_least
-/
import Mathlib.Data.List.Basic
import Mathlib.Data.List.Nodup

namespace GitZero.Table

variable {Row Key : Type*}

/-- `UPDATE rows SET .. WHERE ..`; row order is kept. -/
def update (rows : List Row) (selected : Row → Bool) (set : Row → Row) : List Row :=
  rows.map fun row => if selected row then set row else row

/-- `DELETE FROM rows WHERE ..`. -/
def delete (rows : List Row) (selected : Row → Bool) : List Row :=
  rows.filter fun row => !selected row

/-- Primary-key lookup. -/
def row [DecidableEq Key] (key : Row → Key) (rows : List Row) (wanted : Key) : Option Row :=
  rows.find? fun row => key row = wanted

theorem mem_update {rows : List Row} {selected : Row → Bool} {set : Row → Row} {new : Row} :
    new ∈ update rows selected set ↔
      ∃ old ∈ rows, (if selected old then set old else old) = new := by
  simp [update]

theorem mem_delete {rows : List Row} {selected : Row → Bool} {kept : Row} :
    kept ∈ delete rows selected ↔ kept ∈ rows ∧ selected kept = false := by
  simp [delete]

/-- Row invariants survive an update when the assigned rows meet them. -/
theorem forall_update {rows : List Row} {selected : Row → Bool} {set : Row → Row}
    {Inv : Row → Prop} (before : ∀ old ∈ rows, Inv old)
    (assigned : ∀ old ∈ rows, selected old → Inv old → Inv (set old)) :
    ∀ new ∈ update rows selected set, Inv new := by
  intro new member
  obtain ⟨old, present, rfl⟩ := mem_update.mp member
  split
  · exact assigned old present ‹_› (before old present)
  · exact before old present

theorem update_unselected {rows : List Row} {selected : Row → Bool} {set : Row → Row}
    (none : ∀ row ∈ rows, selected row = false) : update rows selected set = rows := by
  refine (List.map_congr_left fun row member => ?_).trans (List.map_id rows)
  rw [none row member]
  rfl

theorem forall_delete {rows : List Row} {selected : Row → Bool} {Inv : Row → Prop}
    (before : ∀ old ∈ rows, Inv old) : ∀ kept ∈ delete rows selected, Inv kept :=
  fun kept member => before kept (mem_delete.mp member).1

/-- An update that keeps the key column keeps the list of keys. -/
theorem map_key_update {rows : List Row} {selected : Row → Bool} {set : Row → Row}
    {key : Row → Key} (keeps : ∀ old ∈ rows, selected old = true → key (set old) = key old) :
    (update rows selected set).map key = rows.map key := by
  simp only [update, List.map_map]
  refine List.map_congr_left fun old member => ?_
  simp only [Function.comp_apply]
  split
  · next picked => exact keeps old member picked
  · rfl

theorem nodup_key_update {rows : List Row} {selected : Row → Bool} {set : Row → Row}
    {key : Row → Key} (keeps : ∀ old ∈ rows, selected old = true → key (set old) = key old)
    (distinct : (rows.map key).Nodup) : ((update rows selected set).map key).Nodup := by
  rwa [map_key_update keeps]

/-- Updating rows that are deleted next is the same as deleting them. -/
theorem delete_update {rows : List Row} {selected gone : Row → Bool} {set : Row → Row}
    (doomed : ∀ row, selected row = true → gone row = true ∧ gone (set row) = true) :
    delete (update rows selected set) gone = delete rows gone := by
  induction rows with
  | nil => rfl
  | cons head tail inductionHypothesis =>
      simp only [delete, update] at inductionHypothesis ⊢
      rw [List.map_cons, List.filter_cons, List.filter_cons, inductionHypothesis]
      by_cases picked : selected head = true
      · obtain ⟨before, after⟩ := doomed head picked
        simp [picked, before, after]
      · simp [picked]

theorem nodup_key_append {rows : List Row} {key : Row → Key} {new : Row}
    (distinct : (rows.map key).Nodup) (fresh : ∀ row ∈ rows, key row ≠ key new) :
    ((rows ++ [new]).map key).Nodup := by
  rw [List.map_append, List.nodup_append]
  refine ⟨distinct, by simp, ?_⟩
  intro old present other isNew
  obtain ⟨row, member, rfl⟩ := List.mem_map.mp present
  simp only [List.map_cons, List.map_nil, List.mem_singleton] at isNew
  exact isNew ▸ fresh row member

theorem nodup_key_delete {rows : List Row} {selected : Row → Bool} {key : Row → Key}
    (distinct : (rows.map key).Nodup) : ((delete rows selected).map key).Nodup :=
  distinct.sublist (List.filter_sublist.map key)

section Lookup

variable [DecidableEq Key] {key : Row → Key}

theorem row_mem {rows : List Row} {wanted : Key} {found : Row}
    (lookup : row key rows wanted = some found) : found ∈ rows :=
  List.mem_of_find?_eq_some lookup

theorem row_key {rows : List Row} {wanted : Key} {found : Row}
    (lookup : row key rows wanted = some found) : key found = wanted := by
  simpa using List.find?_some lookup

theorem row_eq_none {rows : List Row} {wanted : Key} :
    row key rows wanted = none ↔ ∀ old ∈ rows, key old ≠ wanted := by
  simp [row]

/-- With a unique key, membership and lookup agree. -/
theorem row_of_mem {rows : List Row} (distinct : (rows.map key).Nodup) {found : Row}
    (member : found ∈ rows) : row key rows (key found) = some found := by
  induction rows with
  | nil => simp at member
  | cons head tail inductionHypothesis =>
      rw [List.map_cons, List.nodup_cons] at distinct
      rcases List.mem_cons.mp member with rfl | later
      · simp [row]
      · have apart : key head ≠ key found := by
          intro same
          exact distinct.1 (same ▸ List.mem_map_of_mem later)
        rw [row, List.find?_cons_of_neg (by simpa using apart)]
        exact inductionHypothesis distinct.2 later

/-- An update that keeps the key column acts on each looked-up row. -/
theorem row_update {rows : List Row} {selected : Row → Bool} {set : Row → Row}
    (keeps : ∀ old, key (set old) = key old) (wanted : Key) :
    row key (update rows selected set) wanted =
      (row key rows wanted).map fun old => if selected old then set old else old := by
  have stable : ∀ old, key (if selected old then set old else old) = key old := by
    intro old
    split
    · exact keeps old
    · rfl
  simp only [row, update, List.find?_map]
  congr 2
  funext old
  simp [stable]

end Lookup

theorem nodup_eraseDups {α : Type} [BEq α] [LawfulBEq α] (items : List α) :
    items.eraseDups.Nodup := by
  match items with
  | [] => exact List.nodup_nil
  | first :: rest =>
      rw [List.eraseDups_cons, List.nodup_cons]
      refine ⟨?_, nodup_eraseDups _⟩
      rw [List.mem_eraseDups, List.mem_filter]
      rintro ⟨_, differs⟩
      simp at differs
termination_by items.length
decreasing_by
  simp only [List.length_cons]
  exact Nat.lt_succ_of_le (List.length_filter_le _ _)

/-! ### Rows in the order of a column -/

/-- The rows stand in the order of the column `rank`, as `ORDER BY rank` returns them. -/
def Ordered (rank : Row → Nat) (rows : List Row) : Prop := (rows.map rank).Pairwise (· < ·)

theorem ordered_delete {rank : Row → Nat} {rows : List Row} {selected : Row → Bool}
    (ordered : Ordered rank rows) : Ordered rank (delete rows selected) :=
  ordered.sublist (List.filter_sublist.map rank)

theorem ordered_update {rank : Row → Nat} {rows : List Row} {selected : Row → Bool}
    {set : Row → Row} (keeps : ∀ old ∈ rows, selected old = true → rank (set old) = rank old)
    (ordered : Ordered rank rows) : Ordered rank (update rows selected set) := by
  unfold Ordered
  rwa [map_key_update keeps]

theorem ordered_append {rank : Row → Nat} {rows : List Row} {new : Row}
    (ordered : Ordered rank rows) (later : ∀ row ∈ rows, rank row < rank new) :
    Ordered rank (rows ++ [new]) := by
  unfold Ordered
  rw [List.map_append, List.pairwise_append]
  refine ⟨ordered, List.pairwise_singleton _ _, ?_⟩
  intro first member last isNew
  obtain ⟨row, present, rfl⟩ := List.mem_map.mp member
  rw [List.mem_singleton.mp isNew]
  exact later row present

/-- `ORDER BY rank LIMIT 1` returns the selected row with the least rank. -/
theorem find?_least {rank : Row → Nat} {rows : List Row} {selected : Row → Bool} {found : Row}
    (ordered : Ordered rank rows) (first : rows.find? selected = some found) :
    ∀ other ∈ rows, selected other = true → other = found ∨ rank found < rank other := by
  intro other member chosen
  obtain ⟨-, before, after, rfl, skipped⟩ := List.find?_eq_some_iff_append.mp first
  rcases List.mem_append.mp member with earlier | rest
  · have passed := skipped other earlier
    rw [chosen] at passed
    cases passed
  · rcases List.mem_cons.mp rest with same | later
    · exact .inl same
    · unfold Ordered at ordered
      rw [List.map_append, List.map_cons, List.pairwise_append, List.pairwise_cons] at ordered
      exact .inr (ordered.2.1.1 _ (List.mem_map_of_mem later))

/-- At most one row is selected when any two selected rows are the same row. -/
theorem countP_le_one {key : Row → Key} {rows : List Row} {selected : Row → Bool}
    (distinct : (rows.map key).Nodup)
    (alone : ∀ first ∈ rows, ∀ second ∈ rows, selected first = true → selected second = true →
      first = second) : rows.countP selected ≤ 1 := by
  induction rows with
  | nil => exact Nat.zero_le 1
  | cons row rows inductionHypothesis =>
      rw [List.map_cons, List.nodup_cons] at distinct
      by_cases chosen : selected row = true
      · have others : rows.countP selected = 0 := by
          rw [List.countP_eq_zero]
          intro other member also
          have same := alone row List.mem_cons_self other (List.mem_cons_of_mem _ member) chosen
            also
          exact distinct.1 (same ▸ List.mem_map_of_mem member)
        exact Nat.le_of_eq (by rw [List.countP_cons_of_pos chosen, others])
      · rw [List.countP_cons_of_neg chosen]
        refine inductionHypothesis distinct.2 fun first one second two => ?_
        exact alone first (List.mem_cons_of_mem _ one) second (List.mem_cons_of_mem _ two)

end GitZero.Table
