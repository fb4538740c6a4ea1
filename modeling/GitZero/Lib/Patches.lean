/-
Module: GitZero.Lib.Patches
Purpose: A sequence into which pieces are written at offsets: what is at a position after
  all pieces, and how long it is.
Trusted boundary: none
Main exports: patch, patch_append, patch_eq_self_iff, replay, latest, getElem?_replay,
  length_replay_le_iff
-/
import Mathlib.Data.List.Basic
import Mathlib.Data.List.Infix
import Mathlib.Order.Basic

namespace GitZero.Patches

variable {Item : Type*} (fill : Item)

/-- Write the piece at the offset; a gap before it is filled, and no piece leaves no gap. -/
def patch (content : List Item) (offset : Nat) (piece : List Item) : List Item :=
  if piece = [] then content
  else (content ++ List.replicate (offset - content.length) fill).take offset ++ piece ++
    content.drop (offset + piece.length)

variable {fill} {content piece : List Item} {offset position : Nat}

@[simp] theorem patch_nil : patch fill content offset [] = content := if_pos rfl

theorem patch_of_ne_nil (piece_ne : piece ≠ []) :
    patch fill content offset piece =
      (content ++ List.replicate (offset - content.length) fill).take offset ++ piece ++
        content.drop (offset + piece.length) := if_neg piece_ne

theorem length_front :
    ((content ++ List.replicate (offset - content.length) fill).take offset).length = offset := by
  rw [List.length_take, List.length_append, List.length_replicate]
  omega

theorem length_patch (piece_ne : piece ≠ []) :
    (patch fill content offset piece).length = max content.length (offset + piece.length) := by
  rw [patch_of_ne_nil piece_ne, List.length_append, List.length_append, length_front,
    List.length_drop]
  omega

theorem getElem?_patch_inside (above : offset ≤ position)
    (below : position < offset + piece.length) :
    (patch fill content offset piece)[position]? = piece[position - offset]? := by
  have piece_ne : piece ≠ [] := by
    rintro rfl
    simp only [List.length_nil] at below
    omega
  rw [patch_of_ne_nil piece_ne, List.append_assoc, List.getElem?_append_right
    (by rw [length_front]; exact above), length_front, List.getElem?_append_left (by omega)]

theorem getElem?_patch_outside (inside : position < content.length)
    (outside : position < offset ∨ offset + piece.length ≤ position) :
    (patch fill content offset piece)[position]? = content[position]? := by
  by_cases piece_ne : piece = []
  · rw [piece_ne, patch_nil]
  rw [patch_of_ne_nil piece_ne, List.append_assoc]
  rcases outside with before | behind
  · rw [List.getElem?_append_left (by rw [length_front]; exact before), List.getElem?_take,
      if_pos before, List.getElem?_append_left inside]
  · rw [List.getElem?_append_right (by rw [length_front]; omega), length_front,
      List.getElem?_append_right (by omega), List.getElem?_drop]
    congr 1
    omega

/-- A gap that is not in the content and not in the piece is filled. -/
theorem getElem?_patch_gap (piece_ne : piece ≠ []) (outside : content.length ≤ position)
    (before : position < offset) : (patch fill content offset piece)[position]? = some fill := by
  rw [patch_of_ne_nil piece_ne, List.append_assoc,
    List.getElem?_append_left (by rw [length_front]; exact before), List.getElem?_take,
    if_pos before, List.getElem?_append_right outside, List.getElem?_replicate]
  exact if_pos (by omega)

/-- Two pieces one behind the other are one piece. -/
theorem patch_append (first second : List Item) :
    patch fill (patch fill content offset first) (offset + first.length) second =
      patch fill content offset (first ++ second) := by
  by_cases first_ne : first = []
  · simp [first_ne]
  by_cases second_ne : second = []
  · simp [second_ne]
  have both_ne : first ++ second ≠ [] := by simp [first_ne]
  refine List.ext_getElem? fun position => ?_
  have length : (patch fill content offset first).length =
      max content.length (offset + first.length) := length_patch first_ne
  by_cases inSecond : offset + first.length ≤ position ∧
      position < offset + first.length + second.length
  · rw [getElem?_patch_inside inSecond.1 inSecond.2,
      getElem?_patch_inside (by omega) (by rw [List.length_append]; omega),
      List.getElem?_append_right (by omega)]
    congr 1
    omega
  by_cases inFirst : offset ≤ position ∧ position < offset + first.length
  · rw [getElem?_patch_outside (by omega) (by omega), getElem?_patch_inside inFirst.1 inFirst.2,
      getElem?_patch_inside inFirst.1 (by rw [List.length_append]; omega),
      List.getElem?_append_left (by omega)]
  by_cases inContent : position < content.length
  · rw [getElem?_patch_outside (by omega) (by omega), getElem?_patch_outside inContent (by omega),
      getElem?_patch_outside inContent (by rw [List.length_append]; omega)]
  by_cases gap : position < offset
  · rw [getElem?_patch_outside (by omega) (by omega),
      getElem?_patch_gap first_ne (by omega) gap, getElem?_patch_gap both_ne (by omega) gap]
  · rw [List.getElem?_eq_none, List.getElem?_eq_none]
    · rw [length_patch both_ne, List.length_append]
      omega
    · rw [length_patch second_ne, length]
      omega

/-- A piece changes nothing if and only if it is there already. -/
theorem patch_eq_self_iff : patch fill content offset piece = content ↔
    piece = [] ∨ offset ≤ content.length ∧ piece <+: content.drop offset := by
  by_cases piece_ne : piece = []
  · simp [piece_ne]
  rw [or_iff_right piece_ne]
  constructor
  · intro same
    have length := @length_patch Item fill content piece offset piece_ne
    rw [same] at length
    refine ⟨by omega, ?_⟩
    rw [List.prefix_iff_eq_take]
    refine List.ext_getElem? fun index => ?_
    by_cases inside : index < piece.length
    · rw [List.getElem?_take, if_pos inside, List.getElem?_drop]
      have here : (patch fill content offset piece)[offset + index]? = piece[index]? := by
        rw [getElem?_patch_inside (by omega) (by omega)]
        congr 1
        omega
      rw [← here, same]
    · rw [List.getElem?_eq_none (by omega), List.getElem?_take, if_neg inside]
  · rintro ⟨within, rest, split⟩
    have length : offset + piece.length + rest.length = content.length := by
      have lengths := congrArg List.length split
      rw [List.length_append, List.length_drop] at lengths
      omega
    have behind : content.drop (offset + piece.length) = rest := by
      rw [← List.drop_drop, ← split, List.drop_left]
    rw [patch_of_ne_nil piece_ne, Nat.sub_eq_zero_of_le within, List.replicate_zero,
      List.append_nil, behind, List.append_assoc, split, List.take_append_drop]

section Replay

variable (fill)

/-- All pieces, one after the other, into an empty sequence. -/
def replay (pieces : List (Nat × List Item)) : List Item :=
  pieces.foldl (fun content piece => patch fill content piece.1 piece.2) []

theorem replay_concat (pieces : List (Nat × List Item)) (piece : Nat × List Item) :
    replay fill (pieces ++ [piece]) = patch fill (replay fill pieces) piece.1 piece.2 := by
  rw [replay, List.foldl_append]
  rfl

/-- What the piece has at the position. -/
def covers (position : Nat) (piece : Nat × List Item) : Option Item :=
  if piece.1 ≤ position then piece.2[position - piece.1]? else none

/-- What the last piece that covers the position has there. -/
def latest (pieces : List (Nat × List Item)) (position : Nat) : Option Item :=
  pieces.reverse.findSome? (covers position)

theorem latest_concat (pieces : List (Nat × List Item)) (piece : Nat × List Item)
    (position : Nat) :
    latest (pieces ++ [piece]) position = (covers position piece).or (latest pieces position) := by
  rw [latest, List.reverse_append, List.findSome?_append]
  simp [latest]

theorem covers_isSome_iff {piece : Nat × List Item} :
    (covers position piece).isSome = true ↔
      piece.1 ≤ position ∧ position < piece.1 + piece.2.length := by
  unfold covers
  split
  · next above =>
      rw [← Option.ne_none_iff_isSome, Ne, List.getElem?_eq_none_iff]
      omega
  · next below => simp [below]

theorem latest_isSome_iff {pieces : List (Nat × List Item)} :
    (latest pieces position).isSome = true ↔
      ∃ piece ∈ pieces, piece.1 ≤ position ∧ position < piece.1 + piece.2.length := by
  rw [latest, List.findSome?_isSome_iff]
  simp only [List.mem_reverse, covers_isSome_iff]

/-- The pieces end at the end of the sequence. -/
theorem length_replay_le_iff {pieces : List (Nat × List Item)} {size : Nat}
    (filled : ∀ piece ∈ pieces, piece.2 ≠ []) :
    (replay fill pieces).length ≤ size ↔
      ∀ piece ∈ pieces, piece.1 + piece.2.length ≤ size := by
  induction pieces using List.reverseRecOn with
  | nil => simp [replay]
  | append_singleton pieces piece inductionHypothesis =>
      have earlier := inductionHypothesis fun other member =>
        filled other (List.mem_append_left _ member)
      have last : piece.2 ≠ [] := filled piece (by simp)
      rw [replay_concat, length_patch last, Nat.max_le, earlier]
      simp [or_imp, forall_and]

/-- At a position that is covered there is what the last piece over it has. -/
theorem getElem?_replay {pieces : List (Nat × List Item)} {item : Item}
    (covered : latest pieces position = some item) :
    (replay fill pieces)[position]? = some item := by
  induction pieces using List.reverseRecOn with
  | nil => cases covered
  | append_singleton pieces piece inductionHypothesis =>
      rw [latest_concat] at covered
      rw [replay_concat]
      cases here : covers position piece with
      | some found =>
          have within := covers_isSome_iff.mp (by rw [here]; rfl)
          rw [here, Option.some_or] at covered
          rw [getElem?_patch_inside within.1 within.2, ← covered, ← here, covers, if_pos within.1]
      | none =>
          rw [here, Option.none_or] at covered
          have before := inductionHypothesis covered
          have outside : ¬ (piece.1 ≤ position ∧ position < piece.1 + piece.2.length) := by
            rw [← covers_isSome_iff, here]
            exact Bool.false_ne_true
          rw [getElem?_patch_outside (List.getElem?_eq_some_iff.mp before).1 (by omega)]
          exact before

end Replay

end GitZero.Patches
