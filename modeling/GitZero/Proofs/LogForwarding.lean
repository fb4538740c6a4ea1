/-
Module: GitZero.Proofs.LogForwarding
Purpose: When the output of a process is processed as if it came line by line.
Trusted boundary: none
Main exports: chunkBytes, fillChunks_eq, Pieces, Forwarding.line, Intact, forwards_lines,
  long_line_resumes_commands
-/
import GitZero.Lib.Machine
import GitZero.Proofs.CommandLines

namespace GitZero.Agent.CommandProcessor

open Expression (Text)
open Commands
open ProblemMatchers (Regexes Files)

/-! ### Chunks -/

theorem maxLogChunkBytes_pos : 0 < maxLogChunkBytes := by decide

/-- The same chunks, cut one byte at a time. -/
def chunkBytes (pending : Bytes) : Bytes → List Bytes × Bytes
  | [] => ([], pending)
  | byte :: rest =>
      if byte = lineFeed ∨ pending.length + 1 = maxLogChunkBytes then
        ((pending ++ [byte]) :: (chunkBytes [] rest).1, (chunkBytes [] rest).2)
      else chunkBytes (pending ++ [byte]) rest

/-- Bytes that neither end a line nor fill a chunk stay pending. -/
theorem chunkBytes_pending {pending run : Bytes} (rest : Bytes)
    (inLine : ∀ byte ∈ run, byte ≠ lineFeed)
    (short : pending.length + run.length < maxLogChunkBytes) :
    chunkBytes pending (run ++ rest) = chunkBytes (pending ++ run) rest := by
  induction run generalizing pending with
  | nil => rw [List.nil_append, List.append_nil]
  | cons byte run inductionHypothesis =>
      rw [List.length_cons] at short
      have goesOn : ¬ (byte = lineFeed ∨ pending.length + 1 = maxLogChunkBytes) := by
        rintro (isFeed | full)
        · exact inLine byte List.mem_cons_self isFeed
        · omega
      rw [List.cons_append, chunkBytes, if_neg goesOn, inductionHypothesis, List.append_assoc,
        List.singleton_append]
      · exact fun other member => inLine other (List.mem_cons_of_mem _ member)
      · rw [List.length_append, List.length_singleton]
        omega

/-- A byte that ends a line or fills a chunk completes the chunk. -/
theorem chunkBytes_ready {pending run : Bytes} {last : UInt8} (rest : Bytes)
    (inLine : ∀ byte ∈ run, byte ≠ lineFeed)
    (short : pending.length + run.length < maxLogChunkBytes)
    (ends : last = lineFeed ∨ pending.length + run.length + 1 = maxLogChunkBytes) :
    chunkBytes pending (run ++ last :: rest) =
      ((pending ++ run ++ [last]) :: (chunkBytes [] rest).1, (chunkBytes [] rest).2) := by
  rw [chunkBytes_pending (last :: rest) inLine short, chunkBytes, if_pos]
  rw [List.length_append]
  exact ends

theorem chunkBytes_append (pending one two : Bytes) :
    chunkBytes pending (one ++ two) =
      ((chunkBytes pending one).1 ++ (chunkBytes (chunkBytes pending one).2 two).1,
        (chunkBytes (chunkBytes pending one).2 two).2) := by
  induction one generalizing pending with
  | nil => rfl
  | cons byte one inductionHypothesis =>
      rw [List.cons_append, chunkBytes, chunkBytes]
      split
      · rw [inductionHypothesis, List.cons_append]
      · exact inductionHypothesis _

theorem chunkBytes_short {pending : Bytes} (short : pending.length < maxLogChunkBytes)
    (bytes : Bytes) : (chunkBytes pending bytes).2.length < maxLogChunkBytes := by
  induction bytes generalizing pending with
  | nil => exact short
  | cons byte bytes inductionHypothesis =>
      rw [chunkBytes]
      split
      · exact inductionHypothesis maxLogChunkBytes_pos
      · rename_i goesOn
        apply inductionHypothesis
        rw [List.length_append, List.length_singleton]
        exact Nat.lt_of_le_of_ne short (not_or.mp goesOn).2

/-- The first line feed, if there is one. -/
theorem lineFeed_cases (available : Bytes) :
    (available.idxOf? lineFeed = none ∧ ∀ byte ∈ available, byte ≠ lineFeed) ∨
      ∃ front back, available = front ++ lineFeed :: back ∧
        available.idxOf? lineFeed = some front.length ∧ ∀ byte ∈ front, byte ≠ lineFeed := by
  induction available with
  | nil => exact .inl ⟨rfl, fun byte member => nomatch member⟩
  | cons byte available inductionHypothesis =>
      rw [List.idxOf?_cons]
      by_cases isFeed : byte = lineFeed
      · subst isFeed
        exact .inr ⟨[], available, rfl, by simp, fun byte member => nomatch member⟩
      · rw [if_neg (by simpa using isFeed)]
        rcases inductionHypothesis with ⟨none, inLine⟩ | ⟨front, back, same, found, inLine⟩
        · rw [none]
          exact .inl ⟨rfl, List.forall_mem_cons.mpr ⟨isFeed, inLine⟩⟩
        · rw [found]
          exact .inr ⟨byte :: front, back, by rw [same, List.cons_append], rfl,
            List.forall_mem_cons.mpr ⟨isFeed, inLine⟩⟩

/-- How far the loop copies in one go: to the end of the bytes, behind a line feed or until
the chunk is full. -/
theorem copied_cases {pending available : Bytes} (short : pending.length < maxLogChunkBytes)
    (some : available ≠ []) :
    let newline := available.idxOf? lineFeed
    let throughNewline := (newline.map (· + 1)).getD available.length
    let take := min throughNewline (maxLogChunkBytes - pending.length)
    take ≠ 0 ∧
      ((take = available.length ∧ newline = none ∧ (∀ byte ∈ available, byte ≠ lineFeed) ∧
          pending.length + available.length < maxLogChunkBytes) ∨
        ∃ run last rest, available = run ++ last :: rest ∧ take = run.length + 1 ∧
          (∀ byte ∈ run, byte ≠ lineFeed) ∧ pending.length + run.length < maxLogChunkBytes ∧
          (last = lineFeed ∨ pending.length + run.length + 1 = maxLogChunkBytes) ∧
          (pending.length + take = maxLogChunkBytes ∨
            (newline.isSome ∧ take = throughNewline))) := by
  intro newline throughNewline take
  have positive := List.length_pos_of_ne_nil some
  -- A chunk that a run of bytes fills.
  have full : ∀ front back, available = front ++ back → (∀ byte ∈ front, byte ≠ lineFeed) →
      maxLogChunkBytes - pending.length ≤ front.length →
      take = maxLogChunkBytes - pending.length →
      ∃ run last rest, available = run ++ last :: rest ∧ take = run.length + 1 ∧
        (∀ byte ∈ run, byte ≠ lineFeed) ∧ pending.length + run.length < maxLogChunkBytes ∧
        (last = lineFeed ∨ pending.length + run.length + 1 = maxLogChunkBytes) ∧
        (pending.length + take = maxLogChunkBytes ∨
          (newline.isSome ∧ take = throughNewline)) := by
    intro front back same inLine long isTake
    have inside : maxLogChunkBytes - pending.length - 1 < front.length := by omega
    have cut := List.take_append_drop (maxLogChunkBytes - pending.length - 1) front
    rw [List.drop_eq_getElem_cons inside] at cut
    have length : (front.take (maxLogChunkBytes - pending.length - 1)).length =
        maxLogChunkBytes - pending.length - 1 :=
      List.length_take.trans (Nat.min_eq_left (Nat.le_of_lt inside))
    refine ⟨front.take (maxLogChunkBytes - pending.length - 1),
      front[maxLogChunkBytes - pending.length - 1],
      front.drop (maxLogChunkBytes - pending.length - 1 + 1) ++ back, ?_, ?_, ?_, ?_,
      .inr ?_, .inl ?_⟩
    · rw [same, ← List.cons_append, ← List.append_assoc, cut]
    · omega
    · exact fun byte member => inLine byte (List.mem_of_mem_take member)
    · omega
    · omega
    · omega
  rcases lineFeed_cases available with ⟨none, inLine⟩ | ⟨front, back, same, found, inLine⟩
  · have isNone : newline = Option.none := none
    have isThrough : throughNewline = available.length := by
      simp only [throughNewline, isNone, Option.map_none, Option.getD_none]
    refine ⟨by omega, ?_⟩
    by_cases fits : available.length < maxLogChunkBytes - pending.length
    · exact .inl ⟨by omega, isNone, inLine, by omega⟩
    · exact .inr (full available [] (List.append_nil _).symm inLine (by omega) (by omega))
  · have isSome : newline = Option.some front.length := found
    have isThrough : throughNewline = front.length + 1 := by
      simp only [throughNewline, isSome, Option.map_some, Option.getD_some]
    refine ⟨by omega, .inr ?_⟩
    by_cases fits : front.length + 1 ≤ maxLogChunkBytes - pending.length
    · refine ⟨front, lineFeed, back, same, by omega, inLine, by omega, .inl rfl, .inr ⟨?_, ?_⟩⟩
      · rw [isSome]
        rfl
      · omega
    · exact full front (lineFeed :: back) same inLine (by omega) (by omega)

/-- The loop over the available bytes cuts them as one byte at a time would. -/
theorem fillChunks_eq {pending : Bytes} (short : pending.length < maxLogChunkBytes)
    (available : Bytes) : fillChunks pending available = chunkBytes pending available := by
  induction size : available.length using Nat.strong_induction_on generalizing pending
    available with
  | _ count inductionHypothesis =>
      rw [fillChunks]
      split
      · rename_i empty
        rw [empty, chunkBytes]
      · rename_i some
        have copied := copied_cases short some
        dsimp only at copied ⊢
        obtain ⟨goesOn, ⟨isTake, isNone, inLine, fits⟩ |
          ⟨run, last, rest, same, isTake, inLine, fits, ends, flush⟩⟩ := copied
        · have filled : (pending ++ available).length < maxLogChunkBytes := by
            rw [List.length_append]
            exact fits
          have pends := chunkBytes_pending [] inLine fits
          rw [List.append_nil, chunkBytes] at pends
          rw [dif_neg goesOn, isTake, isNone, List.take_length, List.drop_length, if_neg, pends,
            fillChunks, dif_pos rfl]
          simpa using filled.ne
        · have whole : available.take (run.length + 1) = run ++ [last] := by
            rw [same, List.take_append]
            simp
          have behind : available.drop (run.length + 1) = rest := by
            rw [same, List.drop_append]
            simp
          have ready : ((pending ++ (run ++ [last])).length = maxLogChunkBytes ∨
              (List.idxOf? lineFeed available).isSome = true ∧ run.length + 1 =
                ((List.idxOf? lineFeed available).map (· + 1)).getD available.length) := by
            rw [isTake] at flush
            simpa [Nat.add_assoc] using flush
          have smaller : rest.length < count := by
            rw [← size, same, List.length_append, List.length_cons]
            omega
          have none : ([] : Bytes).length < maxLogChunkBytes := maxLogChunkBytes_pos
          have others := inductionHypothesis _ smaller none rest rfl
          rw [dif_neg goesOn, isTake, whole, behind, if_pos (by simpa using ready), others, same,
            chunkBytes_ready rest inLine fits ends, List.append_assoc]

section Forwarding

variable [Regexes] [Files] [MatcherFiles] {stepId : String} {stream : LogStream}

/-- However the reads split the output, its chunks are forwarded. -/
theorem reads_eq (state : Forwarding) {pending : Bytes}
    (short : pending.length < maxLogChunkBytes) (reads : List Bytes) :
    Forwarding.reads stepId stream state pending reads =
      Forwarding.finish stepId stream
        ((chunkBytes pending reads.flatten).1.foldl (Forwarding.chunk stepId stream) state)
        (chunkBytes pending reads.flatten).2 := by
  induction reads generalizing state pending with
  | nil => rfl
  | cons available reads inductionHypothesis =>
      rw [Forwarding.reads, fillChunks_eq short]
      dsimp only
      rw [inductionHypothesis _ (chunkBytes_short short available), List.flatten_cons,
        chunkBytes_append, List.foldl_append]

end Forwarding

/-! ### Encodings -/

theorem encode_append (one two : Text) : encode (one ++ two) = encode one ++ encode two :=
  List.flatMap_append

theorem length_encode (text : Text) : (encode text).length = byteLength text := by
  induction text with
  | nil => rfl
  | cons char text inductionHypothesis =>
      rw [encode, List.flatMap_cons, List.length_append, String.length_utf8EncodeChar, ← encode,
        inductionHypothesis, byteLength, byteLength, List.map_cons, List.sum_cons]

theorem decodeFirst_encode (char : Char) (rest : Bytes) :
    decodeFirst (String.utf8EncodeChar char ++ rest) = some char := by
  rw [decodeFirst, List.toByteArray_append]
  exact ByteArray.utf8DecodeChar?_utf8EncodeChar_append

theorem encode_cons_ne_nil (char : Char) (text : Text) : encode (char :: text) ≠ [] := by
  intro empty
  have length := length_encode (char :: text)
  rw [empty, byteLength, List.map_cons, List.sum_cons] at length
  have positive := char.utf8Size_pos
  simp only [List.length_nil] at length
  omega

/-- Valid output is decoded as it is. -/
theorem fromUtf8Lossy_encode (text : Text) : fromUtf8Lossy (encode text) = text := by
  induction text with
  | nil =>
      rw [fromUtf8Lossy]
      exact dif_pos rfl
  | cons char text inductionHypothesis =>
      have bytes : encode (char :: text) = String.utf8EncodeChar char ++ encode text :=
        List.flatMap_cons
      rw [fromUtf8Lossy, dif_neg (encode_cons_ne_nil char text), bytes, decodeFirst_encode]
      dsimp only
      rw [← String.length_utf8EncodeChar, List.drop_left, inductionHypothesis]

theorem ofNat_ne_lineFeed {number : Nat} (high : 0x80 ≤ number) (small : number < 256) :
    UInt8.ofNat number ≠ lineFeed := by
  intro same
  have numbers := congrArg UInt8.toNat same
  rw [UInt8.toNat_ofNat', show lineFeed.toNat = 10 from rfl] at numbers
  omega

theorem lineFeed_mem_encodeChar {char : Char} :
    lineFeed ∈ String.utf8EncodeChar char ↔ char = '\n' := by
  constructor
  · intro member
    unfold String.utf8EncodeChar at member
    dsimp only at member
    split at member
    · rename_i ascii
      have numbers := congrArg UInt8.toNat (List.mem_singleton.mp member)
      rw [UInt8.toNat_ofNat', show lineFeed.toNat = 10 from rfl] at numbers
      have code : char.val.toNat = 10 := by omega
      exact Char.ext (UInt32.toNat_inj.mp code)
    · split at member
      · simp only [List.mem_cons, List.not_mem_nil, or_false] at member
        rcases member with same | same
        all_goals exact absurd same.symm (ofNat_ne_lineFeed (by omega) (by omega))
      · split at member
        · simp only [List.mem_cons, List.not_mem_nil, or_false] at member
          rcases member with same | same | same
          all_goals exact absurd same.symm (ofNat_ne_lineFeed (by omega) (by omega))
        · simp only [List.mem_cons, List.not_mem_nil, or_false] at member
          rcases member with same | same | same | same
          all_goals exact absurd same.symm (ofNat_ne_lineFeed (by omega) (by omega))
  · intro isFeed
    rw [isFeed]
    decide

/-- A line feed is encoded by itself, and no other character has its byte. -/
theorem lineFeed_mem_encode {text : Text} : lineFeed ∈ encode text ↔ '\n' ∈ text := by
  simp [encode, List.mem_flatMap, lineFeed_mem_encodeChar]

/-! ### Lines and their pieces -/

/-- A text that breaks at its end only, if at all. -/
def IsLine (text : Text) : Prop := text ≠ [] ∧ '\n' ∉ text.dropLast

/-- The pieces that a line is cut into, if no cut falls into a character. -/
inductive Pieces : Text → List Text → Prop where
  | last {piece : Text} (isSome : piece ≠ []) (bounded : byteLength piece ≤ maxLogChunkBytes) :
      Pieces piece [piece]
  | more {piece rest : Text} {pieces : List Text} (full : byteLength piece = maxLogChunkBytes)
      (others : Pieces rest pieces) : Pieces (piece ++ rest) (piece :: pieces)

theorem Pieces.ne_nil {line : Text} {pieces : List Text} (cut : Pieces line pieces) :
    line ≠ [] := by
  induction cut with
  | last isSome _ => exact isSome
  | more _ _ inductionHypothesis =>
      exact fun empty => inductionHypothesis (List.append_eq_nil_iff.mp empty).2

theorem ne_nil_of_full {piece : Text} (full : byteLength piece = maxLogChunkBytes) :
    piece ≠ [] := by
  intro empty
  rw [empty] at full
  exact absurd full maxLogChunkBytes_pos.ne

/-- In front of more of its line, a piece is unbroken. -/
theorem IsLine.unbroken {piece rest : Text} (line : IsLine (piece ++ rest)) (isSome : rest ≠ []) :
    '\n' ∉ piece := by
  intro member
  apply line.2
  rw [List.dropLast_append_of_ne_nil isSome]
  exact List.mem_append_left _ member

theorem IsLine.behind {piece rest : Text} (line : IsLine (piece ++ rest)) (isSome : rest ≠ []) :
    IsLine rest := by
  refine ⟨isSome, fun member => line.2 ?_⟩
  rw [List.dropLast_append_of_ne_nil isSome]
  exact List.mem_append_right _ member

theorem endsWithLineFeed_append {piece rest : Text} (isSome : rest ≠ []) :
    endsWithLineFeed (piece ++ rest) = endsWithLineFeed rest := by
  rw [endsWithLineFeed, endsWithLineFeed, List.getLast?_append_of_ne_nil piece isSome]

theorem endsWithLineFeed_eq_false {text : Text} (unbroken : '\n' ∉ text) :
    endsWithLineFeed text = false := by
  rw [endsWithLineFeed, decide_eq_false_iff_not]
  exact fun isLast => unbroken (List.mem_of_getLast? isLast)

theorem IsLine.not_mem {piece : Text} (isLine : IsLine piece)
    (unbroken : endsWithLineFeed piece = false) : '\n' ∉ piece := by
  intro member
  rw [← List.dropLast_append_getLast isLine.1] at member
  rcases List.mem_append.mp member with inside | isLast
  · exact isLine.2 inside
  · rw [endsWithLineFeed, List.getLast?_eq_some_getLast isLine.1, ← List.mem_singleton.mp isLast]
      at unbroken
    cases unbroken

/-- The bytes of a line before its last one are no line feeds. -/
theorem IsLine.encode_split {line : Text} (isLine : IsLine line) :
    ∃ run last, encode line = run ++ [last] ∧ (∀ byte ∈ run, byte ≠ lineFeed) ∧
      (endsWithLineFeed line = true → last = lineFeed) := by
  obtain ⟨isSome, unbroken⟩ := isLine
  obtain ⟨front, char, rfl⟩ : ∃ front char, line = front ++ [char] :=
    ⟨line.dropLast, line.getLast isSome, (List.dropLast_append_getLast isSome).symm⟩
  rw [List.dropLast_concat] at unbroken
  have noFeed : lineFeed ∉ encode front := fun member => unbroken (lineFeed_mem_encode.mp member)
  by_cases isFeed : char = '\n'
  · subst isFeed
    refine ⟨encode front, lineFeed, ?_, fun byte member same => noFeed (same ▸ member),
      fun _ => rfl⟩
    rw [encode_append]
    rfl
  · have some : encode (front ++ [char]) ≠ [] := by
      rw [encode_append]
      exact fun empty => encode_cons_ne_nil char [] (List.append_eq_nil_iff.mp empty).2
    have whole : lineFeed ∉ encode (front ++ [char]) := by
      rw [lineFeed_mem_encode]
      intro member
      rcases List.mem_append.mp member with inFront | isLast
      · exact unbroken inFront
      · exact isFeed (List.mem_singleton.mp isLast).symm
    refine ⟨(encode (front ++ [char])).dropLast, (encode (front ++ [char])).getLast some,
      (List.dropLast_append_getLast some).symm, ?_, ?_⟩
    · exact fun byte member same => whole (same ▸ List.mem_of_mem_dropLast member)
    · intro ends
      rw [endsWithLineFeed, List.getLast?_concat, decide_eq_true_eq] at ends
      exact absurd (Option.some.inj ends) isFeed

/-- A piece that ends its line or is full is a chunk. -/
theorem chunkBytes_piece {piece : Text} (isLine : IsLine piece)
    (bounded : byteLength piece ≤ maxLogChunkBytes)
    (ends : endsWithLineFeed piece = true ∨ byteLength piece = maxLogChunkBytes) (rest : Bytes) :
    chunkBytes [] (encode piece ++ rest) =
      (encode piece :: (chunkBytes [] rest).1, (chunkBytes [] rest).2) := by
  obtain ⟨run, last, same, inLine, isLast⟩ := isLine.encode_split
  have length : run.length + 1 = byteLength piece := by
    rw [← length_encode, same, List.length_append, List.length_singleton]
  have ready := @chunkBytes_ready [] run last rest inLine
    (by rw [List.length_nil]; omega)
    (ends.imp isLast fun full => by rw [List.length_nil]; omega)
  rw [same, List.append_assoc, List.singleton_append, ready, List.nil_append]

/-- The chunks of a line that breaks, or whose last piece is full, are its pieces. -/
theorem chunkBytes_line {line : Text} {pieces : List Text} (cut : Pieces line pieces)
    (isLine : IsLine line)
    (ends : endsWithLineFeed line = true ∨ ∀ last, pieces.getLast? = some last →
      byteLength last = maxLogChunkBytes) (rest : Bytes) :
    chunkBytes [] (encode line ++ rest) =
      (pieces.map encode ++ (chunkBytes [] rest).1, (chunkBytes [] rest).2) := by
  induction cut with
  | last isSome bounded =>
      exact chunkBytes_piece isLine bounded (ends.imp_right fun full => full _ rfl) rest
  | @more piece behind pieces full others inductionHypothesis =>
      have unbroken := isLine.unbroken others.ne_nil
      have isPiece : IsLine piece :=
        ⟨ne_nil_of_full full, fun member => unbroken (List.mem_of_mem_dropLast member)⟩
      rw [encode_append, List.append_assoc, chunkBytes_piece isPiece full.le (.inr full),
        inductionHypothesis (isLine.behind others.ne_nil)]
      · rfl
      · rw [endsWithLineFeed_append others.ne_nil] at ends
        refine ends.imp_right fun fulls last isLast => fulls last ?_
        rw [List.getLast?_cons, isLast]
        rfl

/-! ### The lines of a text -/

theorem splitInclusive_line {line : Text} (isLine : IsLine line) :
    splitInclusive line = [line] := by
  induction line with
  | nil => exact absurd rfl isLine.1
  | cons char rest inductionHypothesis =>
      cases rest with
      | nil =>
          rw [splitInclusive]
          split
          · rfl
          · rfl
      | cons next rest =>
          have unbroken := isLine.2
          rw [List.dropLast_cons_cons, List.mem_cons, not_or] at unbroken
          have inner := inductionHypothesis ⟨List.cons_ne_nil _ _, unbroken.2⟩
          rw [splitInclusive, if_neg (Ne.symm unbroken.1), inner]

theorem splitInclusive_feed {line : Text} (unbroken : '\n' ∉ line) (rest : Text) :
    splitInclusive (line ++ '\n' :: rest) = (line ++ ['\n']) :: splitInclusive rest := by
  induction line with
  | nil =>
      rw [List.nil_append, splitInclusive, if_pos rfl]
      rfl
  | cons char line inductionHypothesis =>
      rw [List.mem_cons, not_or] at unbroken
      rw [List.cons_append, splitInclusive, if_neg (Ne.symm unbroken.1),
        inductionHypothesis unbroken.2]
      rfl

theorem splitInclusive_flatten (text : Text) : (splitInclusive text).flatten = text := by
  induction text with
  | nil => rfl
  | cons char rest inductionHypothesis =>
      rw [splitInclusive]
      split
      · rw [List.flatten_cons, inductionHypothesis, List.singleton_append]
      · split
        · next none =>
            rw [none, List.flatten_nil] at inductionHypothesis
            rw [← inductionHypothesis]
            rfl
        · next first others some =>
            rw [some, List.flatten_cons] at inductionHypothesis
            rw [List.flatten_cons, List.cons_append, inductionHypothesis]

/-- Lines in a row: only the last one may be unbroken. -/
def IsLines : List Text → Prop
  | [] => True
  | line :: rest => IsLine line ∧ (rest ≠ [] → endsWithLineFeed line = true) ∧ IsLines rest

theorem isLines_splitInclusive (text : Text) : IsLines (splitInclusive text) := by
  induction text with
  | nil => trivial
  | cons char rest inductionHypothesis =>
      rw [splitInclusive]
      split
      · next isFeed =>
          refine ⟨⟨List.cons_ne_nil _ _, List.not_mem_nil⟩, fun _ => ?_, inductionHypothesis⟩
          rw [isFeed]
          rfl
      · next other =>
          split
          · exact ⟨⟨List.cons_ne_nil _ _, List.not_mem_nil⟩, fun some => absurd rfl some, trivial⟩
          · next first others some =>
              rw [some] at inductionHypothesis
              obtain ⟨isLine, ends, rest⟩ := inductionHypothesis
              refine ⟨⟨List.cons_ne_nil _ _, ?_⟩, fun more => ?_, rest⟩
              · rw [List.dropLast_cons_of_ne_nil isLine.1, List.mem_cons, not_or]
                exact ⟨Ne.symm other, isLine.2⟩
              · have same : endsWithLineFeed ([char] ++ first) = endsWithLineFeed first :=
                  endsWithLineFeed_append isLine.1
                exact same.trans (ends more)

/-- The line breaks, or its last piece is not full: nothing of it is held back for long. -/
def Closes (line : Text) : Prop :=
  endsWithLineFeed line = true ∨ byteLength line % maxLogChunkBytes ≠ 0

theorem byteLength_append (one two : Text) :
    byteLength (one ++ two) = byteLength one + byteLength two := by
  rw [byteLength, List.map_append, List.sum_append, byteLength, byteLength]

theorem byteLength_pos {text : Text} (isSome : text ≠ []) : 0 < byteLength text := by
  cases text with
  | nil => exact absurd rfl isSome
  | cons char text =>
      rw [byteLength, List.map_cons, List.sum_cons]
      exact Nat.add_pos_left char.utf8Size_pos _

theorem closes_append {piece rest : Text} (full : byteLength piece = maxLogChunkBytes)
    (isSome : rest ≠ []) : Closes (piece ++ rest) ↔ Closes rest := by
  rw [Closes, endsWithLineFeed_append isSome, byteLength_append, full, Nat.add_mod_left, Closes]

theorem closes_iff {piece : Text} (isSome : piece ≠ [])
    (bounded : byteLength piece ≤ maxLogChunkBytes) :
    Closes piece ↔ endsWithLineFeed piece = true ∨ byteLength piece < maxLogChunkBytes := by
  have positive := byteLength_pos isSome
  refine or_congr_right ⟨fun open_ => ?_, fun short => ?_⟩
  · refine lt_of_le_of_ne bounded fun full => open_ ?_
    rw [full, Nat.mod_self]
  · rw [Nat.mod_eq_of_lt short]
    exact positive.ne'

theorem Pieces.getLast_full {line : Text} {pieces : List Text} (cut : Pieces line pieces)
    (whole : byteLength line % maxLogChunkBytes = 0) (last : Text)
    (isLast : pieces.getLast? = some last) : byteLength last = maxLogChunkBytes := by
  induction cut with
  | @last piece isSome bounded =>
      cases isLast
      have positive := byteLength_pos isSome
      by_contra short
      rw [Nat.mod_eq_of_lt (lt_of_le_of_ne bounded short)] at whole
      omega
  | @more piece rest pieces full others inductionHypothesis =>
      rw [byteLength_append, full, Nat.add_mod_left] at whole
      cases others with
      | last => exact inductionHypothesis whole isLast
      | more => exact inductionHypothesis whole isLast

/-! ### One line -/

section Lines

variable [Regexes] [Files] [MatcherFiles] {stepId : String} {stream : LogStream}
  {state : Forwarding}

open WorkflowCommandProcessor

/-- The processing of a whole line. -/
def Forwarding.line (stepId : String) (state : Forwarding) (line : Text) : Forwarding :=
  if state.stopped then state
  else
    match state.processor.processLine stepId (trimLineBreaks line) with
    | (processor, .ok disposition) =>
        { state with processor, visible := state.visible ++ visibleOf line disposition }
    | (processor, .error error) => { state with processor := processor.fail error, stopped := true }

/-- What the processing of a chunk makes of the state. -/
def Forwarding.take (state : Forwarding)
    (result : WorkflowCommandProcessor × Except String Text) : Forwarding :=
  match result with
  | (processor, .ok data) => { state with processor, visible := state.visible ++ data }
  | (processor, .error error) => { state with processor := processor.fail error, stopped := true }

theorem chunk_encode (going : state.stopped = false) (piece : Text) :
    state.chunk stepId stream (encode piece) =
      state.take (state.processor.processLog stepId stream piece) := by
  unfold Forwarding.chunk
  rw [if_neg (Bool.not_eq_true _ ▸ going), fromUtf8Lossy_encode]
  rfl

variable {line : Text}

theorem line_eq (going : state.stopped = false) :
    state.line stepId line =
      state.take ((state.processor.processLine stepId (trimLineBreaks line)).1,
        (state.processor.processLine stepId (trimLineBreaks line)).2.map (visibleOf line)) := by
  unfold Forwarding.line
  rw [if_neg (Bool.not_eq_true _ ▸ going)]
  obtain ⟨processor, result⟩ := state.processor.processLine stepId (trimLineBreaks line)
  cases result with
  | ok disposition => rfl
  | error error => rfl

theorem completeLog_line (processor : WorkflowCommandProcessor) (isLine : IsLine line) :
    processor.processCompleteLog stepId line =
      ((processor.processLine stepId (trimLineBreaks line)).1,
        (processor.processLine stepId (trimLineBreaks line)).2.map (visibleOf line)) := by
  rw [processCompleteLog, splitInclusive_line isLine, processSegments]
  obtain ⟨processor, result⟩ := processor.processLine stepId (trimLineBreaks line)
  cases result with
  | ok disposition => rfl
  | error error => rfl

theorem take_completeLog (isLine : IsLine line) (going : state.stopped = false) :
    state.take (state.processor.processCompleteLog stepId line) = state.line stepId line := by
  rw [completeLog_line _ isLine, line_eq going]

theorem unbroken_line (going : state.stopped = false) :
    (state.line stepId line).processor.partialCommands = state.processor.partialCommands := by
  have kept : (state.processor.processLine stepId (trimLineBreaks line)).1.partialCommands =
      state.processor.partialCommands := processLine_partial
  rw [line_eq going, ← kept]
  cases (state.processor.processLine stepId (trimLineBreaks line)).2 with
  | ok disposition => rfl
  | error error => rfl

/-- The line reaches the processor in one piece, or its pieces are as good as the line. -/
inductive Intact (stepId : String) (processor : WorkflowCommandProcessor) (line : Text) : Prop
  | chunk (bounded : byteLength line ≤ maxLogChunkBytes)
      (passes : endsWithLineFeed line = true ∨ byteLength line < maxLogChunkBytes ∨
        processor.isSuppressibleCommand stepId (trimLineBreaks line) = false)
  | inert {pieces : List Text} (cut : Pieces line pieces)
      (inert : ∀ text ∈ line :: pieces, processor.Inert stepId (trimLineBreaks text))
  | command {first : Text} {pieces : List Text} (cut : Pieces line (first :: pieces))
      (full : byteLength first = maxLogChunkBytes) (unbroken : endsWithLineFeed first = false)
      (held : processor.isSuppressibleCommand stepId (trimLineBreaks first) = true)
      (bounded : byteLength line ≤ maxDynamicMaskBytesPerJob)
      (closes : Closes line ∨ ∀ disposition,
        (processor.processLine stepId (trimLineBreaks line)).2 = .ok disposition →
          visibleOf line disposition = [])

/-- The line is intact, or it is no longer read. -/
def Passes (stepId : String) (state : Forwarding) (line : Text) : Prop :=
  state.stopped = true ∨ Intact stepId state.processor line

end Lines

/-! ### The pieces of a line -/

section Forwards

variable [Regexes] [Files] [MatcherFiles] {stepId : String} {stream : LogStream}
  {state : Forwarding} {line : Text} {pieces : List Text}

open WorkflowCommandProcessor

omit [Files] [MatcherFiles] in
theorem setPartial_twice (processor : WorkflowCommandProcessor) (one two : Option Text) :
    (processor.setPartial stepId stream one).setPartial stepId stream two =
      processor.setPartial stepId stream two := by
  unfold setPartial
  simp only [Function.update_self, Function.update_idem]

/-- A piece that moves nothing is left as it is. -/
theorem processLog_inert {processor : WorkflowCommandProcessor} {piece : Text}
    (free : processor.partialCommands stepId stream = none) (isLine : IsLine piece)
    (inert : processor.Inert stepId (trimLineBreaks piece)) :
    processor.processLog stepId stream piece = (processor, .ok piece) := by
  rw [processLog, free]
  dsimp only
  rw [inert.plain, Bool.and_false, if_neg Bool.false_ne_true, completeLog_line _ isLine,
    processLine_inert inert]
  rfl

/-- A piece that moves nothing is forwarded as it is. -/
theorem chunk_inert {piece : Text} (going : state.stopped = false)
    (free : state.processor.partialCommands stepId stream = none) (isLine : IsLine piece)
    (inert : state.processor.Inert stepId (trimLineBreaks piece)) :
    state.chunk stepId stream (encode piece) =
      { state with visible := state.visible ++ piece } := by
  rw [chunk_encode going, processLog_inert free isLine inert]
  rfl

theorem fold_inert (cut : Pieces line pieces) (isLine : IsLine line)
    (going : state.stopped = false)
    (free : state.processor.partialCommands stepId stream = none)
    (inert : ∀ piece ∈ pieces, state.processor.Inert stepId (trimLineBreaks piece)) :
    (pieces.map encode).foldl (Forwarding.chunk stepId stream) state =
      { state with visible := state.visible ++ line } := by
  induction cut generalizing state with
  | last isSome bounded => exact chunk_inert going free isLine (inert _ List.mem_cons_self)
  | @more piece rest pieces full others inductionHypothesis =>
      have unbroken := isLine.unbroken others.ne_nil
      have isPiece : IsLine piece :=
        ⟨ne_nil_of_full full, fun member => unbroken (List.mem_of_mem_dropLast member)⟩
      rw [List.map_cons, List.foldl_cons,
        chunk_inert going free isPiece (inert _ List.mem_cons_self)]
      have later := @inductionHypothesis { state with visible := state.visible ++ piece }
        (isLine.behind others.ne_nil) going free
        fun text member => inert text (List.mem_cons_of_mem _ member)
      rw [later, List.append_assoc]

/-- What a command that has begun makes of the rest of its line. -/
theorem fold_held {rest started : Text} (cut : Pieces rest pieces) (isLine : IsLine rest)
    (bounded : byteLength (started ++ rest) ≤ maxDynamicMaskBytesPerJob)
    (going : state.stopped = false)
    (held : state.processor.partialCommands stepId stream = some started) :
    (Closes rest → (pieces.map encode).foldl (Forwarding.chunk stepId stream) state =
      state.take ((state.processor.setPartial stepId stream none).processCompleteLog stepId
        (started ++ rest))) ∧
    (¬ Closes rest → (pieces.map encode).foldl (Forwarding.chunk stepId stream) state =
      { state with
        processor := state.processor.setPartial stepId stream (some (started ++ rest)) }) := by
  induction cut generalizing state started with
  | @last piece isSome few =>
      rw [List.map_singleton, List.foldl_cons, List.foldl_nil, chunk_encode going, processLog,
        held]
      dsimp only
      rw [if_neg (Nat.not_lt.mpr bounded), closes_iff isSome few]
      simp only [Bool.or_eq_true, decide_eq_true_eq]
      refine ⟨fun closed => by rw [if_pos closed], fun open_ => ?_⟩
      rw [if_neg open_, Forwarding.take, List.append_nil]
  | @more piece rest pieces full others inductionHypothesis =>
      have unbroken := endsWithLineFeed_eq_false (isLine.unbroken others.ne_nil)
      rw [← List.append_assoc] at bounded
      have few : byteLength (started ++ piece) ≤ maxDynamicMaskBytesPerJob := by
        rw [byteLength_append] at bounded
        omega
      have pends : state.chunk stepId stream (encode piece) = { state with
          processor := state.processor.setPartial stepId stream (some (started ++ piece)) } := by
        rw [chunk_encode going, processLog, held]
        dsimp only
        rw [if_neg (Nat.not_lt.mpr few), unbroken, full, Bool.false_or,
          if_neg (by simp), Forwarding.take, List.append_nil]
      rw [List.map_cons, List.foldl_cons, pends, closes_append full others.ne_nil]
      have later := @inductionHypothesis
        { state with
          processor := state.processor.setPartial stepId stream (some (started ++ piece)) }
        (started ++ piece) (isLine.behind others.ne_nil) bounded going
        (partialCommands_setPartial _ _)
      dsimp only at later
      rw [setPartial_twice, setPartial_twice, List.append_assoc] at later
      exact later

/-- The pieces of an intact line do what the line does, but for a command that the end of the
output has still to complete. -/
theorem fold_intact (intact : Intact stepId state.processor line) (isLine : IsLine line)
    (going : state.stopped = false)
    (free : state.processor.partialCommands stepId stream = none) :
    ∃ pieces, Pieces line pieces ∧
      ((pieces.map encode).foldl (Forwarding.chunk stepId stream) state =
          state.line stepId line ∨
        ¬ Closes line ∧
          (∀ disposition,
            (state.processor.processLine stepId (trimLineBreaks line)).2 = .ok disposition →
              visibleOf line disposition = []) ∧
          (pieces.map encode).foldl (Forwarding.chunk stepId stream) state =
            { state with
              processor := state.processor.setPartial stepId stream (some line) }) := by
  cases intact with
  | chunk bounded passes =>
      refine ⟨[line], .last isLine.1 bounded, .inl ?_⟩
      have processed : state.processor.processLog stepId stream line =
          state.processor.processCompleteLog stepId line := by
        rw [processLog, free]
        dsimp only
        rw [if_neg]
        simp only [Bool.and_eq_true, decide_eq_true_eq, Bool.not_eq_true', not_and,
          Bool.not_eq_true]
        intro full
        rcases passes with ends | short | plain
        · exact absurd (full.2.symm.trans ends) Bool.false_ne_true
        · exact absurd full.1 (Nat.not_le.mpr short)
        · exact plain
      rw [List.map_singleton, List.foldl_cons, List.foldl_nil, chunk_encode going, processed,
        take_completeLog isLine going]
  | @inert pieces cut inert =>
      refine ⟨pieces, cut, .inl ?_⟩
      rw [fold_inert cut isLine going free fun piece member =>
        inert piece (List.mem_cons_of_mem _ member), line_eq going,
        processLine_inert (inert line List.mem_cons_self)]
      rfl
  | @command first pieces cut full unbroken held bounded closes =>
      refine ⟨first :: pieces, cut, ?_⟩
      have begins : state.chunk stepId stream (encode first) = { state with
          processor := state.processor.setPartial stepId stream (some first) } := by
        rw [chunk_encode going, processLog, free]
        dsimp only
        rw [full, unbroken, held, if_pos (by simp), Forwarding.take, List.append_nil]
      rw [List.map_cons, List.foldl_cons, begins]
      cases cut with
      | last isSome few =>
          have open_ : ¬ Closes line := by
            rw [closes_iff isSome few, unbroken, full]
            simp
          exact .inr ⟨open_, closes.resolve_left open_, rfl⟩
      | @more _ rest _ _ others =>
          have later := @fold_held _ _ _ stepId stream
            { state with
              processor := state.processor.setPartial stepId stream (some first) } pieces rest
            first others (isLine.behind others.ne_nil) bounded going
            (partialCommands_setPartial _ _)
          dsimp only at later
          rw [setPartial_setPartial stream _ free, setPartial_twice] at later
          rw [closes_append full others.ne_nil] at closes ⊢
          by_cases closed : Closes rest
          · rw [later.1 closed]
            exact .inl (take_completeLog isLine going)
          · exact .inr ⟨closed, closes.resolve_left closed, later.2 closed⟩

/-! ### The whole output -/

/-- The same effects, and the same text. -/
def Alike (one two : Forwarding) : Prop :=
  one.processor = two.processor ∧ one.visible = two.visible

theorem foldl_stopped (stopped : state.stopped = true) (chunks : List Bytes) :
    chunks.foldl (Forwarding.chunk stepId stream) state = state := by
  induction chunks with
  | nil => rfl
  | cons chunk chunks inductionHypothesis =>
      rw [List.foldl_cons, Forwarding.chunk, stopped, if_pos rfl, inductionHypothesis]

theorem finish_stopped (stopped : state.stopped = true) (pending : Bytes) :
    state.finish stepId stream pending = state := by
  unfold Forwarding.finish Forwarding.chunk
  simp only [stopped, if_pos, ite_self]

theorem lines_stopped (stopped : state.stopped = true) (lines : List Text) :
    lines.foldl (Forwarding.line stepId) state = state := by
  induction lines with
  | nil => rfl
  | cons line lines inductionHypothesis =>
      rw [List.foldl_cons, Forwarding.line, stopped, if_pos rfl, inductionHypothesis]

theorem finish_free (free : state.processor.partialCommands stepId stream = none) :
    state.finish stepId stream [] = state := by
  unfold Forwarding.finish
  rw [if_pos rfl]
  dsimp only
  split
  · rfl
  · rw [finishStream, free]

/-- The end of the output completes the command that is held back. -/
theorem finish_held (isLine : IsLine line) (going : state.stopped = false)
    (free : state.processor.partialCommands stepId stream = none)
    (hidden : ∀ disposition,
      (state.processor.processLine stepId (trimLineBreaks line)).2 = .ok disposition →
        visibleOf line disposition = []) :
    Alike (Forwarding.finish stepId stream
      { state with processor := state.processor.setPartial stepId stream (some line) } [])
      (state.line stepId line) := by
  unfold Forwarding.finish
  rw [if_pos rfl]
  dsimp only
  rw [if_neg (Bool.not_eq_true _ ▸ going), finishStream, partialCommands_setPartial]
  dsimp only
  rw [setPartial_setPartial stream _ free, completeLog_line _ isLine, line_eq going]
  cases processed : (state.processor.processLine stepId (trimLineBreaks line)).2 with
  | ok disposition =>
      refine ⟨rfl, ?_⟩
      have visible : state.visible ++ visibleOf line disposition = state.visible := by
        rw [hidden disposition processed, List.append_nil]
      exact visible.symm
  | error error => exact ⟨rfl, rfl⟩

/-- The last line, if it neither breaks nor fills its last piece. -/
theorem finish_open (cut : Pieces line pieces) (isLine : IsLine line)
    (unbroken : endsWithLineFeed line = false)
    (short : byteLength line % maxLogChunkBytes ≠ 0) :
    Forwarding.finish stepId stream
        ((chunkBytes [] (encode line)).1.foldl (Forwarding.chunk stepId stream) state)
        (chunkBytes [] (encode line)).2 =
      Forwarding.finish stepId stream
        ((pieces.map encode).foldl (Forwarding.chunk stepId stream) state) [] := by
  induction cut generalizing state with
  | @last piece isSome few =>
      have inLine : ∀ byte ∈ encode piece, byte ≠ lineFeed := fun byte member same =>
        isLine.not_mem unbroken (lineFeed_mem_encode.mp (same ▸ member))
      have small : byteLength piece < maxLogChunkBytes :=
        ((closes_iff isSome few).mp (.inr short)).resolve_left (by rw [unbroken]; decide)
      have pends := @chunkBytes_pending [] (encode piece) [] inLine (by
        rw [List.length_nil, Nat.zero_add, length_encode]
        exact small)
      rw [List.append_nil, List.nil_append, chunkBytes] at pends
      have nonempty : encode piece ≠ [] := fun empty => by
        have length := length_encode piece
        rw [empty] at length
        exact absurd length (byteLength_pos isSome).ne
      rw [pends, List.map_singleton, List.foldl_cons, List.foldl_nil, List.foldl_nil]
      unfold Forwarding.finish
      rw [if_neg nonempty, if_pos rfl]
  | @more piece rest pieces full others inductionHypothesis =>
      have open_ := isLine.unbroken others.ne_nil
      have isPiece : IsLine piece :=
        ⟨ne_nil_of_full full, fun member => open_ (List.mem_of_mem_dropLast member)⟩
      rw [endsWithLineFeed_append others.ne_nil] at unbroken
      rw [byteLength_append, full, Nat.add_mod_left] at short
      rw [encode_append, chunkBytes_piece isPiece full.le (.inr full), List.foldl_cons,
        List.map_cons, List.foldl_cons]
      exact inductionHypothesis (isLine.behind others.ne_nil) unbroken short

theorem forwards_rest {lines : List Text} (isLines : IsLines lines)
    (free : state.processor.partialCommands stepId stream = none)
    (intact : Machine.Along (Forwarding.line stepId) (Passes stepId) state lines) :
    Alike (Forwarding.finish stepId stream
        ((chunkBytes [] (encode lines.flatten)).1.foldl (Forwarding.chunk stepId stream) state)
        (chunkBytes [] (encode lines.flatten)).2)
      (Machine.run (Forwarding.line stepId) state lines) := by
  induction lines generalizing state with
  | nil =>
      have finished := @finish_free _ _ _ stepId stream state free
      exact ⟨congrArg Forwarding.processor finished, congrArg Forwarding.visible finished⟩
  | cons line rest inductionHypothesis =>
      obtain ⟨isLine, ends, isRest⟩ := isLines
      cases going : state.stopped with
      | true =>
          rw [foldl_stopped going, finish_stopped going, Machine.run, lines_stopped going]
          exact ⟨rfl, rfl⟩
      | false =>
          obtain ⟨passes, later⟩ := intact
          obtain ⟨pieces, cut, processed⟩ := @fold_intact _ _ _ stepId stream state line
            (passes.resolve_left (by rw [going]; decide)) isLine going free
          have freed : (state.line stepId line).processor.partialCommands stepId stream = none := by
            rw [unbroken_line going, free]
          have alone : ¬ endsWithLineFeed line = true → rest = [] := fun unbroken =>
            by_contra fun more => unbroken (ends more)
          by_cases ready : endsWithLineFeed line = true ∨ byteLength line % maxLogChunkBytes = 0
          · rw [List.flatten_cons, encode_append,
              chunkBytes_line cut isLine (ready.imp_right fun whole => cut.getLast_full whole),
              List.foldl_append, Machine.run_cons]
            rcases processed with same | ⟨open_, hidden, same⟩
            · rw [same]
              exact inductionHypothesis isRest freed later
            · rw [alone fun closed => open_ (.inl closed), same]
              exact finish_held isLine going free hidden
          · rw [not_or] at ready
            have closed : Closes line := .inr ready.2
            rw [alone ready.1, List.flatten_cons, List.flatten_nil, List.append_nil,
              finish_open cut isLine (Bool.eq_false_iff.mpr ready.1) ready.2,
              (processed.resolve_right fun open_ => open_.1 closed), finish_free freed]
            exact ⟨rfl, rfl⟩

/-- However the reads split an output, it is processed as if it came line by line. -/
theorem forwards_lines (stepId : String) (stream : LogStream)
    (processor : WorkflowCommandProcessor)
    (free : processor.partialCommands stepId stream = none) (output : Text) (reads : List Bytes)
    (whole : reads.flatten = encode output)
    (intact : Machine.Along (Forwarding.line stepId) (Passes stepId) { processor }
      (splitInclusive output)) :
    Alike (forwardOutput stepId stream processor reads)
      (Machine.run (Forwarding.line stepId) { processor } (splitInclusive output)) := by
  have forwarded := @forwards_rest _ _ _ stepId stream { processor } (splitInclusive output)
    (isLines_splitInclusive output) free intact
  rw [splitInclusive_flatten] at forwarded
  have short : ([] : Bytes).length < maxLogChunkBytes := maxLogChunkBytes_pos
  rw [forwardOutput, reads_eq _ short, whole]
  exact forwarded

end Forwards

namespace OutputSample

scoped instance noExpressions : Regexes where
  Regex := Empty
  build _ := none
  capturesLen _ := 0
  captures _ _ := none

scoped instance noFiles : Files where
  locate _ _ := none

scoped instance noMatcherFiles : MatcherFiles where
  read _ _ _ := .error "no such file"

/-- The commands are stopped, until `::t::`. -/
def stoppedProcessor : WorkflowCommandProcessor :=
  ({} : WorkflowCommandProcessor).setScope "plan/job" { stopToken := some ['t'] }

def firstPiece : Text := List.replicate maxLogChunkBytes 'a'

/-- One line with a resume line at its end. -/
def longLine : Text := firstPiece ++ "::t::\n".toList

theorem byteLength_firstPiece : byteLength firstPiece = maxLogChunkBytes := by
  rw [byteLength, firstPiece, List.map_replicate, List.sum_replicate_nat]
  decide

theorem not_mem_firstPiece : '\n' ∉ firstPiece := by
  intro member
  have same := (List.mem_replicate.mp member).2
  revert same
  decide

theorem isLine_firstPiece : IsLine firstPiece :=
  ⟨ne_nil_of_full byteLength_firstPiece, fun member =>
    not_mem_firstPiece (List.mem_of_mem_dropLast member)⟩

theorem isLine_longLine : IsLine longLine := by
  refine ⟨List.append_ne_nil_of_right_ne_nil _ (by decide), fun member => ?_⟩
  rw [longLine, List.dropLast_append_of_ne_nil (by decide)] at member
  rcases List.mem_append.mp member with first | last
  · exact not_mem_firstPiece first
  · revert last
    decide

theorem cut_longLine : Pieces longLine [firstPiece, "::t::\n".toList] :=
  .more byteLength_firstPiece (.last (by decide) (by decide))

theorem ne_resumeLine (rest : Text) : firstPiece ++ rest ≠ resumeLine ['t'] := by
  intro same
  have heads := congrArg List.head? same
  have first : (firstPiece ++ rest).head? = some 'a' := rfl
  rw [first] at heads
  revert heads
  decide

theorem trim_firstPiece : trimLineBreaks firstPiece = firstPiece ++ [] := by
  simp [trimLineBreaks, firstPiece, isLineBreak]

theorem trim_longLine : trimLineBreaks longLine = firstPiece ++ "::t::".toList := by
  simp [trimLineBreaks, longLine, isLineBreak]

theorem stopToken_stopped :
    (stoppedProcessor.scope (workflowCommandScope "plan/job/step")).stopToken = some ['t'] := by
  have scopeId : workflowCommandScope "plan/job/step" = "plan/job" := by decide
  rw [scopeId, stoppedProcessor, WorkflowCommandProcessor.scope_setScope]

theorem inert_of_ne {line : Text} (other : line ≠ resumeLine ['t']) :
    stoppedProcessor.Inert "plan/job/step" line where
  plain := by
    rw [WorkflowCommandProcessor.isSuppressibleCommand, stopToken_stopped]
    exact decide_eq_false other
  still none := by
    rw [stopToken_stopped] at none
    cases none

/-- A line of two chunks while the commands are stopped, the resume line, and a command
without a line feed. -/
def resumedOutput : Text :=
  (firstPiece ++ ['b']) ++ '\n' :: ("::t::".toList ++ '\n' :: "::add-mask::x".toList)

theorem resumedOutput_lines : splitInclusive resumedOutput =
    [firstPiece ++ ['b', '\n'], "::t::\n".toList, "::add-mask::x".toList] := by
  have unbroken : '\n' ∉ firstPiece ++ ['b'] := by
    rw [List.mem_append, not_or]
    exact ⟨not_mem_firstPiece, by decide⟩
  rw [resumedOutput, splitInclusive_feed unbroken, splitInclusive_feed (by decide),
    List.append_assoc]
  rfl

/-- A read ends within the first line, and one within the second. -/
theorem resumedOutput_alike :
    Alike (forwardOutput "plan/job/step" .stdout stoppedProcessor
        [(encode resumedOutput).take 5, ((encode resumedOutput).drop 5).take maxLogChunkBytes,
          ((encode resumedOutput).drop 5).drop maxLogChunkBytes])
      (Machine.run (Forwarding.line "plan/job/step") { processor := stoppedProcessor }
        (splitInclusive resumedOutput)) := by
  refine forwards_lines "plan/job/step" .stdout stoppedProcessor rfl resumedOutput _ ?_ ?_
  · simp only [List.flatten_cons, List.flatten_nil, List.append_nil, List.take_append_drop]
  · rw [resumedOutput_lines]
    refine ⟨.inr (.inert (.more byteLength_firstPiece (.last (by decide) (by decide))) ?_),
      .inr (.chunk (by decide) (.inl (by decide))),
      .inr (.chunk (by decide) (.inr (.inl (by decide)))), trivial⟩
    intro text member
    rcases List.mem_cons.mp member with rfl | member
    · refine inert_of_ne ?_
      have trimmed : trimLineBreaks (firstPiece ++ ['b', '\n']) = firstPiece ++ ['b'] := by
        simp [trimLineBreaks, isLineBreak]
      rw [trimmed]
      exact ne_resumeLine _
    · rcases List.mem_cons.mp member with rfl | member
      · rw [trim_firstPiece]
        exact inert_of_ne (ne_resumeLine _)
      · rw [List.mem_singleton.mp member]
        exact inert_of_ne (by decide)

/-- What the resume line makes of the command state. -/
def resumedProcessor : WorkflowCommandProcessor :=
  stoppedProcessor.setScope (workflowCommandScope "plan/job/step")
    { stoppedProcessor.scope (workflowCommandScope "plan/job/step") with stopToken := none }

theorem chunk_resumes (visible : Text) :
    Forwarding.chunk "plan/job/step" .stdout { processor := stoppedProcessor, visible }
      (encode "::t::\n".toList) = { processor := resumedProcessor, visible } := by
  have isLine : IsLine "::t::\n".toList := ⟨by decide, by decide⟩
  have processed : stoppedProcessor.processLog "plan/job/step" .stdout "::t::\n".toList =
      stoppedProcessor.processCompleteLog "plan/job/step" "::t::\n".toList := rfl
  have resumes : stoppedProcessor.processLine "plan/job/step" "::t::".toList =
      (resumedProcessor, .ok .suppress) := by
    rw [WorkflowCommandProcessor.processLine]
    dsimp only
    rw [stopToken_stopped]
    dsimp only
    rw [if_pos (by decide), resumedProcessor]
  have trimmed : trimLineBreaks "::t::\n".toList = "::t::".toList := by decide
  rw [chunk_encode rfl, processed, completeLog_line _ isLine, trimmed, resumes]
  change Forwarding.mk resumedProcessor (visible ++ []) false = _
  rw [List.append_nil]

theorem forwardOutput_longLine :
    forwardOutput "plan/job/step" .stdout stoppedProcessor [encode longLine] =
      { processor := resumedProcessor, visible := firstPiece } := by
  have short : ([] : Bytes).length < maxLogChunkBytes := maxLogChunkBytes_pos
  have ends : endsWithLineFeed longLine = true :=
    (endsWithLineFeed_append (by decide)).trans (by decide)
  have chunks := chunkBytes_line cut_longLine isLine_longLine (.inl ends) []
  rw [List.append_nil, chunkBytes, List.append_nil] at chunks
  have first : Forwarding.chunk "plan/job/step" .stdout { processor := stoppedProcessor }
      (encode firstPiece) = { processor := stoppedProcessor, visible := firstPiece } := by
    refine chunk_inert rfl rfl isLine_firstPiece (inert_of_ne ?_)
    rw [trim_firstPiece]
    exact ne_resumeLine []
  rw [forwardOutput, reads_eq _ short, List.flatten_cons, List.flatten_nil, List.append_nil, chunks,
    List.map_cons, List.map_singleton, List.foldl_cons, List.foldl_cons, List.foldl_nil, first,
    chunk_resumes, finish_free]
  rfl

/-- The end of a long line is taken for a line of its own. -/
theorem long_line_resumes_commands :
    ¬ Alike (forwardOutput "plan/job/step" .stdout stoppedProcessor [encode longLine])
      (Machine.run (Forwarding.line "plan/job/step") { processor := stoppedProcessor }
        (splitInclusive longLine)) := by
  have inert : stoppedProcessor.Inert "plan/job/step" (trimLineBreaks longLine) := by
    refine inert_of_ne ?_
    rw [trim_longLine]
    exact ne_resumeLine _
  have line : Machine.run (Forwarding.line "plan/job/step") { processor := stoppedProcessor }
      (splitInclusive longLine) = { processor := stoppedProcessor, visible := longLine } := by
    rw [splitInclusive_line isLine_longLine, Machine.run_cons, Machine.run_nil, line_eq rfl,
      WorkflowCommandProcessor.processLine_inert inert]
    rfl
  intro alike
  rw [forwardOutput_longLine, line] at alike
  have tokens := congrArg (fun processor => WorkflowCommandScope.stopToken
    (WorkflowCommandProcessor.scope processor (workflowCommandScope "plan/job/step"))) alike.1
  dsimp only at tokens
  rw [resumedProcessor, WorkflowCommandProcessor.scope_setScope, stopToken_stopped] at tokens
  cases tokens

end OutputSample

end GitZero.Agent.CommandProcessor
