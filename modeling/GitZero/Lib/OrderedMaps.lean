/-
Module: GitZero.Lib.OrderedMaps
Purpose: Ordered maps that are collected from lists and filled by folds.
Trusted boundary: none
Main exports: getElem?_ofList_eq_some, getElem?_ofList_of_nodup, getElem?_ofList_keyed,
  getElem?_foldl_insertIfNew, getElem?_foldl_group, getElem?_foldl_insert, find?_toList_eq_some,
  find?_toList_congr, getElem?_foldl_copy, getElem?_insertMany_filter
-/
import Std.Data.ExtTreeMap.Lemmas
import Mathlib.Data.List.Basic

namespace GitZero.OrderedMaps

open Std

variable {κ ν ι : Type} {cmp : κ → κ → Ordering} [TransCmp cmp] [LawfulEqCmp cmp]

/-- A collected map only holds entries of the list. -/
theorem getElem?_insertMany_eq_some {list : List (κ × ν)} {map : ExtTreeMap κ ν cmp} {key : κ}
    {value : ν} (found : (map.insertMany list)[key]? = some value) :
    (key, value) ∈ list ∨ map[key]? = some value := by
  induction list generalizing map with
  | nil => exact .inr (by simpa using found)
  | cons head tail inductionHypothesis =>
      obtain ⟨first, second⟩ := head
      rw [ExtTreeMap.insertMany_cons] at found
      rcases inductionHypothesis found with member | older
      · exact .inl (List.mem_cons_of_mem _ member)
      · rw [ExtTreeMap.getElem?_insert] at older
        split at older
        · next same =>
            cases older
            cases LawfulEqCmp.eq_of_compare same
            exact .inl List.mem_cons_self
        · exact .inr older

/-- What is found in a map comes from its list. -/
theorem getElem?_ofList_eq_some {list : List (κ × ν)} {key : κ} {value : ν}
    (found : (ExtTreeMap.ofList list cmp)[key]? = some value) : (key, value) ∈ list := by
  rw [ExtTreeMap.ofList_eq_insertMany_empty] at found
  rcases getElem?_insertMany_eq_some found with member | impossible
  · exact member
  · simp at impossible

/-- A map collected from entries with distinct keys holds exactly these entries. -/
theorem getElem?_ofList_of_nodup {list : List (κ × ν)} (distinct : (list.map Prod.fst).Nodup)
    {key : κ} {value : ν} :
    (ExtTreeMap.ofList list cmp)[key]? = some value ↔ (key, value) ∈ list := by
  constructor
  · exact getElem?_ofList_eq_some
  · intro member
    refine ExtTreeMap.getElem?_ofList_of_mem ReflCmp.compare_self ?_ member
    rw [List.Nodup, List.pairwise_map] at distinct
    exact distinct.imp fun differ same => differ (LawfulEqCmp.eq_of_compare same)

theorem getElem?_ofList_toList (map : ExtTreeMap κ ν cmp) (key : κ) :
    (ExtTreeMap.ofList map.toList cmp)[key]? = map[key]? := by
  have distinct : (map.toList.map Prod.fst).Nodup := by
    rw [ExtTreeMap.map_fst_toList_eq_keys]
    exact map.nodup_keys
  refine Option.ext fun value => ?_
  rw [getElem?_ofList_of_nodup distinct, ExtTreeMap.mem_toList_iff_getElem?_eq_some]

section Keys

variable [BEq κ] [LawfulBEqCmp cmp] [LawfulBEq κ]

omit [LawfulEqCmp cmp] in
theorem mem_ofList_keys {list : List (κ × ν)} {key : κ} :
    key ∈ ExtTreeMap.ofList list cmp ↔ key ∈ list.map Prod.fst := by
  rw [ExtTreeMap.mem_ofList, List.contains_iff_mem]

theorem getElem?_insertMany_toList (map other : ExtTreeMap κ ν cmp) (key : κ) :
    (map.insertMany other.toList)[key]? = (other[key]?).or map[key]? := by
  cases lookup : other[key]? with
  | none =>
      rw [Option.none_or]
      refine ExtTreeMap.getElem?_insertMany_list_of_contains_eq_false ?_
      rw [ExtTreeMap.map_fst_toList_eq_keys, ← Bool.not_eq_true, List.contains_iff_mem,
        ExtTreeMap.mem_keys, ← ExtTreeMap.isSome_getElem?_iff_mem, lookup]
      exact Bool.false_ne_true
  | some value =>
      rw [Option.some_or]
      exact ExtTreeMap.getElem?_insertMany_list_of_mem ReflCmp.compare_self
        other.distinct_keys_toList (ExtTreeMap.mem_toList_iff_getElem?_eq_some.mpr lookup)

/-- A map collected from keys with a value for each key. -/
theorem getElem?_ofList_keyed {keys : List κ} {value : κ → ν} {key : κ} {found : ν} :
    (ExtTreeMap.ofList (keys.map fun key => (key, value key)) cmp)[key]? = some found ↔
      key ∈ keys ∧ found = value key := by
  constructor
  · intro present
    obtain ⟨other, member, same⟩ := List.mem_map.mp (getElem?_ofList_eq_some present)
    cases same
    exact ⟨member, rfl⟩
  · rintro ⟨member, rfl⟩
    have inside : key ∈ ExtTreeMap.ofList (keys.map fun key => (key, value key)) cmp := by
      rw [mem_ofList_keys]
      simpa using member
    obtain ⟨found, present⟩ := Option.isSome_iff_exists.mp
      (ExtTreeMap.isSome_getElem?_iff_mem.mpr inside)
    obtain ⟨other, _, same⟩ := List.mem_map.mp (getElem?_ofList_eq_some present)
    cases same
    exact present

end Keys

/-- Filling a map with `insertIfNew` keeps the first value of a key. -/
theorem getElem?_foldl_insertIfNew [DecidableEq κ] (items : List ι) (key : ι → κ) (value : ι → ν)
    (map : ExtTreeMap κ ν cmp) (wanted : κ) :
    (items.foldl (fun map item => map.insertIfNew (key item) (value item)) map)[wanted]? =
      (map[wanted]?).or ((items.find? fun item => key item = wanted).map value) := by
  induction items generalizing map with
  | nil => simp
  | cons head tail inductionHypothesis =>
      rw [List.foldl_cons, inductionHypothesis, ExtTreeMap.getElem?_insertIfNew]
      by_cases same : key head = wanted
      · subst same
        by_cases present : key head ∈ map
        · simp [present]
        · simp [present]
      · have differ : cmp (key head) wanted ≠ .eq := fun equal =>
          same (LawfulEqCmp.eq_of_compare equal)
        simp [same, differ]

/-- Grouping items by a key: each group holds its items in their order. -/
theorem getElem?_foldl_group [DecidableEq κ] (items : List ι) (key : ι → κ)
    (map : ExtTreeMap κ (List ι) cmp) (wanted : κ) :
    (items.foldl (fun map item =>
        map.alter (key item) fun group => some (group.getD [] ++ [item])) map)[wanted]? =
      if items.filter (fun item => key item = wanted) = [] then map[wanted]?
      else some ((map[wanted]?).getD [] ++ items.filter fun item => key item = wanted) := by
  induction items generalizing map with
  | nil => simp
  | cons head tail inductionHypothesis =>
      rw [List.foldl_cons, inductionHypothesis, ExtTreeMap.getElem?_alter]
      by_cases same : key head = wanted
      · subst same
        simp [List.append_assoc]
      · have differ : cmp (key head) wanted ≠ .eq := fun equal =>
          same (LawfulEqCmp.eq_of_compare equal)
        simp [same, differ]

section Search

variable (test : κ → Bool) {map other : ExtTreeMap κ ν cmp}

/-- A search in key order finds the least key that meets the test. -/
theorem find?_toList_eq_some {key : κ} {value : ν} :
    (map.toList.find? fun entry => test entry.1) = some (key, value) ↔
      map[key]? = some value ∧ test key = true ∧
        ∀ lesser, lesser ∈ map → test lesser = true → cmp lesser key ≠ .lt := by
  constructor
  · intro found
    obtain ⟨meets, before, after, split, earlier⟩ := List.find?_eq_some_iff_append.mp found
    have ordered := map.ordered_keys_toList
    rw [split, List.pairwise_append] at ordered
    have present : (key, value) ∈ map.toList := split ▸ List.mem_append_right _ List.mem_cons_self
    refine ⟨ExtTreeMap.mem_toList_iff_getElem?_eq_some.mp present, meets, ?_⟩
    intro lesser member lesserMeets less
    obtain ⟨found, lookup⟩ := Option.isSome_iff_exists.mp
      (ExtTreeMap.isSome_getElem?_iff_mem.mpr member)
    have listed := ExtTreeMap.mem_toList_iff_getElem?_eq_some.mpr lookup
    rw [split, List.mem_append, List.mem_cons] at listed
    rcases listed with inBefore | same | inAfter
    · have misses := earlier _ inBefore
      simp [lesserMeets] at misses
    · cases same
      simp [ReflCmp.compare_self] at less
    · have greater := (List.pairwise_cons.mp ordered.2.1).1 _ inAfter
      have loop := TransCmp.lt_trans less greater
      simp [ReflCmp.compare_self] at loop
  · rintro ⟨lookup, meets, least⟩
    have present := ExtTreeMap.mem_toList_iff_getElem?_eq_some.mpr lookup
    obtain ⟨before, after, split⟩ := List.append_of_mem present
    refine List.find?_eq_some_iff_append.mpr ⟨meets, before, after, split, ?_⟩
    intro entry inBefore
    by_contra hits
    have ordered := map.ordered_keys_toList
    rw [split, List.pairwise_append] at ordered
    have listed : entry ∈ map.toList := split ▸ List.mem_append_left _ inBefore
    have member : entry.1 ∈ map := ExtTreeMap.isSome_getElem?_iff_mem.mp
      (by rw [ExtTreeMap.mem_toList_iff_getElem?_eq_some.mp listed]; rfl)
    exact least _ member (by simpa using hits) (ordered.2.2 _ inBefore _ List.mem_cons_self)

theorem find?_toList_isSome :
    (map.toList.find? fun entry => test entry.1).isSome = true ↔
      ∃ key, key ∈ map ∧ test key = true := by
  rw [List.find?_isSome]
  constructor
  · rintro ⟨⟨key, value⟩, member, meets⟩
    have lookup := ExtTreeMap.mem_toList_iff_getElem?_eq_some.mp member
    exact ⟨key, ExtTreeMap.isSome_getElem?_iff_mem.mp (by rw [lookup]; rfl), meets⟩
  · rintro ⟨key, member, meets⟩
    obtain ⟨value, lookup⟩ := Option.isSome_iff_exists.mp
      (ExtTreeMap.isSome_getElem?_iff_mem.mpr member)
    exact ⟨(key, value), ExtTreeMap.mem_toList_iff_getElem?_eq_some.mpr lookup, meets⟩

/-- A search only reads the keys that meet its test. -/
theorem find?_toList_congr (agree : ∀ key, test key = true → map[key]? = other[key]?) :
    (map.toList.find? fun entry => test entry.1) =
      other.toList.find? fun entry => test entry.1 := by
  have members : ∀ key, test key = true → (key ∈ map ↔ key ∈ other) := by
    intro key meets
    rw [← ExtTreeMap.isSome_getElem?_iff_mem, ← ExtTreeMap.isSome_getElem?_iff_mem,
      agree key meets]
  refine Option.ext ?_
  rintro ⟨key, value⟩
  rw [find?_toList_eq_some, find?_toList_eq_some]
  constructor
  · rintro ⟨lookup, meets, least⟩
    exact ⟨agree key meets ▸ lookup, meets, fun lesser member lesserMeets =>
      least lesser ((members lesser lesserMeets).mpr member) lesserMeets⟩
  · rintro ⟨lookup, meets, least⟩
    exact ⟨agree key meets ▸ lookup, meets, fun lesser member lesserMeets =>
      least lesser ((members lesser lesserMeets).mp member) lesserMeets⟩

end Search

/-- Filling a map from entries with distinct keys, where some entries give no value. -/
theorem getElem?_foldl_insert {entries : List (κ × ι)} {value : ι → Option ν}
    {fill : ExtTreeMap κ ν cmp → κ × ι → ExtTreeMap κ ν cmp}
    (fills : ∀ map entry found, value entry.2 = some found →
      fill map entry = map.insert entry.1 found)
    (skips : ∀ map entry, value entry.2 = none → fill map entry = map)
    (distinct : (entries.map Prod.fst).Nodup) (map : ExtTreeMap κ ν cmp) (wanted : κ) :
    (entries.foldl fill map)[wanted]? =
      (((ExtTreeMap.ofList entries cmp)[wanted]?).bind value).or map[wanted]? := by
  induction entries generalizing map with
  | nil => simp
  | cons head tail inductionHypothesis =>
      obtain ⟨key, item⟩ := head
      have fresh := List.nodup_cons.mp (List.map_cons ▸ distinct)
      rw [List.foldl_cons, inductionHypothesis fresh.2]
      by_cases same : key = wanted
      · subst same
        have absent : (ExtTreeMap.ofList tail cmp)[key]? = none := by
          rw [Option.eq_none_iff_forall_ne_some]
          intro found present
          exact fresh.1 (List.mem_map.mpr ⟨_, getElem?_ofList_eq_some present, rfl⟩)
        have present : (ExtTreeMap.ofList ((key, item) :: tail) cmp)[key]? = some item :=
          (getElem?_ofList_of_nodup distinct).mpr List.mem_cons_self
        rw [absent, present]
        cases given : value item with
        | none => simp [skips _ (key, item) given, given]
        | some found => simp [fills _ (key, item) found given, given]
      · have skipped : (ExtTreeMap.ofList ((key, item) :: tail) cmp)[wanted]? =
            (ExtTreeMap.ofList tail cmp)[wanted]? := by
          refine Option.ext fun found => ?_
          rw [getElem?_ofList_of_nodup distinct, getElem?_ofList_of_nodup fresh.2, List.mem_cons]
          simp [Ne.symm same]
        have differ : cmp key wanted ≠ .eq := fun equal =>
          same (LawfulEqCmp.eq_of_compare equal)
        rw [skipped]
        cases given : value item with
        | none => simp [skips _ (key, item) given]
        | some found => simp [fills _ (key, item) found given, ExtTreeMap.getElem?_insert, differ]

/-- Copying the entries of a map that pass a test, which may read the key and the value. -/
theorem getElem?_foldl_copy (keep : κ → ν → Bool) (other map : ExtTreeMap κ ν cmp) (wanted : κ) :
    (other.toList.foldl (fun map (key, value) =>
        if keep key value then map.insert key value else map) map)[wanted]? =
      ((other[wanted]?).filter (keep wanted)).or map[wanted]? := by
  have walk : ∀ (entries : List (κ × ν)) (map : ExtTreeMap κ ν cmp),
      (entries.map Prod.fst).Nodup →
      (∀ value, (wanted, value) ∈ entries → keep wanted value = true →
        (entries.foldl (fun map (key, value) =>
          if keep key value then map.insert key value else map) map)[wanted]? = some value) ∧
      ((∀ value, (wanted, value) ∈ entries → keep wanted value = false) →
        (entries.foldl (fun map (key, value) =>
          if keep key value then map.insert key value else map) map)[wanted]? = map[wanted]?) := by
    intro entries
    induction entries with
    | nil => exact fun map _ => ⟨fun value member => (by cases member), fun _ => rfl⟩
    | cons head tail inductionHypothesis =>
        intro map distinct
        obtain ⟨key, first⟩ := head
        obtain ⟨fresh, later⟩ := List.nodup_cons.mp (List.map_cons ▸ distinct)
        obtain ⟨hit, miss⟩ := inductionHypothesis
          (if keep key first then map.insert key first else map) later
        rw [List.foldl_cons]
        constructor
        · intro value member kept
          rcases List.mem_cons.mp member with same | further
          · cases same
            have absent : ∀ value, (wanted, value) ∈ tail → keep wanted value = false :=
              fun value member => absurd (List.mem_map.mpr ⟨_, member, rfl⟩) fresh
            rw [miss absent, if_pos kept]
            simp
          · exact hit value further kept
        · intro dropped
          rw [miss fun value member => dropped value (List.mem_cons_of_mem _ member)]
          split
          · next kept =>
              have differ : cmp key wanted ≠ .eq := by
                intro equal
                cases LawfulEqCmp.eq_of_compare equal
                rw [dropped first List.mem_cons_self] at kept
                cases kept
              simp [ExtTreeMap.getElem?_insert, differ]
          · rfl
  have distinct : (other.toList.map Prod.fst).Nodup := by
    rw [ExtTreeMap.map_fst_toList_eq_keys]
    exact other.nodup_keys
  obtain ⟨hit, miss⟩ := walk other.toList map distinct
  cases lookup : other[wanted]? with
  | none =>
      rw [miss fun value member => by
        rw [ExtTreeMap.mem_toList_iff_getElem?_eq_some, lookup] at member
        cases member]
      rfl
  | some value =>
      cases kept : keep wanted value with
      | true =>
          rw [hit value (ExtTreeMap.mem_toList_iff_getElem?_eq_some.mpr lookup) kept,
            Option.filter_some_pos kept, Option.some_or]
      | false =>
          have dropped : ∀ found, (wanted, found) ∈ other.toList → keep wanted found = false := by
            intro found member
            rw [ExtTreeMap.mem_toList_iff_getElem?_eq_some, lookup] at member
            cases member
            exact kept
          rw [miss dropped, Option.filter_some_neg (by simp [kept]), Option.none_or]

/-- A map laid over with the kept part of another. -/
theorem getElem?_insertMany_filter [BEq κ] [LawfulBEqCmp cmp] [LawfulBEq κ] (keep : κ → Bool)
    (map other : ExtTreeMap κ ν cmp) (wanted : κ) :
    (map.insertMany (other.toList.filter fun entry => keep entry.1))[wanted]? =
      if keep wanted then (other[wanted]?).or map[wanted]? else map[wanted]? := by
  split
  · next kept =>
      cases lookup : other[wanted]? with
      | none =>
          rw [Option.none_or]
          refine ExtTreeMap.getElem?_insertMany_list_of_contains_eq_false ?_
          rw [← Bool.not_eq_true, List.contains_iff_mem, List.mem_map]
          rintro ⟨⟨key, value⟩, member, rfl⟩
          have present := ExtTreeMap.mem_toList_iff_getElem?_eq_some.mp
            (List.mem_filter.mp member).1
          rw [lookup] at present
          cases present
      | some value =>
          rw [Option.some_or]
          refine ExtTreeMap.getElem?_insertMany_list_of_mem ReflCmp.compare_self
            (other.distinct_keys_toList.filter _) (List.mem_filter.mpr ⟨?_, kept⟩)
          exact ExtTreeMap.mem_toList_iff_getElem?_eq_some.mpr lookup
  · next dropped =>
      refine ExtTreeMap.getElem?_insertMany_list_of_contains_eq_false ?_
      rw [← Bool.not_eq_true, List.contains_iff_mem, List.mem_map]
      rintro ⟨⟨key, value⟩, member, rfl⟩
      exact dropped (List.mem_filter.mp member).2

omit [LawfulEqCmp cmp] in
/-- A fold that never touches a key leaves it alone. -/
theorem getElem?_foldl_outside {change : ExtTreeMap κ ν cmp → ι → ExtTreeMap κ ν cmp} {key : κ}
    {items : List ι} (leaves : ∀ map, ∀ item ∈ items, (change map item)[key]? = map[key]?)
    (map : ExtTreeMap κ ν cmp) : (items.foldl change map)[key]? = map[key]? := by
  induction items generalizing map with
  | nil => rfl
  | cons head tail inductionHypothesis =>
      rw [List.foldl_cons, inductionHypothesis fun map item member =>
        leaves map item (List.mem_cons_of_mem _ member)]
      exact leaves map head List.mem_cons_self

theorem getElem?_insert_outside {key wanted : κ} (differ : key ≠ wanted)
    (map : ExtTreeMap κ ν cmp) (value : ν) : (map.insert key value)[wanted]? = map[wanted]? := by
  rw [ExtTreeMap.getElem?_insert, if_neg fun equal => differ (LawfulEqCmp.eq_of_compare equal)]

theorem getElem?_erase_outside {key wanted : κ} (differ : key ≠ wanted)
    (map : ExtTreeMap κ ν cmp) : (map.erase key)[wanted]? = map[wanted]? := by
  rw [ExtTreeMap.getElem?_erase, if_neg fun equal => differ (LawfulEqCmp.eq_of_compare equal)]

end GitZero.OrderedMaps
