import Mathlib.Data.List.Perm.Basic

/-!
# Finite maps up to a test on keys

A finite map is a list of keys with their values in which no two keys pass the
test that tells keys apart.  The order of the list means nothing: what a key is
mapped to is the same for every permutation.
-/

namespace OpenDylan.Lib.KeyedMap

/-- A test on keys that is an equivalence. -/
structure KeyTest (Key : Type*) where
  same : Key → Key → Bool
  refl (key : Key) : same key key = true
  symm {first second : Key} (here : same first second = true) :
    same second first = true
  trans {first second third : Key} (here : same first second = true)
    (there : same second third = true) : same first third = true

/-- Keys that are told apart by equality. -/
def KeyTest.equality (Key : Type*) [DecidableEq Key] : KeyTest Key where
  same first second := decide (first = second)
  refl _ := decide_eq_true rfl
  symm here := decide_eq_true (of_decide_eq_true here).symm
  trans here there :=
    decide_eq_true ((of_decide_eq_true here).trans (of_decide_eq_true there))

variable {Key Value : Type*}

/-- What a key is mapped to. -/
def lookup (test : KeyTest Key) (key : Key) (map : List (Key × Value)) :
    Option Value :=
  (map.find? fun entry => test.same key entry.1).map Prod.snd

/-- Map a key to a value. -/
def store (test : KeyTest Key) (key : Key) (value : Value)
    (map : List (Key × Value)) : List (Key × Value) :=
  if map.any fun entry => test.same key entry.1 then
    map.map fun entry =>
      if test.same key entry.1 then (entry.1, value) else entry
  else
    (key, value) :: map

/-- Map a key to a value unless it is mapped to one. -/
def keep (test : KeyTest Key) (key : Key) (value : Value)
    (map : List (Key × Value)) : List (Key × Value) :=
  match lookup test key map with
  | none => store test key value map
  | some _ => map

/-- Map a key to nothing. -/
def erase (test : KeyTest Key) (key : Key) (map : List (Key × Value)) :
    List (Key × Value) :=
  map.filter fun entry => !test.same key entry.1

/-- The keys of two entries are different. -/
def Apart (test : KeyTest Key) (first second : Key × Value) : Prop :=
  test.same first.1 second.1 = false

/-- No two keys of a map pass the test. -/
def Distinct (test : KeyTest Key) (map : List (Key × Value)) : Prop :=
  map.Pairwise (Apart test)

section Tests

variable {test : KeyTest Key} {first second key : Key}

theorem KeyTest.comm : test.same first second = test.same second first := by
  rw [Bool.eq_iff_iff]
  exact ⟨test.symm, test.symm⟩

theorem KeyTest.congr (same : test.same first second = true) :
    test.same key first = test.same key second := by
  rw [Bool.eq_iff_iff]
  constructor
  · exact fun there => test.trans there same
  · exact fun there => test.trans there (test.symm same)

theorem KeyTest.congr_left (same : test.same first second = true) :
    test.same first key = test.same second key := by
  rw [KeyTest.comm, KeyTest.congr same, KeyTest.comm]

theorem Apart.symm {first second : Key × Value}
    (apart : Apart test first second) : Apart test second first := by
  rw [Apart, KeyTest.comm]
  exact apart

end Tests

section Maps

variable {test : KeyTest Key} {map other : List (Key × Value)}
  {key stored : Key} {value old : Value}

theorem lookup_eq_none :
    lookup test key map = none ↔
      ∀ entry ∈ map, test.same key entry.1 = false := by
  simp only [lookup, Option.map_eq_none_iff, List.find?_eq_none,
    Bool.not_eq_true]

theorem Distinct.perm (distinct : Distinct test map)
    (same : map.Perm other) : Distinct test other :=
  (same.pairwise_iff Apart.symm).mp distinct

theorem lookup_cons :
    lookup test key ((stored, value) :: map) =
      if test.same key stored then some value else lookup test key map := by
  rw [lookup, List.find?_cons]
  cases test.same key stored <;> rfl

/-- The order of a map means nothing. -/
theorem lookup_perm (distinct : Distinct test map)
    (same : map.Perm other) :
    lookup test key map = lookup test key other := by
  induction same with
  | nil => rfl
  | cons entry _ ih =>
      rw [lookup_cons, lookup_cons, ih (List.Pairwise.of_cons distinct)]
  | swap first second rest =>
      have apart : Apart test second first :=
        List.rel_of_pairwise_cons distinct List.mem_cons_self
      rw [lookup_cons, lookup_cons, lookup_cons, lookup_cons]
      cases one : test.same key first.1 with
      | false => rfl
      | true =>
          have another : test.same key second.1 = false := by
            rw [KeyTest.congr_left one, KeyTest.comm]
            exact apart
          rw [another]
          rfl
  | trans earlier _ ih later =>
      exact (ih distinct).trans (later (distinct.perm earlier))

/-- Keys that pass the test are mapped to the same. -/
theorem lookup_same (same : test.same key stored = true) :
    lookup test key map = lookup test stored map := by
  rw [lookup, lookup]
  congr 2
  funext entry
  exact KeyTest.congr_left same

theorem any_false (absent : ∀ entry ∈ map, test.same key entry.1 = false) :
    (map.any fun entry => test.same key entry.1) = false := by
  rw [List.any_eq_false]
  intro entry member
  rw [absent entry member]
  exact Bool.false_ne_true

/-- Storing at a key that is mapped to nothing. -/
theorem store_absent
    (absent : ∀ entry ∈ map, test.same key entry.1 = false) :
    store test key value map = (key, value) :: map := by
  rw [store, any_false absent, if_neg Bool.false_ne_true]

/-- The keys of other entries are different. -/
theorem Distinct.others (distinct : Distinct test map)
    (split : map.Perm ((stored, old) :: other))
    (same : test.same key stored = true) :
    ∀ entry ∈ other, test.same key entry.1 = false := by
  intro entry member
  rw [KeyTest.congr_left same]
  exact List.rel_of_pairwise_cons (distinct.perm split) member

/-- Storing at a key that is mapped to something. -/
theorem store_present (distinct : Distinct test map)
    (split : map.Perm ((stored, old) :: other))
    (same : test.same key stored = true) :
    (store test key value map).Perm ((stored, value) :: other) := by
  have some : (map.any fun entry => test.same key entry.1) = true := by
    rw [List.any_eq_true]
    exact ⟨(stored, old), split.mem_iff.mpr List.mem_cons_self, same⟩
  have kept : other.map (fun entry =>
      if test.same key entry.1 then (entry.1, value) else entry) = other := by
    rw [List.map_congr_left (g := id), List.map_id]
    intro entry member
    rw [distinct.others split same entry member, if_neg Bool.false_ne_true]
    rfl
  rw [store, if_pos some]
  have mapped := split.map fun entry =>
    if test.same key entry.1 then (entry.1, value) else entry
  rw [List.map_cons, kept, if_pos same] at mapped
  exact mapped

/-- Erasing a key that is mapped to something. -/
theorem erase_present (distinct : Distinct test map)
    (split : map.Perm ((stored, old) :: other))
    (same : test.same key stored = true) :
    (erase test key map).Perm other := by
  have kept : other.filter (fun entry => !test.same key entry.1) =
      other := by
    rw [List.filter_eq_self]
    intro entry member
    rw [distinct.others split same entry member]
    rfl
  have filtered := split.filter fun entry => !test.same key entry.1
  rwa [List.filter_cons_of_neg (by simp [same]), kept] at filtered

/-- Erasing a key that is mapped to nothing. -/
theorem erase_absent
    (absent : ∀ entry ∈ map, test.same key entry.1 = false) :
    erase test key map = map := by
  rw [erase, List.filter_eq_self]
  intro entry member
  rw [absent entry member]
  rfl

/-- The key of an entry is mapped to its value. -/
theorem lookup_of_mem (distinct : Distinct test map)
    (member : (stored, value) ∈ map) (same : test.same key stored = true) :
    lookup test key map = some value := by
  obtain ⟨before, after, rfl⟩ := List.append_of_mem member
  rw [lookup_perm distinct List.perm_middle, lookup_cons, if_pos same]

theorem store_perm (same : map.Perm other) :
    (store test key value map).Perm (store test key value other) := by
  have both : (map.any fun entry => test.same key entry.1) =
      other.any fun entry => test.same key entry.1 := by
    rw [Bool.eq_iff_iff, List.any_eq_true, List.any_eq_true]
    constructor
    · rintro ⟨entry, member, isKey⟩
      exact ⟨entry, same.mem_iff.mp member, isKey⟩
    · rintro ⟨entry, member, isKey⟩
      exact ⟨entry, same.mem_iff.mpr member, isKey⟩
  rw [store, store, both]
  split
  · exact same.map _
  · exact same.cons _

theorem erase_perm (same : map.Perm other) :
    (erase test key map).Perm (erase test key other) :=
  same.filter _

/-- What is mapped after the value of an entry was replaced. -/
theorem lookup_replaced {wanted : Key} :
    lookup test wanted (map.map fun entry =>
        if test.same key entry.1 then (entry.1, value) else entry) =
      if test.same wanted key then
        (lookup test wanted map).map fun _ => value
      else lookup test wanted map := by
  induction map with
  | nil => simp [lookup]
  | cons entry rest ih =>
      obtain ⟨here, item⟩ := entry
      rw [List.map_cons, lookup_cons]
      cases isKey : test.same key here with
      | false =>
          rw [if_neg Bool.false_ne_true, lookup_cons, ih]
          cases isWanted : test.same wanted key with
          | false => rfl
          | true =>
              have other : test.same wanted here = false := by
                rw [KeyTest.congr_left isWanted]
                exact isKey
              rw [other]
              rfl
      | true =>
          rw [if_pos rfl, lookup_cons, ih, ← KeyTest.congr isKey]
          cases test.same wanted key <;> rfl

/-- What is mapped after a key was stored. -/
theorem lookup_store {wanted : Key} :
    lookup test wanted (store test key value map) =
      if test.same wanted key then some value else lookup test wanted map := by
  rw [store]
  split
  · next isStored =>
      rw [lookup_replaced]
      split
      · next isWanted =>
          have present : lookup test wanted map ≠ none := by
            intro absent
            rw [lookup_same isWanted, lookup_eq_none] at absent
            rw [any_false absent] at isStored
            cases isStored
          obtain ⟨item, found⟩ := Option.ne_none_iff_exists'.mp present
          rw [found]
          rfl
      · rfl
  · exact lookup_cons

/-- What is mapped after a key was erased. -/
theorem lookup_erase {wanted : Key} :
    lookup test wanted (erase test key map) =
      if test.same wanted key then none else lookup test wanted map := by
  induction map with
  | nil => simp [lookup, erase]
  | cons entry rest ih =>
      obtain ⟨here, item⟩ := entry
      rw [erase] at ih ⊢
      cases isKey : test.same key here with
      | false =>
          rw [List.filter_cons_of_pos (by simp [isKey]), lookup_cons, ih,
            lookup_cons]
          cases isWanted : test.same wanted key with
          | false => rfl
          | true =>
              have other : test.same wanted here = false := by
                rw [KeyTest.congr_left isWanted]
                exact isKey
              rw [other]
              rfl
      | true =>
          rw [List.filter_cons_of_neg (by simp [isKey]), ih, lookup_cons,
            ← KeyTest.congr isKey]
          cases test.same wanted key <;> rfl

theorem lookup_append :
    lookup test key (map ++ other) =
      (lookup test key map).or (lookup test key other) := by
  rw [lookup, lookup, lookup, List.find?_append]
  cases map.find? fun entry => test.same key entry.1 <;> rfl

/-- What is mapped after a key was stored unless it was mapped. -/
theorem lookup_keep {wanted : Key} :
    lookup test wanted (keep test key value map) =
      (lookup test wanted map).or
        (if test.same wanted key then some value else none) := by
  unfold keep
  cases found : lookup test key map with
  | none =>
      rw [lookup_store]
      split
      · next isWanted =>
          rw [lookup_same isWanted, found]
          rfl
      · rw [Option.or_none]
  | some old =>
      show lookup test wanted map = _
      split
      · next isWanted =>
          rw [lookup_same isWanted, found]
          rfl
      · rw [Option.or_none]

/-- Of several values stored at a key the last is kept. -/
theorem lookup_foldl_store {entries : List (Key × Value)} :
    lookup test key (entries.foldl (fun map entry =>
        store test entry.1 entry.2 map) map) =
      (lookup test key entries.reverse).or (lookup test key map) := by
  induction entries generalizing map with
  | nil => rfl
  | cons entry entries ih =>
      rw [List.foldl_cons, ih, List.reverse_cons, lookup_append,
        Option.or_assoc, lookup_store, lookup_cons]
      split
      · rfl
      · rfl

/-- Of several values kept at a key the first remains. -/
theorem lookup_foldl_keep {entries : List (Key × Value)} :
    lookup test key (entries.foldl (fun map entry =>
        keep test entry.1 entry.2 map) map) =
      (lookup test key map).or (lookup test key entries) := by
  induction entries generalizing map with
  | nil =>
      rw [List.foldl_nil]
      exact Option.or_none.symm
  | cons entry entries ih =>
      rw [List.foldl_cons, ih, lookup_keep, Option.or_assoc, lookup_cons]
      split
      · rfl
      · rfl

theorem Distinct.store (distinct : Distinct test map) (key : Key)
    (value : Value) : Distinct test (store test key value map) := by
  unfold KeyedMap.store
  split
  case isTrue =>
      rw [Distinct, List.pairwise_map]
      apply List.Pairwise.imp _ distinct
      intro first second apart
      unfold Apart at apart ⊢
      split <;> split <;> exact apart
  case isFalse absent =>
      apply List.Pairwise.cons _ distinct
      intro entry member
      rw [Apart, Bool.eq_false_iff]
      intro same
      exact absent (List.any_eq_true.mpr ⟨entry, member, same⟩)

theorem Distinct.keep (distinct : Distinct test map) (key : Key)
    (value : Value) : Distinct test (keep test key value map) := by
  unfold KeyedMap.keep
  split
  · exact distinct.store key value
  · exact distinct

theorem Distinct.foldl_store (distinct : Distinct test map)
    (entries : List (Key × Value)) :
    Distinct test (entries.foldl (fun map entry =>
      KeyedMap.store test entry.1 entry.2 map) map) := by
  induction entries generalizing map with
  | nil => exact distinct
  | cons entry entries ih => exact ih (distinct.store entry.1 entry.2)

theorem Distinct.foldl_keep (distinct : Distinct test map)
    (entries : List (Key × Value)) :
    Distinct test (entries.foldl (fun map entry =>
      KeyedMap.keep test entry.1 entry.2 map) map) := by
  induction entries generalizing map with
  | nil => exact distinct
  | cons entry entries ih => exact ih (distinct.keep entry.1 entry.2)

theorem Distinct.erase (distinct : Distinct test map) (key : Key) :
    Distinct test (erase test key map) :=
  List.Pairwise.filter _ distinct

theorem mem_of_lookup (found : lookup test key map = some value) :
    ∃ stored, (stored, value) ∈ map ∧ test.same key stored = true := by
  unfold lookup at found
  rw [Option.map_eq_some_iff] at found
  cases found with
  | intro entry found =>
      have member := List.mem_of_find?_eq_some found.1
      have same := List.find?_some found.1
      exact ⟨entry.1, by rw [← found.2]; exact member, same⟩

/-- Maps that map every key to the same are the same up to order. -/
theorem perm_of_lookup (exact : ∀ first second : Key,
      test.same first second = true → first = second)
    (distinct : Distinct test map) (otherDistinct : Distinct test other)
    (same : ∀ key, lookup test key map = lookup test key other) :
    map.Perm other := by
  have nodup : ∀ {entries : List (Key × Value)},
      Distinct test entries → entries.Nodup := by
    intro entries apart
    apply List.Pairwise.imp _ apart
    intro first second apart equal
    rw [equal, Apart, test.refl] at apart
    cases apart
  have half : ∀ {here there : List (Key × Value)}, Distinct test here →
      (∀ key, lookup test key here = lookup test key there) →
        ∀ entry ∈ here, entry ∈ there := by
    intro here there apart agree entry member
    have found := lookup_of_mem apart member (test.refl entry.1)
    rw [agree] at found
    obtain ⟨stored, there, isKey⟩ := mem_of_lookup found
    rw [← exact _ _ isKey] at there
    exact there
  rw [List.perm_ext_iff_of_nodup (nodup distinct) (nodup otherDistinct)]
  intro entry
  constructor
  · exact half distinct same entry
  · exact half otherDistinct (fun key => (same key).symm) entry

end Maps

end OpenDylan.Lib.KeyedMap
