import OpenDylan.Runtime.MethodTable

/-!
# What the method table holds

`recorded` reads the two sequences of a generic function together: every
method with the library it is recorded for.  `history` is the specification,
kept by the sequence of events alone: the methods added and not since replaced
or removed.  A step keeps the two in agreement exactly when it meets
`Aligned`: an addition has at most one method to replace, does not fall on the
first method whose library is implicit, and a removal finds every cache empty.
-/

namespace OpenDylan.Runtime.MethodTable

open OpenDylan.Runtime.Types

variable {wordSize : Nat} {Class Object Library : Type}

/-! ## Reading the table -/

/-- The methods with their libraries: stored, or that of the generic
function past the end of the stored ones. -/
def recorded (g : GenericFunction wordSize Class Object Library) :
    List (Method wordSize Class Object × Library) :=
  g.methods.zip (g.methodLibraries ++
    List.replicate (g.methods.length - g.methodLibraries.length)
      g.incrementalGfLibrary)

/-- The table splits into the methods with a stored library and the rest. -/
structure Splits (g : GenericFunction wordSize Class Object Library)
    (stored : List (Method wordSize Class Object × Library))
    (own : List (Method wordSize Class Object)) : Prop where
  methods : g.methods = stored.map Prod.fst ++ own
  libraries : g.methodLibraries = stored.map Prod.snd

theorem zip_replicate {Entry Label : Type} (entries : List Entry)
    (label : Label) :
    entries.zip (List.replicate entries.length label) =
      entries.map (fun entry => (entry, label)) := by
  induction entries with
  | nil => rfl
  | cons entry entries ih => simp [List.replicate_succ, ih]

theorem zip_fst_snd {Entry Label : Type} (pairs : List (Entry × Label)) :
    (pairs.map Prod.fst).zip (pairs.map Prod.snd) = pairs := by
  induction pairs with
  | nil => rfl
  | cons pair pairs ih => simp [ih]

theorem Splits.recorded_eq {g : GenericFunction wordSize Class Object Library}
    {stored : List (Method wordSize Class Object × Library)}
    {own : List (Method wordSize Class Object)} (splits : Splits g stored own) :
    recorded g =
      stored ++ own.map (fun m => (m, g.incrementalGfLibrary)) := by
  have count : g.methods.length - g.methodLibraries.length = own.length := by
    rw [splits.methods, splits.libraries]
    simp
  rw [recorded, count, splits.methods, splits.libraries,
    List.zip_append (by simp), zip_fst_snd, zip_replicate]

theorem exists_splits {g : GenericFunction wordSize Class Object Library}
    (bounded : g.methodLibraries.length ≤ g.methods.length) :
    ∃ stored own, Splits g stored own := by
  refine ⟨(g.methods.take g.methodLibraries.length).zip g.methodLibraries,
    g.methods.drop g.methodLibraries.length, ?_, ?_⟩
  · rw [List.map_fst_zip (by rw [List.length_take]; omega),
      List.take_append_drop]
  · rw [List.map_snd_zip (by simp [bounded])]

theorem Splits.bounded {g : GenericFunction wordSize Class Object Library}
    {stored : List (Method wordSize Class Object × Library)}
    {own : List (Method wordSize Class Object)} (splits : Splits g stored own) :
    g.methodLibraries.length ≤ g.methods.length := by
  rw [splits.methods, splits.libraries]
  simp

theorem recorded_map_fst {g : GenericFunction wordSize Class Object Library}
    (bounded : g.methodLibraries.length ≤ g.methods.length) :
    (recorded g).map Prod.fst = g.methods := by
  apply List.map_fst_zip
  simp
  omega

/-! ## List surgery -/

theorem copyOverWithout_append {Entry : Type} (front : List Entry)
    (entry : Entry) (back : List Entry) :
    copyOverWithout (front ++ entry :: back) front.length = front ++ back := by
  simp [copyOverWithout]

/-- Shifting a block down and storing at its end moves the hole. -/
theorem shiftDown_set {Entry : Type} (front between back : List Entry)
    (old new : Entry) :
    (shiftDown (front ++ old :: (between ++ back)) front.length
        between.length).set (front.length + between.length) new =
      front ++ (between ++ new :: back) := by
  induction between generalizing front old with
  | nil => simp [shiftDown]
  | cons entry between ih =>
      have next : (front ++ old :: (entry :: between ++ back))[front.length + 1]? =
          some entry := by
        rw [List.getElem?_append_right (by omega)]
        simp
      have stored : (front ++ old :: (entry :: between ++ back)).set
          front.length entry =
            (front ++ [entry]) ++ entry :: (between ++ back) := by
        simp
      simp only [List.length_cons, shiftDown, next, stored]
      have rest := ih (front ++ [entry]) entry
      simp only [List.length_append, List.length_singleton] at rest
      rw [show front.length + (between.length + 1) =
        front.length + 1 + between.length by omega, rest]
      simp

/-! ## Replacing a method -/

/-- The branch of a replacement that forgets to store the new method. -/
def forgets [DecidableEq Class] [DecidableEq Object] [DecidableEq Library]
    (g : GenericFunction wordSize Class Object Library)
    (old m : Method wordSize Class Object) (lib : Library) (idx : Nat) :
    Bool :=
  idx = g.methodLibraries.length && lib ≠ g.incrementalGfLibrary && old ≠ m

/-- The old method is at `idx`, in front of `after`. -/
structure At (g : GenericFunction wordSize Class Object Library)
    (before : List (Method wordSize Class Object × Library))
    (old : Method wordSize Class Object × Library)
    (after : List (Method wordSize Class Object × Library)) (idx : Nat) :
    Prop where
  entries : recorded g = before ++ old :: after
  index : before.length = idx

/-- A table that is read as `entries`, up to order. -/
structure Reads (g : GenericFunction wordSize Class Object Library)
    (entries : List (Method wordSize Class Object × Library)) : Prop where
  bounded : g.methodLibraries.length ≤ g.methods.length
  perm : (recorded g).Perm entries

theorem Splits.reads {g : GenericFunction wordSize Class Object Library}
    {stored entries : List (Method wordSize Class Object × Library)}
    {own : List (Method wordSize Class Object)} (splits : Splits g stored own)
    (perm : (stored ++ own.map
      (fun m => (m, g.incrementalGfLibrary))).Perm entries) :
    Reads g entries :=
  ⟨splits.bounded, splits.recorded_eq ▸ perm⟩

theorem reads_addMethodAndLibrary
    {g : GenericFunction wordSize Class Object Library}
    (bounded : g.methodLibraries.length ≤ g.methods.length)
    (m : Method wordSize Class Object) (lib : Library) :
    Reads (addMethodAndLibrary g m lib) ((m, lib) :: recorded g) := by
  obtain ⟨stored, own, splits⟩ := exists_splits bounded
  have next : Splits (addMethodAndLibrary g m lib) ((m, lib) :: stored)
      own := by
    refine ⟨?_, ?_⟩
    · simp [addMethodAndLibrary, splits.methods]
    · simp [addMethodAndLibrary, splits.libraries]
  refine next.reads ?_
  rw [splits.recorded_eq]
  rfl

/-- Splitting the stored part, or the own part, at an index. -/
theorem Splits.at_index {g : GenericFunction wordSize Class Object Library}
    {stored before after : List (Method wordSize Class Object × Library)}
    {own : List (Method wordSize Class Object)}
    {old : Method wordSize Class Object × Library} {idx : Nat}
    (splits : Splits g stored own) (position : At g before old after idx) :
    (∃ rest, stored = before ++ old :: rest ∧
      after = rest ++ own.map (fun m => (m, g.incrementalGfLibrary)) ∧
        idx < stored.length) ∨
    (∃ front back, own = front ++ old.1 :: back ∧
      before = stored ++ front.map (fun m => (m, g.incrementalGfLibrary)) ∧
      after = back.map (fun m => (m, g.incrementalGfLibrary)) ∧
        idx = stored.length + front.length) := by
  have same := splits.recorded_eq.symm.trans position.entries
  rcases List.append_eq_append_iff.mp same with
    ⟨front, first, second⟩ | ⟨rest, first, second⟩
  · right
    obtain ⟨front', tail, rfl, rfl, rest⟩ := List.map_eq_append_iff.mp second
    obtain ⟨m, back, rfl, head, rfl⟩ := List.map_eq_cons_iff.mp rest
    refine ⟨front', back, ?_, first, rfl, ?_⟩
    · rw [← head]
    · rw [← position.index, first]
      simp
  · cases rest with
    | nil =>
        right
        simp only [List.nil_append] at second
        obtain ⟨m, back, rfl, head, rfl⟩ :=
          List.map_eq_cons_iff.mp second.symm
        refine ⟨[], back, ?_, ?_, rfl, ?_⟩
        · simp [← head]
        · simpa using first.symm
        · rw [← position.index, first]
          simp
    | cons entry rest =>
        left
        rw [List.cons_append, List.cons.injEq] at second
        obtain ⟨rfl, tail⟩ := second
        refine ⟨rest, first, tail, ?_⟩
        rw [← position.index, first]
        simp

/-- The table without the entry that a removal takes out. -/
theorem reads_removed {g : GenericFunction wordSize Class Object Library}
    {before after : List (Method wordSize Class Object × Library)}
    {old : Method wordSize Class Object × Library} {idx : Nat}
    (bounded : g.methodLibraries.length ≤ g.methods.length)
    (position : At g before old after idx) :
    Reads (withoutMethodAt g idx) (before ++ after) := by
  obtain ⟨stored, own, splits⟩ := exists_splits bounded
  have count : g.methodLibraries.length = stored.length := by
    rw [splits.libraries, List.length_map]
  rcases splits.at_index position with
    ⟨rest, shape, rfl, inside⟩ | ⟨front, back, shape, rfl, rfl, idxEq⟩
  · have idxEq := position.index
    subst idxEq
    have next : Splits (withoutMethodAt g before.length) (before ++ rest)
        own := by
      constructor
      · have cut := copyOverWithout_append (before.map Prod.fst) old.1
          (rest.map Prod.fst ++ own)
        simpa [withoutMethodAt, splits.methods, shape] using cut
      · have cut := copyOverWithout_append (before.map Prod.snd) old.2
          (rest.map Prod.snd)
        simpa [withoutMethodAt, count, inside, splits.libraries, shape]
          using cut
    apply next.reads
    simp [withoutMethodAt]
  · subst idxEq
    have next : Splits (withoutMethodAt g (stored.length + front.length))
        stored (front ++ back) := by
      constructor
      · have cut := copyOverWithout_append (stored.map Prod.fst ++ front)
          old.1 back
        simpa [withoutMethodAt, splits.methods, shape] using cut
      · have outside : ¬stored.length + front.length < stored.length := by
          omega
        simp [withoutMethodAt, splits.libraries, outside]
    apply next.reads
    simp [withoutMethodAt]

theorem removeMethodAt_spec (test : Method wordSize Class Object → Bool)
    (g : GenericFunction wordSize Class Object Library)
    (rest : List (Method wordSize Class Object)) (start : Nat) :
    (removeMethodAt test g rest start = (none, g)) ∨
    ∃ front m back, rest = front ++ m :: back ∧
      removeMethodAt test g rest start =
        (some m, withoutMethodAt g (start + front.length)) := by
  induction rest generalizing start with
  | nil => exact Or.inl rfl
  | cons m rest ih =>
      simp only [removeMethodAt]
      split
      · exact Or.inr ⟨[], m, rest, rfl, by simp⟩
      · rcases ih (start + 1) with unchanged | ⟨front, old, back, rfl, result⟩
        · exact Or.inl unchanged
        · refine Or.inr ⟨m :: front, old, back, rfl, ?_⟩
          rw [result, List.length_cons]
          simp only [Nat.add_assoc, Nat.add_comm 1]

section Operations

variable [DecidableEq Library]

/-- A stored library is dropped: the method moves to the own part. -/
theorem reads_replaceMethod_dropped
    {g : GenericFunction wordSize Class Object Library}
    {stored before rest : List (Method wordSize Class Object × Library)}
    {own : List (Method wordSize Class Object)}
    {old : Method wordSize Class Object × Library}
    (splits : Splits g stored own) (shape : stored = before ++ old :: rest)
    (m : Method wordSize Class Object) :
    Reads (replaceMethod g m g.incrementalGfLibrary before.length)
      ((m, g.incrementalGfLibrary) :: (before ++ (rest ++
        own.map (fun m => (m, g.incrementalGfLibrary))))) := by
  have count : g.methodLibraries.length =
      before.length + (rest.length + 1) := by
    rw [splits.libraries, shape]
    simp
  have inside : before.length < g.methodLibraries.length := by omega
  have last : g.methodLibraries.length - 1 =
      before.length + rest.length := by omega
  have branch : replaceMethod g m g.incrementalGfLibrary before.length =
      { g with
        methods := (shiftDown g.methods before.length rest.length).set
          (before.length + rest.length) m
        methodLibraries :=
          copyOverWithout g.methodLibraries before.length } := by
    simp [replaceMethod, inside, last]
  have next : Splits (replaceMethod g m g.incrementalGfLibrary before.length)
      (before ++ rest) (m :: own) := by
    rw [branch]
    refine ⟨?_, ?_⟩
    · have shifted := shiftDown_set (before.map Prod.fst)
        (rest.map Prod.fst) own old.1 m
      simpa [splits.methods, shape] using shifted
    · have cut := copyOverWithout_append (before.map Prod.snd) old.2
        (rest.map Prod.snd)
      simpa [splits.libraries, shape] using cut
  refine next.reads ?_
  rw [branch, List.map_cons, ← List.append_assoc]
  exact List.perm_middle

/-- A stored library is overwritten. -/
theorem reads_replaceMethod_overwritten
    {g : GenericFunction wordSize Class Object Library}
    {stored before rest : List (Method wordSize Class Object × Library)}
    {own : List (Method wordSize Class Object)}
    {old : Method wordSize Class Object × Library}
    (splits : Splits g stored own) (shape : stored = before ++ old :: rest)
    (m : Method wordSize Class Object) {lib : Library}
    (foreign : lib ≠ g.incrementalGfLibrary) :
    Reads (replaceMethod g m lib before.length)
      ((m, lib) :: (before ++ (rest ++
        own.map (fun m => (m, g.incrementalGfLibrary))))) := by
  have inside : before.length < g.methodLibraries.length := by
    rw [splits.libraries, shape]
    simp
  have branch : replaceMethod g m lib before.length =
      { g with
        methodLibraries := g.methodLibraries.set before.length lib
        methods := g.methods.set before.length m } := by
    simp [replaceMethod, inside, foreign]
  have next : Splits (replaceMethod g m lib before.length)
      (before ++ (m, lib) :: rest) own := by
    rw [branch]
    refine ⟨?_, ?_⟩
    · simp [splits.methods, shape]
    · simp [splits.libraries, shape]
  refine next.reads ?_
  rw [branch, List.append_assoc, List.cons_append]
  exact List.perm_middle

/-- Both methods belong to the generic function's own library. -/
theorem reads_replaceMethod_own
    {g : GenericFunction wordSize Class Object Library}
    {stored : List (Method wordSize Class Object × Library)}
    {own front back : List (Method wordSize Class Object)}
    {old m : Method wordSize Class Object}
    (splits : Splits g stored own) (shape : own = front ++ old :: back) :
    Reads
      (replaceMethod g m g.incrementalGfLibrary
        (stored.length + front.length))
      ((m, g.incrementalGfLibrary) ::
        (stored ++ front.map (fun m => (m, g.incrementalGfLibrary)) ++
          back.map (fun m => (m, g.incrementalGfLibrary)))) := by
  have outside :
      ¬stored.length + front.length < g.methodLibraries.length := by
    rw [splits.libraries]
    simp
  have branch : replaceMethod g m g.incrementalGfLibrary
      (stored.length + front.length) =
        { g with
          methods := g.methods.set (stored.length + front.length) m } := by
    simp [replaceMethod, outside]
  have next : Splits (replaceMethod g m g.incrementalGfLibrary
      (stored.length + front.length)) stored (front ++ m :: back) := by
    rw [branch]
    refine ⟨?_, splits.libraries⟩
    simp [splits.methods, shape]
  refine next.reads ?_
  rw [branch, List.map_append, List.map_cons, ← List.append_assoc]
  exact List.perm_middle

/-- A library becomes stored; the first own method makes room. -/
theorem reads_replaceMethod_stored
    {g : GenericFunction wordSize Class Object Library}
    {stored : List (Method wordSize Class Object × Library)}
    {own front back : List (Method wordSize Class Object)}
    {old m : Method wordSize Class Object} {lib : Library}
    (splits : Splits g stored own) (shape : own = front ++ old :: back)
    (foreign : lib ≠ g.incrementalGfLibrary)
    (remembered : front = [] → old = m) :
    Reads (replaceMethod g m lib (stored.length + front.length))
      ((m, lib) ::
        (stored ++ front.map (fun m => (m, g.incrementalGfLibrary)) ++
          back.map (fun m => (m, g.incrementalGfLibrary)))) := by
  have count : g.methodLibraries.length = stored.length := by
    rw [splits.libraries, List.length_map]
  cases front with
  | nil =>
      have same := remembered rfl
      have branch : replaceMethod g m lib stored.length =
          { g with methodLibraries := g.methodLibraries ++ [lib] } := by
        simp [replaceMethod, foreign, count]
      have next : Splits (replaceMethod g m lib stored.length)
          (stored ++ [(m, lib)]) back := by
        rw [branch]
        refine ⟨?_, ?_⟩
        · simp [splits.methods, shape, same]
        · simp [splits.libraries]
      refine next.reads ?_
      rw [branch]
      simp
  | cons first front =>
      have taken : g.methods[stored.length]? = some first := by
        rw [splits.methods, shape, List.getElem?_append_right (by simp)]
        simp
      have branch : replaceMethod g m lib
          (stored.length + (first :: front).length) =
            { g with
              methodLibraries := g.methodLibraries ++ [lib]
              methods := (g.methods.set
                (stored.length + (first :: front).length) first).set
                  stored.length m } := by
        have outside : ¬stored.length + (front.length + 1) <
            stored.length := by omega
        simp [replaceMethod, foreign, count, taken, outside]
      have next : Splits (replaceMethod g m lib
          (stored.length + (first :: front).length))
            (stored ++ [(m, lib)]) (front ++ first :: back) := by
        rw [branch]
        refine ⟨?_, ?_⟩
        · simp [splits.methods, shape]
        · simp [splits.libraries]
      refine next.reads ?_
      rw [branch]
      simp only [List.map_append, List.map_cons, List.append_assoc,
        List.cons_append, List.nil_append]
      refine (List.perm_middle).trans (List.Perm.cons _ ?_)
      exact List.Perm.append_left _ List.perm_middle

variable [DecidableEq Class] [DecidableEq Object]

/-- Outside the forgetful branch the new method takes the old one's place. -/
theorem reads_replaceMethod
    {g : GenericFunction wordSize Class Object Library}
    {before after : List (Method wordSize Class Object × Library)}
    {old : Method wordSize Class Object × Library} {idx : Nat}
    (bounded : g.methodLibraries.length ≤ g.methods.length)
    (position : At g before old after idx)
    {m : Method wordSize Class Object} {lib : Library}
    (remembered : forgets g old.1 m lib idx = false) :
    Reads (replaceMethod g m lib idx) ((m, lib) :: (before ++ after)) := by
  obtain ⟨stored, own, splits⟩ := exists_splits bounded
  rcases splits.at_index position with
    ⟨rest, shape, rfl, -⟩ | ⟨front, back, shape, rfl, rfl, idxEq⟩
  · rw [← position.index]
    by_cases foreign : lib = g.incrementalGfLibrary
    · subst foreign
      exact reads_replaceMethod_dropped splits shape m
    · exact reads_replaceMethod_overwritten splits shape m foreign
  · rw [idxEq]
    by_cases foreign : lib = g.incrementalGfLibrary
    · subst foreign
      exact reads_replaceMethod_own splits shape
    · refine reads_replaceMethod_stored splits shape foreign ?_
      rintro rfl
      have count : g.methodLibraries.length = stored.length := by
        rw [splits.libraries, List.length_map]
      simpa [forgets, count, idxEq, foreign] using remembered

/-- In the forgetful branch the sequence of methods stays as it was. -/
theorem methods_replaceMethod_of_forgets
    {g : GenericFunction wordSize Class Object Library}
    {old m : Method wordSize Class Object} {lib : Library} {idx : Nat}
    (forgotten : forgets g old m lib idx = true) :
    (replaceMethod g m lib idx).methods = g.methods := by
  simp only [forgets, Bool.and_eq_true, decide_eq_true_eq] at forgotten
  obtain ⟨⟨rfl, foreign⟩, -⟩ := forgotten
  simp [replaceMethod, foreign]

theorem bounded_replaceMethod_of_forgets
    {g : GenericFunction wordSize Class Object Library}
    {before after : List (Method wordSize Class Object × Library)}
    {old : Method wordSize Class Object × Library}
    {m : Method wordSize Class Object} {lib : Library} {idx : Nat}
    (bounded : g.methodLibraries.length ≤ g.methods.length)
    (position : At g before old after idx)
    (forgotten : forgets g old.1 m lib idx = true) :
    (replaceMethod g m lib idx).methodLibraries.length ≤
      (replaceMethod g m lib idx).methods.length := by
  have size : (recorded g).length = g.methods.length := by
    rw [← recorded_map_fst bounded, List.length_map]
  rw [position.entries, List.length_append, List.length_cons,
    position.index] at size
  simp only [forgets, Bool.and_eq_true, decide_eq_true_eq] at forgotten
  obtain ⟨⟨rfl, foreign⟩, -⟩ := forgotten
  simp [replaceMethod, foreign]
  omega

/-! ## Locating and removing -/

theorem locateMethod_spec (world : Universe wordSize Class Object)
    {specializers : List (DylanType wordSize Class Object)}
    {methods : List (Method wordSize Class Object)} {start idx : Nat}
    {old : Method wordSize Class Object}
    (found : locateMethod world specializers methods start =
      some (some (old, idx))) :
    ∃ before after, methods = before ++ old :: after ∧
      idx = start + before.length ∧
      sameSpecializers world old.specializers specializers = some true := by
  induction methods generalizing start with
  | nil => simp [locateMethod] at found
  | cons method methods ih =>
      simp only [locateMethod] at found
      split at found
      · simp at found
      · rename_i same
        cases found
        exact ⟨[], methods, rfl, by simp, same⟩
      · obtain ⟨before, after, shape, index, same⟩ := ih found
        refine ⟨method :: before, after, by simp [shape], ?_, same⟩
        simp only [index, List.length_cons]
        omega

theorem locateMethod_none (world : Universe wordSize Class Object)
    {specializers : List (DylanType wordSize Class Object)}
    {methods : List (Method wordSize Class Object)} {start : Nat}
    (missing : locateMethod world specializers methods start = some none) :
    ∀ m ∈ methods,
      sameSpecializers world m.specializers specializers = some false := by
  induction methods generalizing start with
  | nil => simp
  | cons method methods ih =>
      simp only [locateMethod] at missing
      split at missing
      · simp at missing
      · simp at missing
      · rename_i different
        intro m member
        rcases List.mem_cons.mp member with rfl | later
        · exact different
        · exact ih missing m later

/-! ## The specification -/

/-- The new method has the same specializers as the old one. -/
def replaces (world : Universe wordSize Class Object)
    (m old : Method wordSize Class Object) : Bool :=
  sameSpecializers world old.specializers m.specializers = some true

@[simp]
theorem replaces_self (world : Universe wordSize Class Object)
    (m : Method wordSize Class Object) : replaces world m m = true := by
  have same : ∀ specializers : List (DylanType wordSize Class Object),
      sameSpecializers world specializers specializers = some true := by
    intro specializers
    induction specializers with
    | nil => rfl
    | cons spec specializers ih => simp [sameSpecializers, bothOf, ih]
  simp [replaces, same]

theorem replaces_of_specializers_eq (world : Universe wordSize Class Object)
    {m old : Method wordSize Class Object}
    (same : old.specializers = m.specializers) :
    replaces world m old = true := by
  have self := replaces_self world m
  simp only [replaces, same] at self ⊢
  exact self

/-- The addition passes the checks and all comparisons succeed. -/
def accepts (world : Universe wordSize Class Object)
    (g : GenericFunction wordSize Class Object Library)
    (m : Method wordSize Class Object) (lib : Library) (checks : Checks) :
    Bool :=
  !(checks.checkSealing && methodNotFrobbable g lib checks) &&
    checks.typeComplete && checks.congruent &&
      (locateMethod world m.specializers g.methods 0).isSome

/-- The methods added and not since replaced or removed, with the libraries
they were added from, after one more event. -/
def historyStep (world : Universe wordSize Class Object)
    (g : GenericFunction wordSize Class Object Library)
    (live : List (Method wordSize Class Object × Library)) :
    Event wordSize Class Object Library →
      List (Method wordSize Class Object × Library)
  | .addMethod m lib checks =>
      if accepts world g m lib checks then
        live.filter (fun entry => !replaces world m entry.1) ++ [(m, lib)]
      else
        live
  | .removeMethod test lib checks =>
      match (removeMethodInternal g test lib checks).1 with
      | some m => live.filter (fun entry => entry.1 ≠ m)
      | none => live
  | _ => live

/-- The specification along a run. -/
def history (world : Universe wordSize Class Object)
    (g : GenericFunction wordSize Class Object Library)
    (live : List (Method wordSize Class Object × Library)) :
    List (Event wordSize Class Object Library) →
      List (Method wordSize Class Object × Library)
  | [] => live
  | event :: events =>
      history world (step world g event) (historyStep world g live event)
        events

/-- The discriminator and all tracked call-site caches are absent. -/
def allReset (g : GenericFunction wordSize Class Object Library) : Bool :=
  g.discriminator = .absent &&
    g.cacheUsers.all (fun user => user = none || user = some .absent)

/-- What an event should do to the table and to the caches. -/
def StepCorrect (world : Universe wordSize Class Object)
    (g : GenericFunction wordSize Class Object Library)
    (live : List (Method wordSize Class Object × Library))
    (event : Event wordSize Class Object Library) : Prop :=
  (recorded (step world g event)).Perm (historyStep world g live event) ∧
    (recorded (step world g event) ≠ recorded g →
      allReset (step world g event) = true)

/--
The condition on an event.  An addition has at most one method to replace, and
does not replace the first method without a stored library by another method
from a foreign library; a removal finds nothing cached.
-/
def aligned (world : Universe wordSize Class Object)
    (g : GenericFunction wordSize Class Object Library) :
    Event wordSize Class Object Library → Bool
  | .addMethod m lib checks =>
      !accepts world g m lib checks ||
        ((g.methods.countP (replaces world m) ≤ 1) &&
          match locateMethod world m.specializers g.methods 0 with
          | some (some (old, idx)) => !forgets g old m lib idx
          | _ => true)
  | .removeMethod test lib checks =>
      (removeMethodInternal g test lib checks).1 = none || allReset g
  | _ => true

/-- The condition on a run. -/
def alignedRun (world : Universe wordSize Class Object)
    (g : GenericFunction wordSize Class Object Library) :
    List (Event wordSize Class Object Library) → Bool
  | [] => true
  | event :: events =>
      aligned world g event && alignedRun world (step world g event) events

/-- Every cached engine calls only methods of the table. -/
structure EnginesWithin (g : GenericFunction wordSize Class Object Library) :
    Prop where
  discriminator : ∀ m ∈ g.discriminator.methods, m ∈ g.methods
  cacheUsers : ∀ engine, some engine ∈ g.cacheUsers →
    ∀ m ∈ engine.methods, m ∈ g.methods

/-- The invariant that ties a generic function to the specification. -/
structure Invariant (g : GenericFunction wordSize Class Object Library)
    (live : List (Method wordSize Class Object × Library)) : Prop where
  reads : Reads g live
  distinct : (g.methods.map Method.specializers).Nodup
  engines : EnginesWithin g

end Operations

end OpenDylan.Runtime.MethodTable
