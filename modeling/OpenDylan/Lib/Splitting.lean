import Mathlib.Data.List.Infix
import Mathlib.Data.List.Nodup

/-!
# Splitting at a pattern

A text is cut at the occurrences of a pattern that a scan from left to right
comes upon, where the scan goes on behind each occurrence, and stops cutting
when it has made as many pieces as it may.  The pieces are told by where they
start and stop.  Joined with the pattern they give back the text, and no piece
has an occurrence in it unless the scan was kept from cutting.
-/

namespace OpenDylan.Lib.Splitting

variable {Element : Type*}

/-- The elements of a text from a start to a stop. -/
def slice (text : List Element) (start stop : Nat) : List Element :=
  (text.drop start).take (stop - start)

/-- A pattern occurs in a text at a place. -/
def Occurs (pattern text : List Element) (place : Nat) : Prop :=
  pattern <+: text.drop place

instance [DecidableEq Element] (pattern text : List Element) (place : Nat) :
    Decidable (Occurs pattern text place) :=
  inferInstanceAs (Decidable (pattern <+: text.drop place))

theorem slice_length {text : List Element} {start stop : Nat}
    (inside : stop ≤ text.length) :
    (slice text start stop).length = stop - start := by
  rw [slice, List.length_take, List.length_drop]
  omega

theorem slice_self (text : List Element) (start : Nat) :
    slice text start start = [] := by
  rw [slice, Nat.sub_self, List.take_zero]

theorem slice_append (text : List Element) {start middle stop : Nat}
    (before : start ≤ middle) (after : middle ≤ stop) :
    slice text start middle ++ slice text middle stop =
      slice text start stop := by
  have split : stop - start = (middle - start) + (stop - middle) := by omega
  have place : middle = start + (middle - start) := by omega
  rw [slice, slice, slice, split, List.take_add, List.drop_drop, ← place]

/-- What occurs at a place is the slice there. -/
theorem occurs_iff_slice {pattern text : List Element} {place : Nat} :
    Occurs pattern text place ↔
      slice text place (place + pattern.length) = pattern := by
  rw [Occurs, List.prefix_iff_eq_take, slice, Nat.add_sub_cancel_left]
  exact eq_comm

/-- A slice has a pattern in it, if that occurs between its ends. -/
theorem infix_slice_iff {pattern text : List Element} {start stop : Nat}
    (inside : stop ≤ text.length) (le : start ≤ stop) :
    pattern <:+: slice text start stop ↔
      ∃ place, start ≤ place ∧ place + pattern.length ≤ stop ∧
        Occurs pattern text place := by
  constructor
  · rintro ⟨front, back, whole⟩
    have lengths := congrArg List.length whole
    rw [slice_length inside, List.length_append, List.length_append]
      at lengths
    refine ⟨start + front.length, by omega, by omega, ?_⟩
    have dropped := congrArg (List.drop front.length) whole
    rw [List.append_assoc, List.drop_left, slice, List.drop_take,
      List.drop_drop] at dropped
    rw [Occurs]
    exact (List.prefix_append pattern back).trans
      (dropped ▸ List.take_prefix _ _)
  · rintro ⟨place, after, before, occurs⟩
    rw [← slice_append text after (show place ≤ stop by omega),
      ← slice_append text (show place ≤ place + pattern.length by omega)
        before, occurs_iff_slice.mp occurs]
    exact ⟨_, _, List.append_assoc _ _ _⟩

/-- The cuts of a text from a start to a stop, with a limit to their
number. -/
inductive Cuts (pattern text : List Element) (stop : Nat) :
    Nat → Nat → List (Nat × Nat) → Prop where
  | last {limit start}
      (none : ∀ place, start ≤ place → place + pattern.length ≤ stop →
        ¬ Occurs pattern text place) :
      Cuts pattern text stop limit start [(start, stop)]
  | limited {start} : Cuts pattern text stop 1 start [(start, stop)]
  | next {limit start place cuts} (positive : 0 < limit)
      (after : start ≤ place) (before : place + pattern.length ≤ stop)
      (occurs : Occurs pattern text place)
      (first : ∀ earlier, start ≤ earlier → earlier < place →
        ¬ Occurs pattern text earlier)
      (rest : Cuts pattern text stop limit (place + pattern.length) cuts) :
      Cuts pattern text stop (limit + 1) start ((start, place) :: cuts)

/-- What comes between a piece and the rest is the pattern. -/
def joined (pattern : List Element) : List (List Element) → List Element
  | [] => []
  | first :: rest => first ++ rest.flatMap (pattern ++ ·)

/-- The pieces that cuts are made for. -/
def pieces (text : List Element) (cuts : List (Nat × Nat)) :
    List (List Element) :=
  cuts.map fun cut => slice text cut.1 cut.2

variable {pattern text : List Element} {limit start stop : Nat}
  {cuts : List (Nat × Nat)}

/-- There are no more pieces than there may be. -/
theorem Cuts.length_le (made : Cuts pattern text stop limit start cuts)
    (positive : 0 < limit) : cuts.length ≤ limit := by
  induction made with
  | last => exact positive
  | limited => exact le_rfl
  | next more after before occurs first rest ih =>
      have shorter := ih more
      rw [List.length_cons]
      omega

/-- The first piece starts where the scan does. -/
theorem Cuts.head (made : Cuts pattern text stop limit start cuts) :
    ∃ place rest, cuts = (start, place) :: rest := by
  cases made with
  | last => exact ⟨stop, [], rfl⟩
  | limited => exact ⟨stop, [], rfl⟩
  | next => exact ⟨_, _, rfl⟩

/-- All pieces lie between the ends. -/
theorem Cuts.within (made : Cuts pattern text stop limit start cuts)
    (le : start ≤ stop) :
    ∀ cut ∈ cuts, start ≤ cut.1 ∧ cut.1 ≤ cut.2 ∧ cut.2 ≤ stop := by
  induction made with
  | last => simp [le]
  | limited => simp [le]
  | next more after before occurs first rest ih =>
      intro cut member
      rcases List.mem_cons.mp member with rfl | member
      · exact ⟨le_rfl, after, by dsimp only; omega⟩
      · have inside := ih before cut member
        exact ⟨by omega, inside.2⟩

theorem joined_cons_cons (first second : List Element)
    (rest : List (List Element)) :
    joined pattern (first :: second :: rest) =
      first ++ pattern ++ joined pattern (second :: rest) := by
  simp [joined]

/-- The pieces joined with the pattern give back the text. -/
theorem Cuts.joined_pieces (made : Cuts pattern text stop limit start cuts)
    (le : start ≤ stop) :
    joined pattern (pieces text cuts) = slice text start stop := by
  induction made with
  | last => simp [joined, pieces]
  | limited => simp [joined, pieces]
  | @next limit start place cuts more after before occurs first rest ih =>
      obtain ⟨next, tail, rfl⟩ := rest.head
      have whole := ih before
      simp only [pieces, List.map_cons] at whole ⊢
      have found := occurs_iff_slice.mp occurs
      rw [joined_cons_cons, whole, List.append_assoc]
      calc slice text start place ++
            (pattern ++ slice text (place + pattern.length) stop)
          = slice text start place ++
              (slice text place (place + pattern.length) ++
                slice text (place + pattern.length) stop) := by rw [found]
        _ = slice text start stop := by
            rw [slice_append text (Nat.le_add_right _ _) before,
              slice_append text after (by omega)]

/-- Without a limit that is reached, no piece has the pattern in it. -/
theorem Cuts.no_infix (made : Cuts pattern text stop limit start cuts)
    (inside : stop ≤ text.length) (nonempty : pattern ≠ [])
    (le : start ≤ stop) (enough : stop < start + limit) :
    ∀ piece ∈ pieces text cuts, ¬ pattern <:+: piece := by
  have length : 0 < pattern.length := List.length_pos_iff.mpr nonempty
  induction made with
  | @last limit start none =>
      intro piece member
      obtain rfl : piece = slice text start stop := by
        simpa [pieces] using member
      rw [infix_slice_iff inside le]
      rintro ⟨place, after, before, occurs⟩
      exact none place after before occurs
  | @limited start =>
      intro piece member
      obtain rfl : piece = slice text start stop := by
        simpa [pieces] using member
      rw [infix_slice_iff inside le]
      rintro ⟨place, after, before, occurs⟩
      omega
  | @next limit start place cuts more after before occurs first rest ih =>
      intro piece member
      rcases List.mem_cons.mp member with rfl | member
      · rw [infix_slice_iff (by omega) after]
        rintro ⟨earlier, later, ends, occursEarlier⟩
        exact first earlier later (by omega) occursEarlier
      · exact ih before (by omega) piece member

/-- There is one piece, exactly if no more are allowed or nothing is found. -/
theorem Cuts.single_iff (made : Cuts pattern text stop limit start cuts) :
    cuts.length = 1 ↔ limit = 1 ∨
      ∀ place, start ≤ place → place + pattern.length ≤ stop →
        ¬ Occurs pattern text place := by
  cases made with
  | last none => exact iff_of_true rfl (Or.inr none)
  | limited => exact iff_of_true rfl (Or.inl rfl)
  | @next limit _ place cuts more after before occurs first rest =>
      obtain ⟨next, tail, rfl⟩ := rest.head
      refine iff_of_false (by simp) ?_
      rintro (one | none)
      · omega
      · exact none place after before occurs

/-- A single piece is all of the text between the ends. -/
theorem Cuts.eq_of_single (made : Cuts pattern text stop limit start cuts)
    (single : cuts.length = 1) : cuts = [(start, stop)] := by
  cases made with
  | last => rfl
  | limited => rfl
  | next more after before occurs first rest =>
      obtain ⟨next, tail, rfl⟩ := rest.head
      simp at single

/-- The first one of several pieces is empty, exactly if the pattern occurs at
the start. -/
theorem Cuts.first_empty_iff (made : Cuts pattern text stop limit start cuts)
    (several : cuts.length ≠ 1) {place : Nat} {rest : List (Nat × Nat)}
    (first : cuts = (start, place) :: rest) :
    place = start ↔ start + pattern.length ≤ stop ∧
      Occurs pattern text start := by
  subst first
  cases made with
  | last => exact absurd rfl several
  | limited => exact absurd rfl several
  | next more after before occurs first rest =>
      constructor
      · rintro rfl
        exact ⟨before, occurs⟩
      · rintro ⟨_, here⟩
        by_contra different
        exact first start le_rfl (by omega) here

/-- A pattern occurs at one place of distinct elements. -/
theorem Occurs.unique {place place' : Nat} (distinct : text.Nodup)
    (nonempty : pattern ≠ []) (occurs : Occurs pattern text place)
    (occurs' : Occurs pattern text place') : place = place' := by
  obtain ⟨element, pattern, rfl⟩ := List.exists_cons_of_ne_nil nonempty
  obtain ⟨rest, whole⟩ := occurs
  obtain ⟨rest', whole'⟩ := occurs'
  have read := @List.getElem?_drop _ text place 0
  have read' := @List.getElem?_drop _ text place' 0
  rw [← whole] at read
  rw [← whole'] at read'
  obtain ⟨inside, here⟩ := List.getElem?_eq_some_iff.mp read.symm
  obtain ⟨inside', here'⟩ := List.getElem?_eq_some_iff.mp read'.symm
  exact (List.Nodup.getElem_inj_iff distinct).mp (here.trans here'.symm)

/-- Distinct elements are cut once. -/
theorem Cuts.eq_of_distinct {place : Nat} (distinct : text.Nodup)
    (nonempty : pattern ≠ [])
    (made : Cuts pattern text stop limit start ((start, place) :: cuts))
    (more : cuts ≠ []) : cuts = [(place + pattern.length, stop)] := by
  have length : 0 < pattern.length := List.length_pos_iff.mpr nonempty
  cases made with
  | last => exact absurd rfl more
  | limited => exact absurd rfl more
  | next positive after before occurs first rest =>
      cases rest with
      | last => rfl
      | limited => rfl
      | next positive' after' before' occurs' first' rest' =>
          have same := occurs.unique distinct nonempty occurs'
          omega

end OpenDylan.Lib.Splitting
