import Mathlib.Data.List.Induction

/-!
# Walks up and down

A place below a root is the list of the names that lead down to it, the last
one first.  A walk stays, goes up, or goes down to a name; above the root there
is only the root.  What a walk does in the end is to go up for a while and then
down, wherever it starts.
-/

namespace OpenDylan.Lib.StackWalk

variable {Name : Type}

inductive Move (Name : Type) where
  | stay
  | up
  | down (name : Name)
deriving DecidableEq

/-- A single move from a place. -/
def move (place : List Name) : Move Name → List Name
  | .stay => place
  | .up => place.tail
  | .down name => name :: place

/-- A walk from a place. -/
def walk (place : List Name) (moves : List (Move Name)) : List Name :=
  moves.foldl move place

/-- Going up for a while, and then down along names, the last one first. -/
structure Net (Name : Type) where
  ups : Nat
  downs : List Name
deriving DecidableEq

/-- One move more. -/
def Net.add (net : Net Name) : Move Name → Net Name
  | .stay => net
  | .up =>
      match net.downs with
      | [] => ⟨net.ups + 1, []⟩
      | _ :: downs => ⟨net.ups, downs⟩
  | .down name => ⟨net.ups, name :: net.downs⟩

/-- What a walk does in the end. -/
def net (moves : List (Move Name)) : Net Name :=
  moves.foldl Net.add ⟨0, []⟩

/-- Where it leads from a place. -/
def Net.apply (net : Net Name) (place : List Name) : List Name :=
  net.downs ++ place.drop net.ups

theorem Net.apply_add (net : Net Name) (place : List Name)
    (next : Move Name) :
    (net.add next).apply place = move (net.apply place) next := by
  rcases net with ⟨ups, downs⟩
  cases next with
  | stay => rfl
  | up =>
      cases downs with
      | nil => simp [add, apply, move]
      | cons name downs => simp [add, apply, move]
  | down name => rfl

theorem net_append_singleton (moves : List (Move Name)) (next : Move Name) :
    net (moves ++ [next]) = (net moves).add next := by
  rw [net, List.foldl_append]
  rfl

/-- A walk leads where its net effect does, from every place. -/
theorem walk_eq (place : List Name) (moves : List (Move Name)) :
    walk place moves = (net moves).apply place := by
  induction moves using List.reverseRecOn with
  | nil => simp [walk, net, Net.apply]
  | append_singleton moves next inductionHypothesis =>
      rw [net_append_singleton, Net.apply_add, ← inductionHypothesis, walk,
        List.foldl_append]
      rfl

/-- The straight walk with a net effect. -/
def Net.moves (net : Net Name) : List (Move Name) :=
  List.replicate net.ups .up ++ net.downs.reverse.map .down

theorem net_replicate_up (count : Nat) :
    net (List.replicate count (.up : Move Name)) = ⟨count, []⟩ := by
  induction count with
  | zero => rfl
  | succ count inductionHypothesis =>
      rw [List.replicate_succ', net_append_singleton, inductionHypothesis]
      rfl

theorem net_moves (effect : Net Name) : net effect.moves = effect := by
  rcases effect with ⟨ups, downs⟩
  rw [Net.moves]
  induction downs with
  | nil =>
      rw [List.reverse_nil, List.map_nil, List.append_nil, net_replicate_up]
  | cons name downs inductionHypothesis =>
      rw [List.reverse_cons, List.map_append, ← List.append_assoc]
      rw [List.map_singleton, net_append_singleton, inductionHypothesis]
      rfl

/-- One effect after another. -/
def Net.followedBy (first second : Net Name) : Net Name where
  ups := first.ups + (second.ups - first.downs.length)
  downs := second.downs ++ first.downs.drop second.ups

theorem Net.followedBy_add (first second : Net Name) (next : Move Name) :
    (first.followedBy second).add next =
      first.followedBy (second.add next) := by
  rcases second with ⟨ups, downs⟩
  cases next with
  | stay => rfl
  | down name => rfl
  | up =>
      cases downs with
      | cons name downs => rfl
      | nil =>
          by_cases below : ups < first.downs.length
          · have left : first.downs.drop ups =
                first.downs[ups] :: first.downs.drop (ups + 1) :=
              List.drop_eq_getElem_cons below
            simp only [followedBy, add, List.nil_append, left, mk.injEq,
              and_true]
            omega
          · have left : first.downs.drop ups = [] :=
              List.drop_eq_nil_of_le (Nat.le_of_not_lt below)
            have further : first.downs.drop (ups + 1) = [] := by
              rw [← List.drop_drop, left, List.drop_nil]
            simp only [followedBy, add, List.nil_append, left, further,
              mk.injEq, and_true]
            omega

/-- The net effect of a walk in two parts. -/
theorem net_append (first second : List (Move Name)) :
    net (first ++ second) = (net first).followedBy (net second) := by
  induction second using List.reverseRecOn with
  | nil => simp [net, Net.followedBy]
  | append_singleton second next inductionHypothesis =>
      rw [← List.append_assoc, net_append_singleton, inductionHypothesis,
        Net.followedBy_add, net_append_singleton]

/-! ## Above the start -/

def Move.isUp : Move Name → Bool
  | .up => true
  | _ => false

def Move.isDown : Move Name → Bool
  | .down _ => true
  | _ => false

/-- Some way along the walk it has gone up more often than down. -/
def Climbs (moves : List (Move Name)) : Prop :=
  ∃ front back, moves = front ++ back ∧
    front.countP Move.isDown < front.countP Move.isUp

theorem Climbs.append {moves : List (Move Name)} (climbs : Climbs moves)
    (more : List (Move Name)) : Climbs (moves ++ more) := by
  rcases climbs with ⟨front, back, rfl, high⟩
  exact ⟨front, back ++ more, List.append_assoc .., high⟩

/-- Every move up takes a name away or is left over. -/
theorem net_count (moves : List (Move Name)) :
    (net moves).downs.length + moves.countP Move.isUp =
      moves.countP Move.isDown + (net moves).ups := by
  induction moves using List.reverseRecOn with
  | nil => rfl
  | append_singleton moves next inductionHypothesis =>
      rw [net_append_singleton, List.countP_append, List.countP_append]
      cases next with
      | stay => exact inductionHypothesis
      | up =>
          rw [Net.add]
          cases downs : (net moves).downs with
          | nil =>
              rw [downs] at inductionHypothesis
              simp [Move.isUp, Move.isDown] at inductionHypothesis ⊢
              omega
          | cons name rest =>
              rw [downs] at inductionHypothesis
              simp [Move.isUp, Move.isDown] at inductionHypothesis ⊢
              omega
      | down name =>
          simp [Net.add, Move.isUp, Move.isDown]
          omega

theorem ups_append (moves more : List (Move Name)) :
    (net moves).ups ≤ (net (moves ++ more)).ups := by
  induction more using List.reverseRecOn with
  | nil => simp
  | append_singleton more next inductionHypothesis =>
      apply Nat.le_trans inductionHypothesis
      rw [← List.append_assoc, net_append_singleton]
      cases next with
      | stay => exact Nat.le_refl _
      | up =>
          rw [Net.add]
          split
          · exact Nat.le_succ _
          · exact Nat.le_refl _
      | down name => exact Nat.le_refl _

/-- A walk goes up from its start in the end just when it climbs. -/
theorem climbs_iff (moves : List (Move Name)) :
    Climbs moves ↔ 0 < (net moves).ups := by
  constructor
  · rintro ⟨front, back, rfl, high⟩
    have count := net_count front
    have grown := ups_append front back
    omega
  · intro high
    induction moves using List.reverseRecOn with
    | nil => cases high
    | append_singleton moves next inductionHypothesis =>
        by_cases before : 0 < (net moves).ups
        · exact (inductionHypothesis before).append [next]
        · have count := net_count moves
          rw [net_append_singleton] at high
          cases next with
          | stay => exact absurd high before
          | down name => exact absurd high before
          | up =>
              rw [Net.add] at high
              split at high
              · rename_i downs
                refine ⟨moves ++ [.up], [], (List.append_nil _).symm, ?_⟩
                rw [downs, List.length_nil] at count
                simp [Move.isUp, Move.isDown]
                omega
              · exact absurd high before

end OpenDylan.Lib.StackWalk
