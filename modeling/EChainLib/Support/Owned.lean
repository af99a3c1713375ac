import Mathlib

/-! Nodes that own others through lists of their numbers, and are deleted together with
what they own. A node that is not alive cannot be used or deleted. -/

namespace EChainLib.Owned

variable {Node : Type}

/-- The nodes alive, how many were created, and the deleted ones in their order. -/
structure Heap (Node : Type) where
  node : Nat → Option Node
  created : Nat
  deleted : List Nat

namespace Heap

def set (heap : Heap Node) (id : Nat) (node : Node) : Heap Node :=
  { heap with node := fun other => if other = id then some node else heap.node other }

def create (heap : Heap Node) (node : Node) : Heap Node :=
  { heap.set heap.created node with created := heap.created + 1 }

/-- The nodes are deleted, in this order. -/
def without (heap : Heap Node) (ids : List Nat) : Heap Node :=
  { heap with
    node := fun id => if id ∈ ids then none else heap.node id
    deleted := heap.deleted ++ ids }

end Heap

variable (owns : Node → List Nat)

/-- Delete a node behind what it owns. -/
def destroy : Nat → Heap Node → Nat → Option (Heap Node)
  | 0, _, _ => none
  | fuel + 1, heap, id => do
      let node ← heap.node id
      let heap ← (owns node).foldlM (destroy fuel) heap
      return heap.without [id]

/-- What goes with a node, in the order in which it goes. -/
def below (node : Nat → Option Node) : Nat → Nat → List Nat
  | 0, _ => []
  | fuel + 1, id =>
      match node id with
      | none => []
      | some owner => (owns owner).flatMap (below node fuel) ++ [id]

/-- The node is alive, and all that it owns. -/
def Whole (node : Nat → Option Node) : Nat → Nat → Prop
  | 0, _ => False
  | fuel + 1, id => ∃ owner, node id = some owner ∧ ∀ child ∈ owns owner, Whole node fuel child

variable {owns}

variable (owns) in
/-- The child stands in the list of the node. -/
def Stands (heap : Heap Node) (id child : Nat) : Prop :=
  ∃ owner, heap.node id = some owner ∧ child ∈ owns owner

variable (owns) in
/-- Node 0 is alive and owns the others, each through one list, where it stands once; and
a node is alive or deleted, once. Owners are older than what they own. -/
structure Rooted (heap : Heap Node) : Prop where
  root : heap.node 0 ≠ none
  made : ∀ id, heap.node id ≠ none → id < heap.created
  distinct : ∀ id owner, heap.node id = some owner → (owns owner).Nodup
  alive : ∀ id child, Stands owns heap id child → heap.node child ≠ none ∧ id < child
  single : ∀ child id other, Stands owns heap id child → Stands owns heap other child → id = other
  owned : ∀ child, heap.node child ≠ none → child ≠ 0 → ∃ id, Stands owns heap id child
  once : heap.deleted.Nodup
  settled : ∀ id, id ∈ heap.deleted ↔ id < heap.created ∧ heap.node id = none

section Below

variable {heap : Heap Node} (rooted : Rooted owns heap)
include rooted

theorem Rooted.whole (fuel id : Nat) (here : heap.node id ≠ none)
    (enough : heap.created ≤ id + fuel) : Whole owns heap.node fuel id := by
  induction fuel generalizing id with
  | zero => exact absurd (rooted.made id here) (not_lt.mpr enough)
  | succ fuel ih =>
      obtain ⟨owner, alive⟩ := Option.ne_none_iff_exists'.mp here
      refine ⟨owner, alive, fun child member => ?_⟩
      obtain ⟨there, younger⟩ := rooted.alive id child ⟨owner, alive, member⟩
      exact ih child there (by omega)

omit rooted in
theorem mem_below {fuel id place : Nat} (inside : place ∈ below owns heap.node (fuel + 1) id) :
    heap.node id ≠ none ∧ (place = id ∨ ∃ owner, heap.node id = some owner ∧
      ∃ child ∈ owns owner, place ∈ below owns heap.node fuel child) := by
  rw [below] at inside
  cases alive : heap.node id with
  | none =>
      rw [alive] at inside
      cases inside
  | some owner =>
      simp only [alive, List.mem_append, List.mem_flatMap, List.mem_singleton] at inside
      refine ⟨Option.some_ne_none _, ?_⟩
      rcases inside with deeper | same
      · exact .inr ⟨owner, rfl, deeper⟩
      · exact .inl same

omit rooted in
theorem below_alive {fuel id place : Nat} (inside : place ∈ below owns heap.node fuel id) :
    heap.node place ≠ none := by
  induction fuel generalizing id with
  | zero => cases inside
  | succ fuel ih =>
      obtain ⟨here, rfl | ⟨owner, _, child, _, deeper⟩⟩ := mem_below inside
      · exact here
      · exact ih deeper

theorem Rooted.below_ge {fuel id place : Nat} (inside : place ∈ below owns heap.node fuel id) :
    id ≤ place := by
  induction fuel generalizing id with
  | zero => cases inside
  | succ fuel ih =>
      obtain ⟨_, rfl | ⟨owner, alive, child, member, deeper⟩⟩ := mem_below inside
      · exact le_rfl
      · exact (rooted.alive id child ⟨owner, alive, member⟩).2.le.trans (ih deeper)

omit rooted in
theorem below_self {fuel id : Nat} (whole : Whole owns heap.node fuel id) :
    id ∈ below owns heap.node fuel id := by
  cases fuel with
  | zero => cases whole
  | succ fuel =>
      obtain ⟨owner, alive, _⟩ := whole
      simp [below, alive]

omit rooted in
/-- What goes with a node and is not the node itself has its owner there too. -/
theorem below_owner {fuel id place : Nat} (whole : Whole owns heap.node fuel id)
    (inside : place ∈ below owns heap.node fuel id) (other : place ≠ id) :
    ∃ upper owner, upper ∈ below owns heap.node fuel id ∧ heap.node upper = some owner ∧
      place ∈ owns owner := by
  induction fuel generalizing id with
  | zero => cases inside
  | succ fuel ih =>
      obtain ⟨_, same | ⟨owner, alive, child, member, deeper⟩⟩ := mem_below inside
      · exact absurd same other
      obtain ⟨_, again, children⟩ := whole
      cases alive.symm.trans again
      have under {upper : Nat} (reached : upper ∈ below owns heap.node fuel child) :
          upper ∈ below owns heap.node (fuel + 1) id := by
        simp only [below, alive, List.mem_append, List.mem_flatMap]
        exact .inl ⟨child, member, reached⟩
      by_cases first : place = child
      · have self : id ∈ below owns heap.node (fuel + 1) id := by simp [below, alive]
        exact ⟨id, owner, self, alive, first ▸ member⟩
      · obtain ⟨upper, its, reached, found, owning⟩ := ih (children child member) deeper first
        exact ⟨upper, its, under reached, found, owning⟩

/-- What a node there owns is there. -/
theorem Rooted.below_closed {fuel id upper child : Nat} {owner : Node}
    (enough : heap.created ≤ id + fuel) (inside : upper ∈ below owns heap.node fuel id)
    (alive : heap.node upper = some owner) (member : child ∈ owns owner) :
    child ∈ below owns heap.node fuel id := by
  induction fuel generalizing id with
  | zero => cases inside
  | succ fuel ih =>
      obtain ⟨_, same | ⟨top, found, next, owning, deeper⟩⟩ := mem_below inside
      · subst same
        obtain ⟨there, younger⟩ := rooted.alive upper child ⟨owner, alive, member⟩
        have whole := rooted.whole fuel child there (by omega)
        simp only [below, alive, List.mem_append, List.mem_flatMap]
        exact .inl ⟨child, member, below_self whole⟩
      · have younger := (rooted.alive id next ⟨top, found, owning⟩).2
        simp only [below, found, List.mem_append, List.mem_flatMap]
        exact .inl ⟨next, owning, ih (by omega) deeper⟩

-- Strong induction on the node shared: the owner of a node is older than the node.
/-- Of two nodes that both take a third one with them, one takes the other. -/
theorem Rooted.nested {fuel more id other : Nat} (whole : Whole owns heap.node fuel id)
    (other_whole : Whole owns heap.node more other) (place : Nat)
    (inside : place ∈ below owns heap.node fuel id)
    (other_inside : place ∈ below owns heap.node more other) :
    id ∈ below owns heap.node more other ∨ other ∈ below owns heap.node fuel id := by
  induction place using Nat.strong_induction_on with
  | _ place ih =>
      by_cases first : place = id
      · exact .inl (first ▸ other_inside)
      by_cases second : place = other
      · exact .inr (second ▸ inside)
      obtain ⟨upper, owner, reached, found, owning⟩ := below_owner whole inside first
      obtain ⟨another, its, other_reached, other_found, other_owning⟩ :=
        below_owner other_whole other_inside second
      obtain rfl := rooted.single place upper another ⟨owner, found, owning⟩
        ⟨its, other_found, other_owning⟩
      exact ih upper (rooted.alive upper place ⟨owner, found, owning⟩).2 reached other_reached

theorem Rooted.siblings_apart {fuel id child other place : Nat} {owner : Node}
    (alive : heap.node id = some owner) (member : child ∈ owns owner)
    (other_member : other ∈ owns owner) (enough : heap.created ≤ id + (fuel + 1))
    (inside : place ∈ below owns heap.node fuel child)
    (other_inside : place ∈ below owns heap.node fuel other) : child = other := by
  obtain ⟨here, younger⟩ := rooted.alive id child ⟨owner, alive, member⟩
  obtain ⟨there, other_younger⟩ := rooted.alive id other ⟨owner, alive, other_member⟩
  have whole := rooted.whole fuel child here (by omega)
  have other_whole := rooted.whole fuel other there (by omega)
  -- the owner of both is older than everything below either of them
  have older {first second : Nat} (below_first : Whole owns heap.node fuel first)
      (owning : second ∈ owns owner) (young : id < first)
      (reached : second ∈ below owns heap.node fuel first) : second = first := by
    by_contra different
    obtain ⟨upper, its, there, found, holds⟩ := below_owner below_first reached different
    obtain rfl := rooted.single second upper id ⟨its, found, holds⟩ ⟨owner, alive, owning⟩
    exact absurd (rooted.below_ge there) (not_le.mpr young)
  rcases rooted.nested whole other_whole place inside other_inside with under | under
  · exact older other_whole member other_younger under
  · exact (older whole other_member younger under).symm

theorem Rooted.below_nodup (fuel id : Nat) (enough : heap.created ≤ id + fuel) :
    (below owns heap.node fuel id).Nodup := by
  induction fuel generalizing id with
  | zero => exact List.nodup_nil
  | succ fuel ih =>
      rw [below]
      cases alive : heap.node id with
      | none => exact List.nodup_nil
      | some owner =>
          have young (child : Nat) (member : child ∈ owns owner) :=
            (rooted.alive id child ⟨owner, alive, member⟩).2
          refine List.nodup_append.mpr ⟨?_, List.nodup_singleton id, ?_⟩
          · refine List.nodup_flatMap.mpr ⟨fun child member => ih child ?_, ?_⟩
            · have := young child member
              omega
            · refine (rooted.distinct id owner alive).imp_of_mem ?_
              intro child other member other_member different place inside other_inside
              exact different
                (rooted.siblings_apart alive member other_member enough inside other_inside)
          · intro place inside last same
            obtain ⟨child, member, deeper⟩ := List.mem_flatMap.mp inside
            have := young child member
            have := rooted.below_ge deeper
            have := List.mem_singleton.mp same
            omega

end Below

/-! Operations. -/

section Operations

variable {heap : Heap Node} (rooted : Rooted owns heap)
include rooted

section Create

variable {id : Nat} {owner leaf longer : Node} (alive : heap.node id = some owner)
  (bare : owns leaf = []) (added : owns longer = owns owner ++ [heap.created])
include alive

omit rooted in
theorem create_alive (place : Nat) : ((heap.create leaf).set id longer).node place ≠ none ↔
    place = heap.created ∨ heap.node place ≠ none := by
  show (if place = id then _ else if place = heap.created then _ else _) ≠ none ↔ _
  split_ifs with first second
  · simp [first, alive]
  · simp [second]
  · simp [second]

include bare added

theorem Rooted.create_stands (place child : Nat) :
    Stands owns ((heap.create leaf).set id longer) place child ↔
      (place = id ∧ child = heap.created) ∨ Stands owns heap place child := by
  have here := rooted.made id (by rw [alive]; exact Option.some_ne_none _)
  have fresh : heap.node heap.created = none := by
    by_contra there
    exact lt_irrefl _ (rooted.made _ there)
  show (∃ top, (if place = id then _ else if place = heap.created then _ else _) = some top ∧ _) ↔ _
  by_cases first : place = id
  · subst first
    simp [Stands, alive, added, or_comm]
  by_cases second : place = heap.created
  · simp [Stands, second, here.ne', bare, fresh]
  · simp [Stands, first, second]

/-- A new node at the end of a list. -/
theorem Rooted.create : Rooted owns ((heap.create leaf).set id longer) := by
  -- the new node is listed once, by its owner, and everything else stays where it was
  have stands := rooted.create_stands alive bare added
  have lives (place : Nat) : ((heap.create leaf).set id longer).node place ≠ none ↔ _ :=
    create_alive alive place
  have here := rooted.made id (by rw [alive]; exact Option.some_ne_none _)
  have fresh : heap.node heap.created = none := by
    by_contra there
    exact lt_irrefl _ (rooted.made _ there)
  have unlisted (place : Nat) : ¬ Stands owns heap place heap.created := fun listed =>
    (rooted.alive place _ listed).1 fresh
  refine ⟨?_, ?_, ?_, ?_, ?_, ?_, rooted.once, ?_⟩
  · exact (lives 0).mpr (.inr rooted.root)
  · intro place alive_now
    rcases (lives place).mp alive_now with new | old
    · exact new ▸ Nat.lt_succ_self _
    · exact (rooted.made place old).trans (Nat.lt_succ_self _)
  · intro place top found
    replace found : (if place = id then some longer else if place = heap.created then some leaf
      else heap.node place) = some top := found
    split_ifs at found
    · cases found
      rw [added]
      refine (rooted.distinct id owner alive).append (List.nodup_singleton _) ?_
      intro child old new
      rw [List.mem_singleton.mp new] at old
      exact unlisted id ⟨owner, alive, old⟩
    · cases found
      rw [bare]
      exact List.nodup_nil
    · exact rooted.distinct place top found
  · intro place child listed
    rcases (stands place child).mp listed with ⟨rfl, rfl⟩ | old
    · exact ⟨(lives _).mpr (.inl rfl), here⟩
    · obtain ⟨there, younger⟩ := rooted.alive place child old
      exact ⟨(lives child).mpr (.inr there), younger⟩
  · intro child place other listed listed_too
    rcases (stands place child).mp listed with ⟨rfl, rfl⟩ | old
    · rcases (stands other _).mp listed_too with ⟨rfl, _⟩ | old
      · rfl
      · exact absurd old (unlisted other)
    · rcases (stands other child).mp listed_too with ⟨rfl, rfl⟩ | old_too
      · exact absurd old (unlisted place)
      · exact rooted.single child place other old old_too
  · intro child alive_now later
    rcases (lives child).mp alive_now with rfl | old
    · exact ⟨id, (stands id _).mpr (.inl ⟨rfl, rfl⟩)⟩
    · obtain ⟨place, listed⟩ := rooted.owned child old later
      exact ⟨place, (stands place child).mpr (.inr listed)⟩
  · intro place
    have gone : ((heap.create leaf).set id longer).node place = none ↔
        place ≠ heap.created ∧ heap.node place = none := by
      rw [← not_iff_not, ← ne_eq, lives]
      tauto
    show place ∈ heap.deleted ↔ place < heap.created + 1 ∧ _
    rw [gone, rooted.settled]
    constructor
    · rintro ⟨made, dead⟩
      exact ⟨made.trans (Nat.lt_succ_self _), made.ne, dead⟩
    · rintro ⟨made, other, dead⟩
      exact ⟨lt_of_le_of_ne (Nat.le_of_lt_succ made) other, dead⟩

end Create

section Remove

variable {id child : Nat} {owner shorter : Node} (alive : heap.node id = some owner)
  (member : child ∈ owns owner)
include alive member

theorem Rooted.remove_alive (place : Nat) :
    ((heap.without (below owns heap.node heap.created child)).set id shorter).node place ≠ none ↔
      heap.node place ≠ none ∧ place ∉ below owns heap.node heap.created child := by
  have younger := (rooted.alive id child ⟨owner, alive, member⟩).2
  have kept : id ∉ below owns heap.node heap.created child := fun inside =>
    absurd (rooted.below_ge inside) (not_le.mpr younger)
  show (if place = id then _ else if place ∈ _ then _ else _) ≠ none ↔ _
  split_ifs with first second
  · subst first
    simp [alive, kept]
  · simp [second]
  · simp [second]

variable (removed : owns shorter = (owns owner).erase child)
include removed

theorem Rooted.remove_stands (place other : Nat) :
    Stands owns ((heap.without (below owns heap.node heap.created child)).set id shorter) place
        other ↔
      Stands owns heap place other ∧ other ∉ below owns heap.node heap.created child := by
  obtain ⟨here, younger⟩ := rooted.alive id child ⟨owner, alive, member⟩
  have whole := rooted.whole heap.created child here (by omega)
  have kept : id ∉ below owns heap.node heap.created child := fun inside =>
    absurd (rooted.below_ge inside) (not_le.mpr younger)
  -- what goes with the child has its owner among what goes, the child itself apart
  have owner_goes {upper : Nat} (listed : Stands owns heap upper other) (apart : other ≠ child)
      (inside : other ∈ below owns heap.node heap.created child) :
      upper ∈ below owns heap.node heap.created child := by
    obtain ⟨above, its, reached, found, owning⟩ := below_owner whole inside apart
    exact rooted.single other above upper ⟨its, found, owning⟩ listed ▸ reached
  show (∃ top, (if place = id then _ else if place ∈ _ then _ else _) = some top ∧ _) ↔ _
  by_cases first : place = id
  · subst first
    have stays (listed : other ∈ owns owner) :
        other ≠ child ↔ other ∉ below owns heap.node heap.created child := by
      constructor
      · exact fun apart inside => kept (owner_goes ⟨owner, alive, listed⟩ apart inside)
      · rintro outside rfl
        exact outside (below_self whole)
    simp only [if_true, Option.some.injEq, exists_eq_left', removed,
      (rooted.distinct place owner alive).mem_erase_iff, Stands, alive]
    constructor
    · rintro ⟨apart, listed⟩
      exact ⟨listed, (stays listed).mp apart⟩
    · rintro ⟨listed, outside⟩
      exact ⟨(stays listed).mpr outside, listed⟩
  by_cases second : place ∈ below owns heap.node heap.created child
  · simp only [if_neg first, if_pos second]
    refine iff_of_false (by simp) ?_
    rintro ⟨⟨top, found, listed⟩, outside⟩
    exact outside (rooted.below_closed (by omega) second found listed)
  · simp only [if_neg first, if_neg second]
    refine (and_iff_left_of_imp fun listed inside => ?_).symm
    by_cases same : other = child
    · subst same
      exact first (rooted.single other place id listed ⟨owner, alive, member⟩)
    · exact second (owner_goes listed same inside)

/-- A node is deleted, and taken off the list where it stands. -/
theorem Rooted.remove :
    Rooted owns ((heap.without (below owns heap.node heap.created child)).set id shorter) := by
  have stands := rooted.remove_stands alive member removed
  have lives (place : Nat) : ((heap.without _).set id shorter).node place ≠ none ↔ _ :=
    rooted.remove_alive alive member place
  have younger := (rooted.alive id child ⟨owner, alive, member⟩).2
  refine ⟨?_, ?_, ?_, ?_, ?_, ?_, ?_, ?_⟩
  · refine (lives 0).mpr ⟨rooted.root, fun inside => ?_⟩
    exact absurd (rooted.below_ge inside) (by omega)
  · exact fun place alive_now => rooted.made place ((lives place).mp alive_now).1
  · intro place top found
    replace found : (if place = id then some shorter
      else if place ∈ below owns heap.node heap.created child then none
      else heap.node place) = some top := found
    split_ifs at found
    · cases found
      rw [removed]
      exact (rooted.distinct id owner alive).erase child
    · exact rooted.distinct place top found
  · intro place other listed
    obtain ⟨old, outside⟩ := (stands place other).mp listed
    obtain ⟨there, after⟩ := rooted.alive place other old
    exact ⟨(lives other).mpr ⟨there, outside⟩, after⟩
  · intro other place another listed listed_too
    exact rooted.single other place another ((stands place other).mp listed).1
      ((stands another other).mp listed_too).1
  · intro other alive_now later
    obtain ⟨old, outside⟩ := (lives other).mp alive_now
    obtain ⟨place, listed⟩ := rooted.owned other old later
    exact ⟨place, (stands place other).mpr ⟨listed, outside⟩⟩
  · refine rooted.once.append (rooted.below_nodup _ child (by omega)) ?_
    exact fun place before inside => below_alive inside ((rooted.settled place).mp before).2
  · intro place
    have gone : ((heap.without (below owns heap.node heap.created child)).set id shorter).node place =
        none ↔ heap.node place = none ∨ place ∈ below owns heap.node heap.created child := by
      rw [← not_iff_not, ← ne_eq, lives]
      tauto
    show place ∈ heap.deleted ++ below owns heap.node heap.created child ↔
      place < heap.created ∧ _
    rw [gone, List.mem_append, rooted.settled]
    constructor
    · rintro (⟨made, dead⟩ | inside)
      · exact ⟨made, .inl dead⟩
      · exact ⟨rooted.made place (below_alive inside), .inr inside⟩
    · rintro ⟨made, dead | inside⟩
      · exact .inl ⟨made, dead⟩
      · exact .inr inside

end Remove

end Operations

end EChainLib.Owned
