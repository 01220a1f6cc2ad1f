import Mutagen.Proofs.Arena.Runs

set_option autoImplicit false

namespace Mutagen.Arena

open Node (Occurrence)

variable {a : Arena} {tree : Tree} {id : NodeId} {ids : List NodeId} {root : Node} {path : Path} {cell : Cell} {n : Nat}

def childrenOf (a : Arena) (id : NodeId) : List NodeId := ((a.cell? id).map Cell.children).getD []

/-- The cells at one distance from the root: below the cells of the level above, in their order, and in the order of the
fields. -/
def level (a : Arena) : Nat → List NodeId
  | 0 => [a.root]
  | n + 1 => (a.level n).flatMap a.childrenOf

theorem level_at (is : a.Is a.root root) (n : Nat) : List.Forall₂ a.At (a.level n) (root.level n) := by
  induction n with
  | zero => exact .cons (root_at is) .nil
  | succ n ih =>
      refine List.rel_flatMap ih fun id o here => ?_
      obtain ⟨cell, found, _⟩ := is_cell here.is
      rw [childrenOf, found]
      exact at_children here found

theorem forall_left {α β : Type} {R : α → β → Prop} {xs : List α} {ys : List β} (all : List.Forall₂ R xs ys) {x : α}
    (member : x ∈ xs) : ∃ y ∈ ys, R x y := by
  induction all with
  | nil => cases member
  | cons first _ ih =>
      rcases List.mem_cons.mp member with rfl | further
      · exact ⟨_, List.mem_cons_self, first⟩
      · obtain ⟨y, member, related⟩ := ih further
        exact ⟨y, List.mem_cons_of_mem _ member, related⟩

theorem at_unique : Relator.LeftUnique a.At := fun _ _ _ here here' => Option.some.inj (here.leads.symm.trans here'.leads)

/-- The walk has every cell below the root, each once, since just one path leads to it, and has them level by level. -/
structure LevelOrder (a : Arena) (ids : List NodeId) (depth : Nat) : Prop where
  reached : ∀ id, id ∈ ids ↔ ∃ path, a.follow a.root path = some id
  once : ids.Nodup
  first : ids.head? = some a.root
  alone : ∀ path path' id, a.follow a.root path = some id → a.follow a.root path' = some id → path = path'
  parents : ∀ parent ∈ ids, ∀ parent' ∈ ids, ∀ (i j : Nat) (id : NodeId), (a.childrenOf parent)[i]? = some id →
    (a.childrenOf parent')[j]? = some id → parent = parent' ∧ i = j
  acyclic : ∀ id ∈ ids, ∀ path, a.follow id path = some id → path = []
  levels : ids = (List.range depth).flatMap a.level
  distance : ∀ n id, id ∈ a.level n ↔ ∃ path, path.length = n ∧ a.follow a.root path = some id
  distances : ∀ n, a.level n ≠ [] ↔ n < depth
  mutable : a.expressions.Nodup ∧ a.expressions.Sublist ids
  names : a.variableIds.Nodup ∧ a.variableIds.Sublist ids

theorem follow_child {parent : NodeId} {i : Nat} (leads : a.follow a.root path = some parent)
    (below : (a.childrenOf parent)[i]? = some id) : a.follow a.root (path ++ [i]) = some id := by
  rw [follow_append, leads, Option.bind_some]
  cases found : a.cell? parent with
  | none =>
      rw [childrenOf, found] at below
      cases below
  | some cell =>
      rw [childrenOf, found] at below
      rw [follow_cons found]
      exact Option.bind_eq_some_iff.mpr ⟨id, below, rfl⟩

theorem rooted_alone {path' : Path} (rooted : a.Rooted root) (leads : a.follow a.root path = some id)
    (leads' : a.follow a.root path' = some id) : path = path' := by
  obtain ⟨below, held, distinct⟩ := rooted
  have first : [a.root][0]? = some a.root := rfl
  exact (follow_unique held distinct first first leads leads').2

theorem mem_level_iff (is : a.Is a.root root) : id ∈ a.level n ↔ ∃ path, path.length = n ∧ a.follow a.root path = some id := by
  constructor
  · intro member
    obtain ⟨o, listed, here⟩ := forall_left (level_at is n) member
    exact ⟨o.path, (Node.mem_level_iff.mp listed).1, here.leads⟩
  · rintro ⟨path, distance, leads⟩
    obtain ⟨node, place, _⟩ := follow_node is leads
    have listed : ⟨path, node⟩ ∈ root.level n := Node.mem_level_iff.mpr ⟨distance, place⟩
    obtain ⟨id', member, here⟩ := forall_left (level_at is n).flip listed
    cases here.leads.symm.trans leads
    exact member

theorem level_ne_nil_iff (is : a.Is a.root root) : a.level n ≠ [] ↔ n < root.depth := by
  rw [Node.depth_eq]
  constructor
  · intro filled
    obtain ⟨id, member⟩ := List.exists_mem_of_ne_nil _ filled
    obtain ⟨path, rfl, leads⟩ := (mem_level_iff is).mp member
    obtain ⟨node, place, _⟩ := follow_node is leads
    exact Node.at_height place
  · intro deep
    obtain ⟨path, node, distance, place⟩ := Node.height_reached deep
    obtain ⟨id, leads, _⟩ := node_follow is place
    exact List.ne_nil_of_mem ((mem_level_iff is).mpr ⟨path, distance, leads⟩)

theorem nodup_of_paths {os : List Occurrence} (rooted : a.Rooted root) (all : List.Forall₂ a.At ids os)
    (distinct : (os.map (·.path)).Nodup) : ids.Nodup := by
  induction all with
  | nil => exact List.nodup_nil
  | cons here others ih =>
      obtain ⟨apart, distinct⟩ := List.nodup_cons.mp distinct
      refine List.nodup_cons.mpr ⟨fun member => apart ?_, ih distinct⟩
      obtain ⟨o, listed, here'⟩ := forall_left others member
      exact List.mem_map.mpr ⟨o, listed, rooted_alone rooted here'.leads here.leads⟩

theorem rooted_level_order (rooted : a.Rooted root) :
    ∃ ids, a.walk? = some ids ∧ a.depth? a.root = some root.depth ∧ LevelOrder a ids root.depth := by
  have is := rooted_is rooted
  obtain ⟨ids, walked, all⟩ := walk_at is
  have levels : ids = (List.range root.depth).flatMap a.level := by
    refine List.left_unique_forall₂' at_unique all ?_
    rw [Node.walk_levels]
    exact List.rel_flatMap (List.forall₂_same.mpr fun n _ => rfl) fun n m same => same ▸ level_at is n
  have reached (id : NodeId) : id ∈ ids ↔ ∃ path, a.follow a.root path = some id := by
    simp only [levels, List.mem_flatMap, List.mem_range, mem_level_iff is]
    constructor
    · rintro ⟨_, _, path, _, leads⟩
      exact ⟨path, leads⟩
    · rintro ⟨path, leads⟩
      obtain ⟨node, place, _⟩ := follow_node is leads
      exact ⟨path.length, Node.depth_eq root ▸ Node.at_height place, path, rfl, leads⟩
  have once : ids.Nodup := nodup_of_paths rooted all (Node.walk_from_nodup (List.pairwise_singleton _ _))
  have collected (p : Cell → Bool) : (a.collect p).Nodup ∧ (a.collect p).Sublist ids := by
    rw [collect, walked, Option.getD_some]
    exact ⟨once.filter _, List.filter_sublist⟩
  refine ⟨ids, walked, depth_is is, reached, once, ?_, fun _ _ _ => rooted_alone rooted, ?_, ?_, levels,
    fun _ _ => mem_level_iff is, fun _ => level_ne_nil_iff is, collected _, collected _⟩
  · rw [Node.walk, Node.walkFrom] at all
    cases all with
    | cons here _ =>
        cases here.leads
        rfl
  · intro parent member parent' member' i j id below below'
    obtain ⟨path, leads⟩ := (reached parent).mp member
    obtain ⟨path', leads'⟩ := (reached parent').mp member'
    obtain ⟨rfl, same⟩ := List.append_inj' (rooted_alone rooted (follow_child leads below) (follow_child leads' below')) rfl
    exact ⟨Option.some.inj (leads.symm.trans leads'), (List.cons.inj same).1⟩
  · intro id member path round
    obtain ⟨above, leads⟩ := (reached id).mp member
    have again : a.follow a.root (above ++ path) = some id := by
      rw [follow_append, leads]
      exact round
    exact List.self_eq_append_right.mp (rooted_alone rooted leads again)

/-- In every arena that mutations lead to from a parsed program, the walk comes to an end and goes by levels. -/
theorem walk_goes_by_levels {source : String} {first : Arena} (parsed : Arena.parse source = .ok first) (leads : Leads first a) :
    ∃ ids depth, a.walk? = some ids ∧ a.depth? a.root = some depth ∧ LevelOrder a ids depth := by
  obtain ⟨_, last, _, _, has, _⟩ := leads_keep parsed leads
  obtain ⟨ids, walked, depth, order⟩ := rooted_level_order has.rooted
  exact ⟨ids, _, walked, depth, order⟩

-- The lambda loses its body, `g` takes the name of what was lost, and a detached cell is a candidate throughout.
theorem walk_goes_by_levels_detached : ∃ first a ids depth, Arena.parse "g(lambda: a)" = .ok first ∧ Leads first a ∧
    a.walk? = some ids ∧ a.depth? a.root = some depth ∧ LevelOrder a ids depth := by
  have parses : (Tree.parse "g(lambda: a)").toBool = true := by decide +kernel
  have whole := parse_has "g(lambda: a)"
  cases made : Tree.parse "g(lambda: a)" with
  | error e =>
      rw [made] at parses
      cases parses
  | ok tree =>
      rw [made] at whole
      obtain ⟨_, first, _, parsed, _⟩ := whole
      have leads : Leads first _ := ((Leads.start.step (.apply {} .lambda 3) (.ofList [])).step (.replace [1, 2]) (.ofList [0])).step
        (.adjust {} [2, 3, 9]) (.ofList [0])
      obtain ⟨ids, depth, walked, deep, order⟩ := walk_goes_by_levels parsed leads
      exact ⟨first, _, ids, depth, parsed, leads, walked, deep, order⟩

end Mutagen.Arena
