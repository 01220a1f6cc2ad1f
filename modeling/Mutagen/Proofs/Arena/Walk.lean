import Mutagen.Proofs.Arena.Reading
import Mutagen.Proofs.Node.LevelOrder
import Mutagen.Proofs.Random.Draws

set_option autoImplicit false

namespace Mutagen.Arena

open Node (Occurrence)

variable {a b : Arena} {id start start' : NodeId} {ids below : List NodeId} {node root : Node} {nodes : List Node} {cell : Cell}
  {path path' : Path} {i j : Nat}

def follow (a : Arena) : NodeId → Path → Option NodeId
  | id, [] => some id
  | id, i :: path => do
      let cell ← a.cell? id
      let child ← cell.children[i]?
      a.follow child path

theorem follow_cons (found : a.cell? id = some cell) (i : Nat) (path : Path) :
    a.follow id (i :: path) = cell.children[i]?.bind fun child => a.follow child path := by
  rw [follow, found]
  rfl

theorem follow_append (id : NodeId) (path rest : Path) :
    a.follow id (path ++ rest) = (a.follow id path).bind fun inner => a.follow inner rest := by
  induction path generalizing id with
  | nil => rfl
  | cons i path ih =>
      cases found : a.cell? id with
      | none => rw [List.cons_append, follow, follow, found]; rfl
      | some cell =>
          rw [List.cons_append, follow_cons found, follow_cons found, Option.bind_assoc]
          exact congrArg _ (funext fun child => ih child)

theorem follow_at (is : a.Is id node) (path : Path) : Option.Rel a.Is (a.follow id path) (node.at? path) := by
  induction path generalizing id node with
  | nil => exact .some is
  | cons i path ih =>
      obtain ⟨cell, found, _, under⟩ := is_cell is
      rw [follow_cons found, Node.at_cons]
      rcases rel_cases (forall_at under i) with ⟨none, none'⟩ | ⟨child, child', inside, inside', is⟩
      · rw [none, none']
        exact .none
      · rw [inside, inside']
        exact ih is

theorem follow_node (is : a.Is start node) (leads : a.follow start path = some id) :
    ∃ inner, node.at? path = some inner ∧ a.Is id inner := by
  rcases rel_cases (follow_at is path) with ⟨none, _⟩ | ⟨_, inner, leads', inside, is⟩
  · cases none.symm.trans leads
  · cases leads'.symm.trans leads
    exact ⟨inner, inside, is⟩

theorem node_follow {inner : Node} (is : a.Is start node) (inside : node.at? path = some inner) :
    ∃ id, a.follow start path = some id ∧ a.Is id inner := by
  rcases rel_cases (follow_at is path) with ⟨_, none⟩ | ⟨id, _, leads, inside', is⟩
  · cases none.symm.trans inside
  · cases inside'.symm.trans inside
    exact ⟨id, leads, is⟩

theorem mem_below_iff (held : a.Holds ids nodes below) :
    id ∈ below ↔ ∃ start ∈ ids, ∃ path, a.follow start path = some id := by
  induction held with
  | nil => simp
  | @cons first cell node ids below rest nodes found _ under others ih ih' =>
      rw [List.mem_cons, List.mem_append, ih, ih']
      constructor
      · rintro (rfl | ⟨child, member, path, leads⟩ | ⟨start, member, path, leads⟩)
        · exact ⟨id, List.mem_cons_self, [], rfl⟩
        · obtain ⟨i, inside, rfl⟩ := List.getElem_of_mem member
          refine ⟨first, List.mem_cons_self, i :: path, ?_⟩
          rw [follow_cons found, List.getElem?_eq_getElem inside]
          exact leads
        · exact ⟨start, List.mem_cons_of_mem first member, path, leads⟩
      · rintro ⟨start, member, path, leads⟩
        rcases List.mem_cons.mp member with rfl | further
        · cases path with
          | nil =>
              cases leads
              exact .inl rfl
          | cons i path =>
              rw [follow_cons found, Option.bind_eq_some_iff] at leads
              obtain ⟨child, inside, leads⟩ := leads
              exact .inr (.inl ⟨child, List.mem_of_getElem? inside, path, leads⟩)
        · exact .inr (.inr ⟨start, further, path, leads⟩)

-- No cell is met twice, so just one path leads to it.
theorem follow_unique (held : a.Holds ids nodes below) (distinct : below.Nodup) (first : ids[i]? = some start)
    (second : ids[j]? = some start') (leads : a.follow start path = some id) (leads' : a.follow start' path' = some id) :
    i = j ∧ path = path' := by
  induction held generalizing i j start start' path path' with
  | nil => cases first
  | @cons head cell node ids below rest nodes found _ under others ih ih' =>
      obtain ⟨apart, distinct⟩ := List.nodup_cons.mp distinct
      obtain ⟨distinctUnder, distinctOthers, disjoint⟩ := List.nodup_append.mp distinct
      have inside {k : Nat} {p : Path} (deeper : a.follow head (k :: p) = some id) : id ∈ below := by
        rw [follow_cons found, Option.bind_eq_some_iff] at deeper
        obtain ⟨child, member, leads⟩ := deeper
        exact (mem_below_iff under).mpr ⟨child, List.mem_of_getElem? member, p, leads⟩
      have beside {k : Nat} {s : NodeId} {p : Path} (place : ids[k]? = some s) (leads : a.follow s p = some id) : id ∈ rest :=
        (mem_below_iff others).mpr ⟨s, List.mem_of_getElem? place, p, leads⟩
      have at_or_below {p : Path} (leads : a.follow head p = some id) : id ∉ rest := by
        intro member
        cases p with
        | nil =>
            cases leads
            exact apart (List.mem_append_right _ member)
        | cons k p => exact disjoint id (inside leads) id member rfl
      cases i with
      | zero =>
          cases first
          cases j with
          | zero =>
              cases second
              refine ⟨rfl, ?_⟩
              cases path with
              | nil =>
                  cases leads
                  cases path' with
                  | nil => rfl
                  | cons k path' => exact absurd (List.mem_append_left _ (inside leads')) apart
              | cons k path =>
                  cases path' with
                  | nil =>
                      cases leads'
                      exact absurd (List.mem_append_left _ (inside leads)) apart
                  | cons l path' =>
                      rw [follow_cons found, Option.bind_eq_some_iff] at leads leads'
                      obtain ⟨child, place, leads⟩ := leads
                      obtain ⟨child', place', leads'⟩ := leads'
                      obtain ⟨rfl, rfl⟩ := ih distinctUnder place place' leads leads'
                      rfl
          | succ j => exact absurd (beside second leads') (at_or_below leads)
      | succ i =>
          cases j with
          | zero =>
              cases second
              exact absurd (beside first leads) (at_or_below leads')
          | succ j =>
              obtain ⟨rfl, rfl⟩ := ih' distinctOthers first second leads leads'
              exact ⟨rfl, rfl⟩

structure At (a : Arena) (id : NodeId) (o : Occurrence) : Prop where
  leads : a.follow a.root o.path = some id
  is : a.Is id o.node

theorem at_children {o : Occurrence} (here : a.At id o) (found : a.cell? id = some cell) :
    List.Forall₂ a.At cell.children o.children := by
  obtain ⟨_, found', _, under⟩ := is_cell here.is
  cases found.symm.trans found'
  refine List.forall₂_iff_get.mpr ⟨by simpa [Occurrence.children] using under.length_eq, fun i inside inside' => ?_⟩
  have below : i < o.node.children.length := by simpa [Occurrence.children] using inside'
  simp only [Occurrence.children, List.get_eq_getElem, List.getElem_mapIdx]
  refine ⟨?_, (List.forall₂_iff_get.mp under).2 i inside below⟩
  show a.follow a.root (o.path ++ [i]) = some cell.children[i]
  rw [follow_append, here.leads, Option.bind_some, follow_cons found, List.getElem?_eq_getElem inside]
  rfl

theorem walk_from_at {queue : List NodeId} {queue' : List Occurrence} (waiting : List.Forall₂ a.At queue queue') :
    ∃ ids, a.walkFrom queue = some ids ∧ List.Forall₂ a.At ids (Node.walkFrom queue') := by
  fun_induction Node.walkFrom queue' generalizing queue with
  | case1 =>
      cases waiting
      exact ⟨[], walkFrom.eq_1 .., .nil⟩
  | case2 o rest ih =>
      cases waiting with
      | @cons id _ front _ here others =>
          obtain ⟨cell, found, _⟩ := is_cell here.is
          obtain ⟨ids, walked, all⟩ := ih (List.rel_append others (at_children here found))
          refine ⟨id :: ids, ?_, .cons here all⟩
          rw [walkFrom]
          simp only [found, Option.bind_eq_bind, Option.bind_some, walked]
          rfl

theorem root_at (is : a.Is a.root root) : a.At a.root ⟨[], root⟩ := ⟨rfl, is⟩

theorem walk_at (is : a.Is a.root root) : ∃ ids, a.walk? = some ids ∧ List.Forall₂ a.At ids root.walk :=
  walk_from_at (.cons (root_at is) .nil)

end Mutagen.Arena
