import Mutagen.Mutation.Candidate

set_option autoImplicit false

namespace Mutagen.Node

-- What stands at or below an occurrence, with its path from the same root.
def Below (start o : Occurrence) : Prop := ∃ path, o.path = start.path ++ path ∧ start.node.at? path = some o.node

theorem at_cons (node : Node) (i : Nat) (path : Path) :
    node.at? (i :: path) = node.children[i]?.bind fun child => child.at? path := rfl

theorem at_append (node : Node) (path rest : Path) :
    node.at? (path ++ rest) = (node.at? path).bind fun inner => inner.at? rest := by
  induction path generalizing node with
  | nil => rfl
  | cons i path ih =>
      rw [List.cons_append, at_cons, at_cons, Option.bind_assoc]
      exact congrArg _ (funext fun child => ih child)

theorem mem_children_iff {o child : Occurrence} :
    child ∈ o.children ↔ ∃ i, o.node.children[i]? = some child.node ∧ child.path = o.path ++ [i] := by
  rw [Occurrence.children, List.mem_mapIdx]
  constructor
  · rintro ⟨i, inside, rfl⟩
    exact ⟨i, List.getElem?_eq_getElem inside, rfl⟩
  · rintro ⟨i, found, path⟩
    obtain ⟨inside, same⟩ := List.getElem?_eq_some_iff.mp found
    exact ⟨i, inside, by rw [same, ← path]⟩

theorem below_iff {start o : Occurrence} : Below start o ↔ o = start ∨ ∃ child ∈ start.children, Below child o := by
  constructor
  · rintro ⟨path, place, found⟩
    cases path with
    | nil =>
        obtain ⟨above, node⟩ := start
        obtain ⟨here, same⟩ := o
        cases found
        rw [List.append_nil] at place
        exact .inl (congrArg (Occurrence.mk · node) place)
    | cons i path =>
        rw [at_cons, Option.bind_eq_some_iff] at found
        obtain ⟨node, child, inner⟩ := found
        refine .inr ⟨⟨start.path ++ [i], node⟩, mem_children_iff.mpr ⟨i, child, rfl⟩, path, ?_, inner⟩
        rw [place, List.append_assoc]
        rfl
  · rintro (rfl | ⟨child, member, path, place, found⟩)
    · exact ⟨[], (List.append_nil _).symm, rfl⟩
    · obtain ⟨i, inside, deeper⟩ := mem_children_iff.mp member
      refine ⟨i :: path, by rw [place, deeper, List.append_assoc]; rfl, ?_⟩
      rw [at_cons, inside]
      exact found

theorem mem_walk_from_iff {queue : List Occurrence} {o : Occurrence} :
    o ∈ walkFrom queue ↔ ∃ start ∈ queue, Below start o := by
  fun_induction walkFrom queue with
  | case1 => simp
  | case2 first rest ih =>
      rw [List.mem_cons, ih]
      constructor
      · rintro (rfl | ⟨start, member, below⟩)
        · exact ⟨o, List.mem_cons_self, below_iff.mpr (.inl rfl)⟩
        · rcases List.mem_append.mp member with waiting | child
          · exact ⟨start, List.mem_cons_of_mem first waiting, below⟩
          · exact ⟨first, List.mem_cons_self, below_iff.mpr (.inr ⟨start, child, below⟩)⟩
      · rintro ⟨start, member, below⟩
        rcases List.mem_cons.mp member with rfl | waiting
        · rcases below_iff.mp below with rfl | ⟨child, inside, below⟩
          · exact .inl rfl
          · exact .inr ⟨child, List.mem_append_right rest inside, below⟩
        · exact .inr ⟨start, List.mem_append_left _ waiting, below⟩

theorem mem_walk_iff {root : Node} {o : Occurrence} : o ∈ root.walk ↔ root.at? o.path = some o.node := by
  rw [walk, mem_walk_from_iff]
  constructor
  · rintro ⟨start, member, path, place, found⟩
    cases List.mem_singleton.mp member
    rw [place]
    exact found
  · intro found
    exact ⟨_, List.mem_singleton.mpr rfl, o.path, rfl, found⟩

-- The walk visits no node twice: no waiting node stands at or below another one.
def Apart (a b : Occurrence) : Prop := ¬ a.path <+: b.path ∧ ¬ b.path <+: a.path

theorem children_apart (o : Occurrence) : o.children.Pairwise Apart := by
  rw [List.pairwise_iff_getElem]
  intro i j first second less
  simp only [Occurrence.children, List.getElem_mapIdx, Apart]
  have alone {i j : Nat} (inside : o.path ++ [i] <+: o.path ++ [j]) : i = j := by
    have same := (List.prefix_append_right_inj _).mp inside
    exact (List.cons_prefix_cons.mp same).1
  exact ⟨fun inside => Nat.ne_of_lt less (alone inside), fun inside => Nat.ne_of_gt less (alone inside)⟩

theorem queue_apart {o : Occurrence} {rest : List Occurrence} (first : ∀ other ∈ rest, Apart o other)
    (others : rest.Pairwise Apart) : (rest ++ o.children).Pairwise Apart := by
  refine List.pairwise_append.mpr ⟨others, children_apart o, fun other waiting child below => ?_⟩
  obtain ⟨i, _, place⟩ := mem_children_iff.mp below
  rw [Apart, place]
  constructor
  · intro inside
    rcases List.prefix_concat_iff.mp inside with same | above
    · exact (first other waiting).1 (same ▸ List.prefix_append _ _)
    · exact (first other waiting).2 above
  · exact fun inside => (first other waiting).1 ((List.prefix_append _ _).trans inside)

theorem walk_from_nodup {queue : List Occurrence} (apart : queue.Pairwise Apart) :
    ((walkFrom queue).map (·.path)).Nodup := by
  fun_induction walkFrom queue with
  | case1 => exact List.nodup_nil
  | case2 o rest ih =>
      obtain ⟨first, others⟩ := List.pairwise_cons.mp apart
      refine List.nodup_cons.mpr ⟨fun again => ?_, ih (queue_apart first others)⟩
      obtain ⟨visited, inside, same⟩ := List.mem_map.mp again
      obtain ⟨start, queued, path, place, _⟩ := mem_walk_from_iff.mp inside
      have above : start.path <+: o.path := ⟨path, place.symm.trans same⟩
      rcases List.mem_append.mp queued with waiting | child
      · exact (first start waiting).2 above
      · obtain ⟨i, _, deeper⟩ := mem_children_iff.mp child
        have longer := above.length_le
        rw [deeper, List.length_append] at longer
        exact absurd longer (by simp)

theorem paths_nodup (p : Node → Bool) (root : Node) : (root.pathsWhere p).Nodup := by
  have all : (root.walk.map (·.path)).Nodup := walk_from_nodup (List.pairwise_singleton _ _)
  exact all.sublist (List.filter_sublist.map _)

theorem mem_paths_iff {p : Node → Bool} {root : Node} {path : Path} :
    path ∈ root.pathsWhere p ↔ ∃ node, root.at? path = some node ∧ p node = true := by
  rw [pathsWhere, List.mem_map]
  constructor
  · rintro ⟨o, member, rfl⟩
    obtain ⟨visited, holds⟩ := List.mem_filter.mp member
    exact ⟨o.node, mem_walk_iff.mp visited, holds⟩
  · rintro ⟨node, found, holds⟩
    exact ⟨⟨path, node⟩, List.mem_filter.mpr ⟨mem_walk_iff.mpr found, holds⟩, rfl⟩

theorem mem_variable_paths_iff {root : Node} {path : Path} :
    path ∈ root.variablePaths ↔ ∃ id, root.at? path = some (.name id .load) := by
  rw [variablePaths, mem_paths_iff]
  constructor
  · rintro ⟨node, found, isRead⟩
    split at isRead
    · exact ⟨_, found⟩
    · cases isRead
  · rintro ⟨id, found⟩
    exact ⟨_, found, rfl⟩

theorem mem_expression_paths_iff {root : Node} {path : Path} :
    path ∈ root.expressionPaths ↔
      ∃ node kind operator, root.at? path = some node ∧ node.kind? = some kind ∧
        Mutation.operator? kind = some operator := by
  rw [expressionPaths, mem_paths_iff]
  constructor
  · rintro ⟨node, found, holds⟩
    cases hasKind : node.kind? with
    | none =>
        rw [hasKind] at holds
        cases holds
    | some kind =>
        rw [hasKind, Option.any_some] at holds
        obtain ⟨operator, registered⟩ := Option.isSome_iff_exists.mp holds
        exact ⟨node, kind, operator, found, hasKind, registered⟩
  · rintro ⟨node, kind, operator, found, hasKind, registered⟩
    refine ⟨node, found, ?_⟩
    rw [hasKind, Option.any_some, registered]
    rfl

end Mutagen.Node
