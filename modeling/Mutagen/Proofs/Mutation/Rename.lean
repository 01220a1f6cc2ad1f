import Mutagen.Proofs.Mutation.Outcomes
import Mutagen.Proofs.Mutation.Shape
import Mutagen.Proofs.Node.Change
import Mutagen.Proofs.TreesEqual

set_option autoImplicit false

namespace Mutagen

open Node Mutation

variable {code : String} {tree : Tree}

theorem draws_verbatim (parsed : Tree.parse code = .ok tree) (single : ¬ ReadsTwo tree.root) :
    Draws (mutateVariable code) fun report => report.result = .ok code := by
  rw [mutateVariable, parsed]
  refine draws_ite (draws_pure rfl) (draws_bind (exactly_keep single).1 fun outcome keeps => ?_)
  rw [(keeps_tree keeps).1]
  exact draws_pure rfl

theorem draws_renamed (parsed : Tree.parse code = .ok tree) (two : ReadsTwo tree.root) :
    Draws (mutateVariable code) fun report =>
      ∃ outcome, Renames tree outcome ∧ report.result = .ok outcome.tree.render := by
  intro words
  obtain ⟨outcome, renames, same⟩ := (exactly_mutate_variable parsed two).1 words
  exact ⟨outcome, renames, by rw [same]⟩

theorem changed_text_differs {path : Path} {old new : Node} {changed : Tree} (parsed : Tree.parse code = .ok tree)
    (differs : DiffersAt path tree.root changed.root old new) (apart : new ≠ old) (shaped : WellShaped changed.root)
    (filled : Everywhere Filled tree.root → Everywhere Filled changed.root) :
    treesEqual code changed.render ≠ .ok true := by
  intro equal
  by_cases limits : WithinLimits (fill changed.root)
  · have reparsed : Tree.parse changed.render = .ok _ := (fill_parses shaped).1 limits
    rw [trees_equal_eq parsed reparsed, Except.ok.injEq, beq_iff_eq] at equal
    have same : tree.root = fill changed.root :=
      (tree_dump_iff (parsed_own_text parsed) (parsed_own_text reparsed)).mp equal
    have whole : Everywhere Filled tree.root := by
      rw [same]
      exact fill_filled shaped.shaped
    rw [fill_self (filled whole)] at same
    have was := differs.was
    rw [same, differs.becomes] at was
    cases was
    exact apart rfl
  · obtain ⟨e, failed, _⟩ := (fill_parses shaped).2 limits
    have reparsed : Tree.parse changed.render = .error e := failed
    rw [treesEqual, parsed, reparsed] at equal
    cases equal

theorem renamed_shaped (shaped : ShapedTree tree) {path : Path} {old new : String}
    (found : tree.root.at? path = some (.name old .load)) (isRead : IsRead tree.root new) :
    ShapedTree (modifyAt tree path fun _ => .name new .load) := by
  obtain ⟨other, place⟩ := isRead
  exact changes_shaped shaped (fun _ => uses_identifier shaped) (.renamed found ⟨other, .load, place⟩)

/-- A renaming gives one name that is read the identifier of another, and the text is never read as the tree before; where
no two names are read, the text stays as it is. -/
theorem rename_guarantee (parsed : Tree.parse code = .ok tree) (words : Words) :
    (¬ ReadsTwo tree.root → (mutateVariable code words).1.result = .ok code) ∧
      (ReadsTwo tree.root → ∃ changed : Tree, (mutateVariable code words).1.result = .ok changed.render ∧
        (∃ path old new, DiffersAt path tree.root changed.root (.name old .load) (.name new .load) ∧ new ≠ old ∧
          IsRead tree.root new) ∧
        treesEqual code changed.render ≠ .ok true) := by
  refine ⟨fun single => draws_verbatim parsed single words, fun two => ?_⟩
  obtain ⟨outcome, ⟨path, old, new, found, isRead, different, rfl⟩, result⟩ := draws_renamed parsed two words
  have differs : DiffersAt path tree.root (modifyAt tree path fun _ => .name new .load).root
      (.name old .load) (.name new .load) := modify_differs found rfl rfl
  refine ⟨_, result, ⟨path, old, new, differs, different, isRead⟩, ?_⟩
  have apart : Node.name new .load ≠ .name old .load := fun same => different (Node.name.inj same).1
  refine changed_text_differs parsed differs apart (renamed_shaped (Grammar.parse_shaped parsed) found isRead) ?_
  exact fun filled => modify_filled filled (.leaf trivial rfl)

theorem rename_guarantee_sum : ReadsTwo sumTree.root ∧ ∃ changed : Tree,
    (mutateVariable sumTree.render (.ofList [])).1.result = .ok changed.render ∧
      treesEqual sumTree.render changed.render ≠ .ok true := by
  obtain ⟨changed, result, _, apart⟩ := (rename_guarantee sum_parse (.ofList [])).2 sum_reads_two
  exact ⟨sum_reads_two, changed, result, apart⟩

end Mutagen
