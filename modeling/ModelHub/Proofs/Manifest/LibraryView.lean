import Mathlib.Data.Set.Lattice
import ModelHub.Manifest.LibraryTag
import ModelHub.Push.Event

/-! The library tags of a tree of files, and what becomes of them when commits are applied tag by tag:
those of removed files go, then those of added files come. Many files share a tag, so this can lose a
tag whose file is still there, but never leaves one behind. -/

namespace ModelHub

namespace LibraryTag

def view (scope : TagScope) (tree : Set String) : Set String :=
  {tag | ∃ path ∈ tree, ofFile? scope path = some tag}

variable {scope : TagScope} {tree other : Set String}

theorem view_mono (part : tree ⊆ other) : view scope tree ⊆ view scope other := by
  rintro tag ⟨path, member, tagged⟩
  exact ⟨path, part member, tagged⟩

theorem view_union : view scope (tree ∪ other) = view scope tree ∪ view scope other := by
  ext tag
  simp only [view, Set.mem_union, Set.mem_ofPred_eq, or_and_right, exists_or]

theorem view_empty : view scope ∅ = ∅ := by
  ext tag
  simp [view]

theorem view_diff_subset : view scope tree \ view scope other ⊆ view scope (tree \ other) := by
  rintro tag ⟨⟨path, member, tagged⟩, kept⟩
  exact ⟨path, ⟨member, fun isOther => kept ⟨path, isOther, tagged⟩⟩, tagged⟩

end LibraryTag

open LibraryTag (view)

namespace Commit

def addedFiles (commit : Commit) : Set String := {path | path ∈ commit.added}

def removedFiles (commit : Commit) : Set String := {path | path ∈ commit.removed}

def apply (commit : Commit) (tree : Set String) : Set String :=
  tree \ commit.removedFiles ∪ commit.addedFiles

structure Fits (commit : Commit) (tree : Set String) : Prop where
  modified : ∀ path ∈ commit.modified, path ∈ tree
  removed : ∀ path ∈ commit.removed, path ∈ tree
  added : ∀ path ∈ commit.added, path ∉ tree \ commit.removedFiles

def retag (scope : TagScope) (commit : Commit) (tags : Set String) : Set String :=
  tags \ view scope commit.removedFiles ∪ view scope commit.addedFiles

/-- A tag that a file loses is not that of a file which stays, or else a file comes with it. -/
def Spares (scope : TagScope) (commit : Commit) (tree : Set String) : Prop :=
  view scope commit.removedFiles ∩ view scope (tree \ commit.removedFiles) ⊆
    view scope commit.addedFiles

variable {scope : TagScope} {commit : Commit} {tree tags : Set String}

theorem retag_subset (part : tags ⊆ view scope tree) :
    commit.retag scope tags ⊆ view scope (commit.apply tree) := by
  unfold retag apply
  rw [LibraryTag.view_union]
  refine Set.union_subset_union_left _ ?_
  exact (Set.sdiff_subset_sdiff_left part).trans LibraryTag.view_diff_subset

/-- A view is kept up by the commits that spare what they leave, and by no others. -/
theorem retag_view_eq_iff : commit.retag scope (view scope tree) = view scope (commit.apply tree) ↔
    commit.Spares scope tree := by
  have part := @retag_subset scope commit tree _ subset_rfl
  constructor
  · rintro same tag ⟨lost, stays⟩
    have shown : tag ∈ commit.retag scope (view scope tree) := by
      rw [same]
      exact LibraryTag.view_mono Set.subset_union_left stays
    exact shown.resolve_left fun kept => kept.2 lost
  · intro spares
    refine Set.Subset.antisymm part ?_
    unfold apply
    rw [LibraryTag.view_union]
    rintro tag (stays | comes)
    · by_cases lost : tag ∈ view scope commit.removedFiles
      · exact Or.inr (spares ⟨lost, stays⟩)
      · exact Or.inl ⟨LibraryTag.view_mono Set.sdiff_subset stays, lost⟩
    · exact Or.inr comes

end Commit

namespace History

def Throughout (holds : Commit → Set String → Prop) : List Commit → Set String → Prop
  | [], _ => True
  | commit :: rest, tree => holds commit tree ∧ Throughout holds rest (commit.apply tree)

def tree (commits : List Commit) : Set String :=
  commits.foldl (fun tree commit => commit.apply tree) ∅

def tags (scope : TagScope) (commits : List Commit) : Set String :=
  commits.foldl (fun tags commit => commit.retag scope tags) ∅

variable {scope : TagScope} {commits : List Commit}

theorem foldl_retag_subset {before : Set String} {shown : Set String}
    (part : shown ⊆ view scope before) :
    commits.foldl (fun tags commit => commit.retag scope tags) shown ⊆
      view scope (commits.foldl (fun tree commit => commit.apply tree) before) := by
  induction commits generalizing before shown with
  | nil => exact part
  | cons commit rest ih => exact ih (Commit.retag_subset part)

theorem tags_subset_view (scope : TagScope) (commits : List Commit) :
    tags scope commits ⊆ view scope (tree commits) :=
  foldl_retag_subset (Set.empty_subset _)

theorem foldl_retag_view {before : Set String}
    (spare : Throughout (Commit.Spares scope) commits before) :
    commits.foldl (fun tags commit => commit.retag scope tags) (view scope before) =
      view scope (commits.foldl (fun tree commit => commit.apply tree) before) := by
  induction commits generalizing before with
  | nil => rfl
  | cons commit rest ih =>
    have first := Commit.retag_view_eq_iff.mpr spare.1
    rw [List.foldl_cons, List.foldl_cons, first]
    exact ih spare.2

theorem tags_eq_view (spare : Throughout (Commit.Spares scope) commits ∅) :
    tags scope commits = view scope (tree commits) := by
  have folded := foldl_retag_view spare
  rwa [LibraryTag.view_empty] at folded

end History

end ModelHub
