import ModelHub.Git.Checkout
import ModelHub.Proofs.Domain.Identity
import ModelHub.Proofs.Files.Beneath

namespace ModelHub

open Files (IsBeneath isAbsolute join names settle ups way)

namespace Checkout

variable {checkout : Checkout}

/-- What is joined behind the directory of the types leads to a place beneath it. An absolute path has
to lead there from the root. A relative one leads some steps up and then down by some names: these
have to begin with the names that the steps up took away, which at the root may be fewer. -/
def Contains (checkout : Checkout) (types inner : String) : Prop :=
  let base := way checkout.root ++ [types]
  let within := way inner
  if isAbsolute inner then isAbsolute checkout.root ∧ base <+: within
  else (isAbsolute checkout.root ∨ within.count ".." ≤ base.length) ∧
    base.drop (base.length - within.count "..") <+: within.drop (within.count "..")

instance (checkout : Checkout) (types inner : String) : Decidable (checkout.Contains types inner) := by
  unfold Contains
  infer_instance

theorem isRelative_of_not_mem {text : String} (absent : '/' ∉ text.toList) :
    isAbsolute text = false :=
  decide_eq_false fun first => absent (List.mem_of_head? first)

theorem names_plural (repoType : RepoType) : names repoType.plural = [repoType.plural] := by
  cases repoType <;> decide

theorem way_types (root : String) (repoType : RepoType) :
    isAbsolute (join root repoType.plural) = isAbsolute root ∧
      way (join root repoType.plural) = way root ++ [repoType.plural] := by
  have isRelative : isAbsolute repoType.plural = false := by cases repoType <;> decide
  obtain ⟨absolute, joined⟩ := @Files.way_join root _ isRelative
  refine ⟨absolute, ?_⟩
  rw [joined, names_plural, List.foldl_cons, List.foldl_nil, Files.settle_name]
  · cases repoType <;> decide
  · cases repoType <;> decide

/-- The exact condition under which a request that is accepted stays within the directory of its type.
The path of the file alone does not decide it. -/
theorem resolve_isBeneath_iff {fullName : String} {identity : RepoIdentity} {repoType : RepoType}
    {reference path resolved : String} (parsed : RepoIdentity.parse fullName = .ok identity)
    (accepted : checkout.resolve
      { repoType, owner := identity.owner, name := identity.name, reference, path } = .ok resolved) :
    IsBeneath (join checkout.root repoType.plural) resolved ↔
      checkout.Contains repoType.plural ([identity.name, path].foldl join identity.owner) := by
  obtain ⟨-, ownerIsOne⟩ := (RepoIdentity.isSeparable_of_parse parsed).owner
  obtain ⟨absolute, base⟩ := way_types checkout.root repoType
  unfold resolve at accepted
  split at accepted
  · next isPlain =>
    obtain rfl := Except.ok.inj accepted
    simp only [Files.isPlain, Bool.and_eq_true, Bool.not_eq_true'] at isPlain
    have pathIsRelative : isAbsolute path = false := isPlain.1.1
    cases nameIs : isAbsolute identity.name with
    | true =>
      have replaced : ∀ before, join before identity.name = identity.name := by
        intro before
        rw [join, if_pos nameIs]
      have innerIs : isAbsolute (join identity.name path) = true :=
        (Files.way_join pathIsRelative).1.trans nameIs
      simp only [List.foldl_cons, List.foldl_nil, replaced, Contains, innerIs, if_true, IsBeneath,
        absolute, base, eq_comm]
    | false =>
      have relative : ∀ part ∈ [identity.owner, identity.name, path], isAbsolute part = false := by
        simp [isRelative_of_not_mem ownerIsOne, nameIs, pathIsRelative]
      have innerIs : isAbsolute ([identity.name, path].foldl join identity.owner) = false := by
        rw [(Files.way_foldl_join fun part member => relative part (List.mem_cons_of_mem _ member)).1]
        exact relative _ List.mem_cons_self
      have isName : repoType.plural ≠ ".." := by cases repoType <;> decide
      have beneath := Files.isBeneath_foldl_join_iff base isName relative
      rw [absolute, base] at beneath
      rw [Contains, innerIs, if_neg Bool.false_ne_true]
      exact beneath
  · cases accepted

def sibling : FileRequest where
  repoType := .model
  owner := ".."
  name := "private"
  reference := "refs/heads/main"
  path := "secret"

theorem sibling_escapes :
    RepoIdentity.parse "models_../private" =
        .ok { typeToken := "models", repoType := some .model, owner := "..", name := "private" } ∧
      Checkout.resolve { root := "/srv/git" } sibling = .ok "/srv/git/models/../private/secret" ∧
      ¬IsBeneath (join "/srv/git" RepoType.model.plural) "/srv/git/models/../private/secret" := by
  have parsed : RepoIdentity.parse "models_../private" =
      .ok { typeToken := "models", repoType := some .model, owner := "..", name := "private" } := by
    decide +kernel
  have accepted : Checkout.resolve { root := "/srv/git" } sibling =
      .ok "/srv/git/models/../private/secret" := by
    decide +kernel
  refine ⟨parsed, accepted, fun isBeneath => ?_⟩
  have contains := (resolve_isBeneath_iff parsed accepted).mp isBeneath
  revert contains
  decide +kernel

end Checkout

end ModelHub
