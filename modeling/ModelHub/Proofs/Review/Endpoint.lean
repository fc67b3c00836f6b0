import ModelHub.Proofs.Git.Remote
import ModelHub.Review.Endpoint

/-! Where repositories are handed in for review, beside where a git server keeps them. The git server
closes the path of its base before it goes on from it. The review goes on from the directory that the
base is in, so it keeps the base as it is only if that ends in a slash. -/

namespace ModelHub.Review

open Url.Path (directory slashed)

variable {text : String} {base : Url} {path : List String}

theorem endpoint_eq (parsed : Url.parse? text = some base) (web : base.IsWeb)
    (isPath : base.path = .segments path) :
    endpoint text = .ok { base with
      path := .segments (path.dropLast ++ ["api", "v1", "repo", "check"])
      query := none
      fragment := none } := by
  have joined : location = Text.join "/" ["api", "v1", "repo", "check"] := by decide
  have plain : ∀ name ∈ ["api", "v1", "repo", "check"], Url.Path.IsPlain name := by
    intro name member
    rw [← RemoteGit.encodeSegment_word
      ((by decide : ∀ name ∈ ["api", "v1", "repo", "check"],
        name ∈ ["api", "v1", "repos", "raw", "repo", "check", "_", ""]) name member)]
    exact RemoteGit.isPlain_encodeSegment name
  rw [endpoint, parsed, Option.bind_some, joined, web.resolve?_join isPath (by decide) plain,
    Url.Path.extend_of_not_dots (by decide)]

theorem directory_eq_slashed_iff (path : String) :
    directory path = slashed path ↔ path.toList.getLast? = some '/' := by
  constructor
  · intro same
    by_contra open_
    have shorter : (directory path).toList.length ≤ path.toList.length := by
      rw [directory, String.toList_ofList, List.length_reverse]
      exact (List.dropWhile_suffix _).length_le.trans_eq List.length_reverse
    rw [same, slashed, if_neg open_, String.toList_append, List.length_append] at shorter
    exact absurd shorter (Nat.not_succ_le_self _)
  · intro ends
    rw [← List.head?_reverse] at ends
    obtain ⟨rest, text⟩ := List.head?_eq_some_iff.mp ends
    rw [slashed, if_pos (by rw [← List.head?_reverse, ends]), directory, text,
      List.dropWhile_cons_of_neg (by decide), ← text, List.reverse_reverse, String.ofList_toList]

/-- Both services are reached from every base of the web. The review goes on from the directory of the
base, and so from where the repositories are if and only if the path of the base ends in a slash. -/
theorem endpoint_beside_repositories_iff (parsed : Url.parse? text = some base)
    (web : base.IsWeb) :
    ∃ server found, RemoteGit.ofText text = .ok server ∧ endpoint text = .ok found ∧
      (found.scheme = base.scheme ∧ found.host = base.host ∧ found.port = base.port) ∧
      found.path.text = directory base.path.text ++ "api/v1/repo/check" ∧
      (∀ request url, server.fileUrl request = .ok url → RemoteGit.Dotless request →
        ∃ rest, url.path.text = slashed base.path.text ++ "api/v1/repos/" ++ rest) ∧
      (found.path.text = slashed base.path.text ++ "api/v1/repo/check" ↔
        base.path.text.toList.getLast? = some '/') := by
  obtain ⟨path, isPath, settled, nonempty⟩ := Url.IsWeb.path_of_parse? parsed web
  have whole : ∀ segment ∈ path, '/' ∉ segment.toList := fun segment member =>
    (settled segment member).2
  have beside : (UrlPath.segments (path.dropLast ++ ["api", "v1", "repo", "check"])).text =
      directory base.path.text ++ "api/v1/repo/check" := by
    have joined : Text.join "/" ["api", "v1", "repo", "check"] = "api/v1/repo/check" := by decide
    have some : ["api", "v1", "repo", "check"] ≠ [] := by decide
    rw [Url.Path.text_append, Url.Path.text_of_ne_nil some, joined, isPath,
      Url.Path.text_directory whole nonempty, String.append_assoc]
  refine ⟨_, _, RemoteGit.ofText_eq parsed isPath, endpoint_eq parsed web isPath,
    ⟨rfl, rfl, rfl⟩, beside, fun request url found dotless => ?_, ?_⟩
  · obtain ⟨segments, -, file⟩ :=
      (RemoteGit.addresses_of_dotless web isPath whole nonempty found dotless).path
    exact ⟨_, file⟩
  · rw [beside, ← directory_eq_slashed_iff]
    exact ⟨fun same => String.toList_inj.mp (by simpa using congrArg String.toList same),
      fun same => by rw [same]⟩

theorem workBase_is_left_out :
    ∃ server found, RemoteGit.ofText "https://git.example.com/base" = .ok server ∧
      endpoint "https://git.example.com/base" = .ok found ∧
      found.path.text = "/api/v1/repo/check" ∧
      found.path.text ≠ slashed Url.workBase.path.text ++ "api/v1/repo/check" := by
  obtain ⟨server, found, made, reached, -, path, -, besideIff⟩ :=
    endpoint_beside_repositories_iff Url.parse?_workBase (Or.inr rfl)
  refine ⟨server, found, made, reached, ?_, fun beside => ?_⟩
  · rw [path]
    decide +kernel
  · exact absurd (besideIff.mp beside) (by decide +kernel)

end ModelHub.Review
