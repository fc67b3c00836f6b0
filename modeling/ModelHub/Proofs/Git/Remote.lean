import ModelHub.Domain.Identity
import ModelHub.Git.Remote
import ModelHub.Proofs.Url.Parser

/-! The addresses of files on a git server. Owner, name and the segments of the file path are encoded
each by itself, which keeps everything apart but dots: a segment of one or two dots is written as it
is, and the address is shortened by it. -/

namespace ModelHub

open Url (Host IsWeb)
open Url.Path (IsDots IsPlain Settled slashed)

namespace Url

def StandsFor (segment text : String) : Prop :=
  '/' ∉ segment.toList ∧ Host.decodeText? segment.toList = some text.toList

def fieldText? (text : List Char) : Option String :=
  (Host.decodeText? (text.map fun c => if c = '+' then ' ' else c)).map String.ofList

def pair? (text : List Char) : Option (String × String) :=
  match Text.splitFirst '=' text with
  | none => (fieldText? text).map fun name => (name, "")
  | some (name, value) => do some (← fieldText? name, ← fieldText? value)

def pairs? (query : String) : Option (List (String × String)) :=
  ((Text.segments '&' query.toList).filter (· ≠ [])).mapM pair?

end Url

namespace RemoteGit

/-- What the segments behind those of the service are to stand for. A path without segments leaves an
empty one. -/
def places (request : FileRequest) : List String :=
  [request.repoType.plural ++ "_" ++ request.owner, request.name, "raw"] ++
    if fileSegments request.path = [] then [""] else fileSegments request.path

/-- An address of exactly the requested file. -/
structure Addresses (base url : Url) (request : FileRequest) : Prop where
  origin : url.scheme = base.scheme ∧ url.host = base.host ∧ url.port = base.port
  path : ∃ segments, segments.Forall₂ Url.StandsFor (places request) ∧
    url.path.text = slashed base.path.text ++ "api/v1/repos/" ++ Text.join "/" segments
  query : url.query.bind Url.pairs? = some [("ref", request.reference)]
  fragment : url.fragment = none

/-- Neither the name of the repository nor a part of the path is one dot or two. -/
def Dotless (request : FileRequest) : Prop :=
  ∀ part ∈ request.name :: fileSegments request.path, part ≠ "." ∧ part ≠ ".."

instance (request : FileRequest) : Decidable (Dotless request) := by
  unfold Dotless
  infer_instance

theorem mem_encodeSegment {text : String} {c : Char} (member : c ∈ (encodeSegment text).toList) :
    Url.isUnreserved c ∨ c = '%' := by
  rw [encodeSegment, String.toList_ofList] at member
  rcases Url.mem_encode member with ⟨kept, -⟩ | isPercent | isLetter
  · exact Or.inl kept
  · exact Or.inr isPercent
  · exact Or.inl (Url.isUnreserved_iff.mpr (Or.inl isLetter))

theorem isPlain_encodeSegment (text : String) : IsPlain (encodeSegment text) := by
  intro c member
  rcases mem_encodeSegment member with kept | rfl
  · exact Url.isPathText_of_isUnreserved kept
  · exact ⟨Url.isPathText_iff.mpr (by decide), by decide, by decide⟩

theorem decodeText?_encodeSegment (text : String) :
    Host.decodeText? (encodeSegment text).toList = some text.toList := by
  have encoded : Url.isUnreserved '%' = false :=
    Bool.eq_false_iff.mpr fun kept => absurd (Url.isUnreserved_iff.mp kept) (by decide)
  rw [encodeSegment, String.toList_ofList, Url.decodeText?_encode encoded]

theorem standsFor_encodeSegment (text : String) : Url.StandsFor (encodeSegment text) text :=
  ⟨fun slash => (isPlain_encodeSegment text '/' slash).2.1 rfl, decodeText?_encodeSegment text⟩

/-- Only what stands for dots is taken for dots. -/
theorem isDots_of_standsFor {segment text : String} (stands : Url.StandsFor segment text) :
    IsDots segment ↔ text = "." ∨ text = ".." := by
  rw [IsDots, Url.Path.isSingleDot_iff, Url.Path.isDoubleDot_iff, stands.2, Option.some.injEq,
    Option.some.injEq, ← String.toList_inj, ← String.toList_inj]
  rfl

theorem encodeSegment_append (first second : String) :
    encodeSegment (first ++ second) = encodeSegment first ++ encodeSegment second := by
  simp [encodeSegment, Url.encode_append]

theorem encodeSegment_of_kept {text : String} (kept : ∀ c ∈ text.toList, Url.isUnreserved c) :
    encodeSegment text = text := by
  rw [encodeSegment, Url.encode_of_kept kept, String.ofList_toList]

theorem encodeSegment_word {text : String}
    (word : text ∈ ["api", "v1", "repos", "raw", "repo", "check", "_", ""]) :
    encodeSegment text = text := by
  have kept : ["api", "v1", "repos", "raw", "repo", "check", "_", ""].all
      fun text => text.toList.all Url.isUnreserved := by
    rw [Url.isUnreserved_eq]
    decide
  exact encodeSegment_of_kept (List.all_eq_true.mp (List.all_eq_true.mp kept text word))

theorem encodeSegment_plural (repoType : RepoType) :
    encodeSegment repoType.plural = repoType.plural := by
  have kept : repoType.plural.toList.all Url.isUnreserved := by
    rw [Url.isUnreserved_eq]
    cases repoType <;> decide
  exact encodeSegment_of_kept (List.all_eq_true.mp kept)

def service : List String := ["api", "v1", "repos"]

theorem location_eq (request : FileRequest) :
    location request = Text.join "/" ((service ++ places request).map encodeSegment) := by
  obtain ⟨rest, isRest⟩ : ∃ rest, rest = (if fileSegments request.path = [] then [""]
      else fileSegments request.path).map encodeSegment := ⟨_, rfl⟩
  have some : rest ≠ [] := by
    rw [isRest]
    split <;> simp_all
  have joined : Text.join "/" rest =
      Text.join "/" ((fileSegments request.path).map encodeSegment) := by
    rw [isRest]
    split
    · next none =>
      rw [none, List.map_singleton, encodeSegment_word (by decide)]
      rfl
    · rfl
  have words : (service ++ places request).map encodeSegment =
      "api" :: "v1" :: "repos" ::
        (request.repoType.plural ++ "_" ++ encodeSegment request.owner) ::
        encodeSegment request.name :: "raw" :: rest := by
    rw [isRest]
    simp [service, places, encodeSegment_append, encodeSegment_plural, encodeSegment_word]
  have lead : "api/v1/repos/" = "api" ++ "/" ++ "v1" ++ "/" ++ "repos" ++ "/" := by decide
  have raw : "/raw/" = "/" ++ "raw" ++ "/" := by decide
  have next : ∀ (head second : String) (tail : List String), Text.join "/" (head :: second :: tail) =
      head ++ "/" ++ Text.join "/" (second :: tail) := fun _ _ _ => rfl
  rw [words, next, next, next, next, next, Text.join_cons _ _ some, joined]
  unfold location
  simp only [lead, raw, String.append_assoc]

variable {text : String} {base : Url} {path : List String} {request : FileRequest}

theorem ofText_eq (parsed : Url.parse? text = some base) (isPath : base.path = .segments path) :
    ofText text = .ok ⟨{ base with path := .segments (Url.Path.closed path) }⟩ := by
  rw [ofText, parsed]
  simp only [isPath, closePath]

theorem fileUrl_eq (web : base.IsWeb) :
    fileUrl ⟨{ base with path := .segments (Url.Path.closed path) }⟩ request = .ok { base with
      path := .segments (Url.Path.extend false (Url.Path.closed path).dropLast
        ((service ++ places request).map encodeSegment))
      query := some (referenceQuery request.reference)
      fragment := none } := by
  have plain : ∀ name ∈ (service ++ places request).map encodeSegment, IsPlain name := by
    intro name member
    obtain ⟨text, -, rfl⟩ := List.mem_map.mp member
    exact isPlain_encodeSegment text
  have some : (service ++ places request).map encodeSegment ≠ [] := by simp [service]
  have web : Url.IsWeb { base with path := .segments (Url.Path.closed path) } := web
  rw [fileUrl, location_eq, web.resolve?_join rfl some plain]

theorem slashed_service (whole : ∀ segment ∈ path, '/' ∉ segment.toList) (nonempty : path ≠ [])
    {segments : List String} (some : segments ≠ []) :
    slashed (UrlPath.segments path).text ++ "api/v1/repos/" ++ Text.join "/" segments =
      (UrlPath.segments ((Url.Path.closed path).dropLast ++ (service ++ segments))).text := by
  have lead : "api/v1/repos/" = "api" ++ "/" ++ "v1" ++ "/" ++ "repos" ++ "/" := by decide
  have joined : Text.join "/" (service ++ segments) =
      "api" ++ "/" ++ ("v1" ++ "/" ++ ("repos" ++ "/" ++ Text.join "/" segments)) := by
    rw [← Text.join_cons _ _ some]
    rfl
  rw [Url.Path.text_dropLast_append (Url.Path.getLast?_closed path) (by simp [service]),
    Url.Path.text_closed whole nonempty, joined]
  simp only [lead, String.append_assoc]

theorem places_ne_nil (request : FileRequest) : places request ≠ [] := List.cons_ne_nil _ _

theorem mem_places {part : String} (member : part ∈ places request) (dots : part = "." ∨ part = "..") :
    part ∈ request.name :: fileSegments request.path := by
  have owned : '_' ∈ (request.repoType.plural ++ "_" ++ request.owner).toList := by simp
  simp only [places, List.cons_append, List.nil_append, List.mem_cons] at member
  rcases member with rfl | rfl | rfl | member
  · rcases dots with same | same <;> exact absurd (same ▸ owned) (by decide)
  · exact List.mem_cons_self
  · exact absurd dots (by decide)
  · split at member
    · rw [List.mem_singleton.mp member] at dots
      exact absurd dots (by decide)
    · exact List.mem_cons_of_mem _ member

theorem mem_places_of_mem {part : String}
    (member : part ∈ request.name :: fileSegments request.path) : part ∈ places request := by
  rcases List.mem_cons.mp member with rfl | inPath
  · simp [places]
  · have some : fileSegments request.path ≠ [] := List.ne_nil_of_mem inPath
    simp [places, some, inPath]

theorem not_isDots_of_dotless (dotless : Dotless request) {segment : String}
    (member : segment ∈ (service ++ places request).map encodeSegment) : ¬IsDots segment := by
  obtain ⟨part, inPlaces, rfl⟩ := List.mem_map.mp member
  rw [isDots_of_standsFor (standsFor_encodeSegment part)]
  intro dots
  rcases List.mem_append.mp inPlaces with inService | inPlaces
  · exact absurd dots ((by decide : ∀ part ∈ service, ¬(part = "." ∨ part = "..")) part inService)
  · have apart := dotless part (mem_places inPlaces dots)
    exact dots.elim apart.1 apart.2

theorem fieldText?_encodeForm (text : String) :
    Url.fieldText? (Url.encodeForm text.toList) = some text := by
  have encoded : (' ' = '%' || Url.isFormText '%') = false := by
    have none : Url.isFormText '%' = false :=
      Bool.eq_false_iff.mpr fun kept => absurd (Url.isFormText_iff.mp kept) (by decide)
    simp [none]
  rw [Url.fieldText?, Url.map_encodeForm, Url.decodeText?_encode encoded, Option.map_some,
    String.ofList_toList]

theorem pairs?_referenceQuery (reference : String) :
    Url.pairs? (referenceQuery reference) = some [("ref", reference)] := by
  have query : (referenceQuery reference).toList =
      ['r', 'e', 'f'] ++ '=' :: Url.encodeForm reference.toList := by
    simp [referenceQuery]
  have single : '&' ∉ (referenceQuery reference).toList := by
    rw [query]
    intro member
    rcases List.mem_append.mp member with inName | inValue
    · exact absurd inName (by decide)
    · rcases List.mem_cons.mp inValue with same | inValue
      · exact absurd same (by decide)
      · rcases Url.mem_encodeForm inValue with kept | isMark
        · exact absurd (Url.isFormText_iff.mp kept) (by decide)
        · exact absurd isMark (by decide)
  have name : Url.fieldText? ['r', 'e', 'f'] = some "ref" := fieldText?_encodeForm "ref"
  have pair : Url.pair? (referenceQuery reference).toList = some ("ref", reference) := by
    rw [Url.pair?, query, Text.splitFirst_append _ (by decide)]
    simp [name, fieldText?_encodeForm]
  have some : (referenceQuery reference).toList ≠ [] := by rw [query]; exact List.cons_ne_nil _ _
  rw [Url.pairs?, Text.segments_of_not_mem single, List.filter_cons, if_pos (decide_eq_true some)]
  simp [pair]

section

variable {segments texts : List String}

theorem standing (stand : segments.Forall₂ Url.StandsFor texts) {segment : String}
    (member : segment ∈ segments) : ∃ text ∈ texts, Url.StandsFor segment text := by
  obtain ⟨length, each⟩ := List.forall₂_iff_get.mp stand
  obtain ⟨i, bound, rfl⟩ := List.getElem_of_mem member
  exact ⟨_, List.getElem_mem (length ▸ bound), each i bound (length ▸ bound)⟩

theorem stood (stand : segments.Forall₂ Url.StandsFor texts) {text : String}
    (member : text ∈ texts) : ∃ segment ∈ segments, Url.StandsFor segment text := by
  obtain ⟨length, each⟩ := List.forall₂_iff_get.mp stand
  obtain ⟨i, bound, rfl⟩ := List.getElem_of_mem member
  exact ⟨_, List.getElem_mem (length ▸ bound), each i (length ▸ bound) bound⟩

end

theorem addresses_of_dotless (web : base.IsWeb) (isPath : base.path = .segments path)
    (whole : ∀ segment ∈ path, '/' ∉ segment.toList) (nonempty : path ≠ []) {url : Url}
    (found : fileUrl ⟨{ base with path := .segments (Url.Path.closed path) }⟩ request = .ok url)
    (dotless : Dotless request) : Addresses base url request := by
  rw [fileUrl_eq web] at found
  obtain rfl := Except.ok.inj found
  have words : service.map encodeSegment = service :=
    (List.map_congr_left fun word member => encodeSegment_word
      ((by decide : ∀ word ∈ service, word ∈ ["api", "v1", "repos", "raw", "repo", "check", "_", ""])
        word member)).trans (List.map_id _)
  have segments : (places request).map encodeSegment ≠ [] := by simp [places]
  refine ⟨⟨rfl, rfl, rfl⟩, ⟨(places request).map encodeSegment, ?_, ?_⟩, ?_, rfl⟩
  · exact List.forall₂_map_left_iff.mpr (List.forall₂_same.mpr fun part _ =>
      standsFor_encodeSegment part)
  · rw [isPath, slashed_service whole nonempty segments,
      Url.Path.extend_of_not_dots fun segment => not_isDots_of_dotless dotless, List.map_append,
      words]
  · rw [Option.bind_some, pairs?_referenceQuery]

theorem dotless_of_addresses (web : base.IsWeb) (isPath : base.path = .segments path)
    (settled : Settled path) (nonempty : path ≠ []) {url : Url}
    (found : fileUrl ⟨{ base with path := .segments (Url.Path.closed path) }⟩ request = .ok url)
    (addresses : Addresses base url request) : Dotless request := by
  rw [fileUrl_eq web] at found
  obtain rfl := Except.ok.inj found
  obtain ⟨segments, stand, text⟩ := addresses.path
  have whole : ∀ segment ∈ path, '/' ∉ segment.toList := fun segment member =>
    (settled segment member).2
  have some : segments ≠ [] := by
    rintro rfl
    exact absurd (List.forall₂_nil_left_iff.mp stand) (places_ne_nil request)
  have start := settled.closed.dropLast
  have reached : Settled (Url.Path.extend false (Url.Path.closed path).dropLast
      ((service ++ places request).map encodeSegment)) := by
    refine Url.Path.settled_extend start fun segment member => ?_
    obtain ⟨part, -, rfl⟩ := List.mem_map.mp member
    exact (standsFor_encodeSegment part).1
  rw [isPath, slashed_service whole nonempty some] at text
  have notDots : ∀ segment ∈ segments, ¬IsDots segment := by
    rw [Url.Path.text_inj (fun segment member => (reached segment member).2) ?_ text] at reached
    · exact fun segment member => (reached segment (by simp [member])).1
    · intro segment member
      rcases List.mem_append.mp member with inStart | inFile
      · exact (start segment inStart).2
      · rcases List.mem_append.mp inFile with inService | inSegments
        · exact (by decide : ∀ word ∈ service, '/' ∉ word.toList) segment inService
        · exact (standing stand inSegments).elim fun _ stands => stands.2.1
  intro part member
  obtain ⟨segment, inSegments, stands⟩ := stood stand (mem_places_of_mem member)
  exact not_or.mp ((isDots_of_standsFor stands).not.mp (notDots segment inSegments))

theorem plural_owner_inj {s t : RepoType} {owner owner' : String}
    (same : s.plural ++ "_" ++ owner = t.plural ++ "_" ++ owner') : s = t ∧ owner = owner' := by
  have unmarked : ∀ t : RepoType, '_' ∉ t.plural.toList := fun t => by cases t <;> decide
  have text : s.plural.toList ++ '_' :: owner.toList = t.plural.toList ++ '_' :: owner'.toList := by
    simpa using congrArg String.toList same
  obtain ⟨plurals, owners⟩ := Text.append_cons_inj (unmarked s) (unmarked t) text
  refine ⟨RepoType.name_injective (String.toList_inj.mp ?_), String.toList_inj.mp owners⟩
  simpa [RepoType.plural] using plurals

theorem texts_of_segments {segments texts texts' : List String}
    (stand : segments.Forall₂ Url.StandsFor texts) (stand' : segments.Forall₂ Url.StandsFor texts') :
    texts = texts' := by
  induction stand generalizing texts' with
  | nil => exact (List.forall₂_nil_left_iff.mp stand').symm
  | cons first _ ih =>
    obtain ⟨text, rest, firstToo, restToo, rfl⟩ := List.forall₂_cons_left_iff.mp stand'
    rw [String.toList_inj.mp (Option.some.inj (first.2.symm.trans firstToo.2)), ih restToo]

theorem Addresses.sameRepository {url url' : Url} {other : FileRequest}
    (addresses : Addresses base url request) (addresses' : Addresses base url' other)
    (same : url.path = url'.path) :
    request.repoType = other.repoType ∧ request.owner = other.owner ∧ request.name = other.name := by
  obtain ⟨segments, stand, text⟩ := addresses.path
  obtain ⟨segments', stand', text'⟩ := addresses'.path
  have nonempty : ∀ {segments : List String} {request : FileRequest},
      segments.Forall₂ Url.StandsFor (places request) → segments ≠ [] := by
    rintro _ request stand rfl
    exact places_ne_nil request (List.forall₂_nil_left_iff.mp stand)
  have whole : ∀ {segments : List String} {request : FileRequest},
      segments.Forall₂ Url.StandsFor (places request) →
        ∀ segment ∈ segments, '/' ∉ segment.toList :=
    fun stand _ member => (standing stand member).elim fun _ stands => stands.2.1
  have joined : Text.join "/" segments = Text.join "/" segments' := by
    have texts := text.symm.trans ((congrArg UrlPath.text same).trans text')
    exact String.toList_inj.mp (by simpa using congrArg String.toList texts)
  have slash : "/".toList = ['/'] := rfl
  have equal : segments = segments' := Text.join_inj slash (nonempty stand) (nonempty stand')
    (whole stand) (whole stand') joined
  have equalPlaces := texts_of_segments stand (equal ▸ stand')
  simp only [places, List.cons_append, List.nil_append, List.cons.injEq] at equalPlaces
  exact ⟨(plural_owner_inj equalPlaces.1).1, (plural_owner_inj equalPlaces.1).2, equalPlaces.2.1⟩

/-- Every file has an address, and it is the right one if and only if neither the name of the
repository nor a part of the path is one dot or two. -/
theorem fileUrl_addresses_iff (parsed : Url.parse? text = some base) (web : base.IsWeb) :
    ∃ server, ofText text = .ok server ∧ ∀ request, ∃ url, server.fileUrl request = .ok url ∧
      (Addresses base url request ↔ Dotless request) ∧
      ∀ other otherUrl, server.fileUrl other = .ok otherUrl → Dotless request → Dotless other →
        url.path = otherUrl.path → request.repoType = other.repoType ∧
          request.owner = other.owner ∧ request.name = other.name := by
  obtain ⟨path, isPath, settled, nonempty⟩ := Url.IsWeb.path_of_parse? parsed web
  have whole : ∀ segment ∈ path, '/' ∉ segment.toList := fun segment member =>
    (settled segment member).2
  refine ⟨_, ofText_eq parsed isPath, fun request => ⟨_, fileUrl_eq web, ⟨?_, ?_⟩, ?_⟩⟩
  · exact dotless_of_addresses web isPath settled nonempty (fileUrl_eq web)
  · exact addresses_of_dotless web isPath whole nonempty (fileUrl_eq web)
  · intro other otherUrl found dotless otherDotless same
    exact (addresses_of_dotless web isPath whole nonempty (fileUrl_eq web) dotless).sameRepository
      (addresses_of_dotless web isPath whole nonempty found otherDotless) same

def parentNamed (owner : String) : FileRequest where
  repoType := .model
  owner := owner
  name := ".."
  reference := "refs/heads/main"
  path := "config.json"

theorem parentNamed_share_an_address :
    RepoIdentity.parse "models_acme/.." =
        .ok { typeToken := "models", repoType := some .model, owner := "acme", name := ".." } ∧
      ∃ server, ofText "https://git.example.com/base" = .ok server ∧
        ∀ owner ∈ ["acme", "rival"], ∃ url, server.fileUrl (parentNamed owner) = .ok url ∧
          url.path = .segments ["base", "api", "v1", "repos", "raw", "config.json"] ∧
          ¬Addresses Url.workBase url (parentNamed owner) := by
  have web : Url.workBase.IsWeb := Or.inr rfl
  obtain ⟨server, made, each⟩ := fileUrl_addresses_iff Url.parse?_workBase web
  refine ⟨by decide +kernel, server, made, fun owner member => ?_⟩
  obtain ⟨url, found, rightIff, -⟩ := each (parentNamed owner)
  refine ⟨url, found, ?_, fun right => ?_⟩
  · obtain rfl := Except.ok.inj (made.symm.trans (ofText_eq Url.parse?_workBase rfl))
    obtain rfl := Except.ok.inj (found.symm.trans (fileUrl_eq web))
    have kept : ["acme", "rival"].all fun owner => (service ++ places (parentNamed owner)).all
        fun part => part.toList.all Url.isUnreserved := by
      rw [Url.isUnreserved_eq]
      decide +kernel
    have written : (service ++ places (parentNamed owner)).map encodeSegment =
        service ++ places (parentNamed owner) :=
      (List.map_congr_left fun part isPart => encodeSegment_of_kept (List.all_eq_true.mp
        (List.all_eq_true.mp (List.all_eq_true.mp kept owner member) part isPart))).trans
        (List.map_id _)
    have ends : ∀ owner ∈ ["acme", "rival"], Url.Path.extend false ["base"]
        (service ++ places (parentNamed owner)) =
          ["base", "api", "v1", "repos", "raw", "config.json"] := by decide +kernel
    rw [written]
    exact congrArg UrlPath.segments (ends owner member)
  · exact absurd (rightIff.mp right ".." List.mem_cons_self).2 (by decide)

end RemoteGit

end ModelHub
