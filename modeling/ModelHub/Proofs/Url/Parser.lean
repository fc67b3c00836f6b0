import ModelHub.Proofs.Url.Path

namespace ModelHub.Url

def IsWeb (url : Url) : Prop := url.scheme = "http" ∨ url.scheme = "https"

instance (url : Url) : Decidable url.IsWeb := by
  unfold IsWeb
  infer_instance

theorem IsWeb.isSpecial {url : Url} (web : url.IsWeb) :
    isSpecial url.scheme ∧ url.scheme ≠ fileScheme := by
  rcases web with scheme | scheme <;> rw [scheme] <;> decide

namespace Path

theorem not_mem_of_mem_pieces {text : List Char} {piece : String}
    (member : piece ∈ pieces true text) : '/' ∉ piece.toList := by
  obtain ⟨part, inText, rfl⟩ := List.mem_map.mp member
  rw [String.toList_ofList]
  intro slash
  rcases mem_encode slash with ⟨-, inPart⟩ | isPercent | isLetter
  · exact Text.not_mem_of_mem_segments inText inPart
  · exact absurd isPercent (by decide)
  · exact absurd isLetter (by decide)

theorem settled_ofText {scheme : String} (special : isSpecial scheme) (noFile : scheme ≠ fileScheme)
    (text : List Char) : Settled (ofText scheme text) ∧ ofText scheme text ≠ [] := by
  have extended : ∀ rest, Settled (extendText scheme [] rest) ∧ extendText scheme [] rest ≠ [] := by
    intro rest
    have some : pieces true rest ≠ [] := fun none =>
      Text.segments_ne_nil '/' _ (List.map_eq_nil_iff.mp none)
    rw [extendText, special, decide_eq_false noFile, tidy_false]
    exact ⟨settled_extend (fun _ member => nomatch member) fun piece => not_mem_of_mem_pieces,
      extend_ne_nil some⟩
  unfold ofText
  split
  · rw [if_pos special]
    exact ⟨settled_empty, List.cons_ne_nil _ _⟩
  · split
    · exact extended _
    · exact extended _

end Path

theorem of_hosted? {scheme : String} {address : List Char} {url : Url}
    (read : hosted? scheme address = some url) :
    url.scheme = scheme ∧ ∃ text, url.path = .segments (Path.ofText scheme text) := by
  simp only [hosted?, Option.bind_eq_bind] at read
  -- The two readers of a host are followed by the same steps.
  split at read
  all_goals
    rw [Option.bind_eq_some_iff] at read
    obtain ⟨host, -, read⟩ := read
    split at read
    · simp at read
    · simp only [Option.bind_eq_some_iff, Option.some.injEq] at read
      obtain ⟨port, -, rfl⟩ := read
      exact ⟨rfl, _, rfl⟩

theorem scheme_of_file? {text : List Char} {url : Url} (read : file? text = some url) :
    url.scheme = fileScheme := by
  have ofPlace : ∀ {place : Option (Host × List Char)} {address : Host × List Char → Url},
      (∀ found, (address found).scheme = fileScheme) →
      (place.bind fun found => some (address found)) = some url → url.scheme = fileScheme := by
    intro place address isFile read
    obtain ⟨found, -, same⟩ := Option.bind_eq_some_iff.mp read
    exact Option.some.inj same ▸ isFile found
  simp only [file?, Option.bind_eq_bind] at read
  split at read
  · split at read
    · exact ofPlace (fun _ => rfl) read
    · exact ofPlace (fun _ => rfl) read
  · exact ofPlace (fun _ => rfl) read
  · exact ofPlace (fun _ => rfl) read

theorem IsWeb.path_of_parse? {text : String} {url : Url} (parsed : parse? text = some url)
    (web : url.IsWeb) : ∃ path, url.path = .segments path ∧ Path.Settled path ∧ path ≠ [] := by
  obtain ⟨special, noFile⟩ := web.isSpecial
  simp only [parse?, Option.bind_eq_bind, Option.bind_eq_some_iff] at parsed
  obtain ⟨⟨scheme, rest⟩, -, parsed⟩ := parsed
  have hosted : ∀ address, hosted? scheme address = some url →
      ∃ path, url.path = .segments path ∧ Path.Settled path ∧ path ≠ [] := by
    intro address read
    obtain ⟨rfl, path, isPath⟩ := of_hosted? read
    exact ⟨_, isPath, Path.settled_ofText special noFile path⟩
  unfold ofParts? at parsed
  split at parsed
  · exact absurd (scheme_of_file? parsed) noFile
  · split at parsed
    · exact hosted _ parsed
    · next other =>
      split at parsed
      · exact hosted _ parsed
      · obtain rfl := Option.some.inj parsed
        exact absurd special other

def Path.IsPlain (segment : String) : Prop :=
  ∀ c ∈ segment.toList, isPathText c ∧ c ≠ '/' ∧ c ≠ '\\'

theorem Path.pieces_join {names : List String} (nonempty : names ≠ [])
    (plain : ∀ name ∈ names, IsPlain name) : pieces true (Text.join "/" names).toList = names := by
  have unchanged : ((Text.join "/" names).toList.map fun c => if c = '\\' then '/' else c) =
      (Text.join "/" names).toList := by
    refine (List.map_congr_left fun c member => if_neg ?_).trans (List.map_id _)
    rcases Text.mem_join member with inMark | ⟨name, isName, inName⟩
    · rw [List.mem_singleton.mp inMark]
      decide
    · exact (plain name isName c inName).2.2
  have kept : ∀ name ∈ names, String.ofList (encode isPathText name.toList) = name := by
    intro name member
    rw [encode_of_kept fun c inName => (plain name member c inName).1, String.ofList_toList]
  rw [pieces, if_pos rfl, unchanged, Text.segments_join rfl nonempty fun name member inName =>
    (plain name member '/' inName).2.1 rfl, List.map_map]
  refine (List.map_congr_left kept).trans (List.map_id names)

theorem Path.ofText_join {scheme : String} (names : List String) (special : isSpecial scheme)
    (noFile : scheme ≠ fileScheme) (nonempty : names ≠ []) (plain : ∀ name ∈ names, IsPlain name)
    (notDots : ∀ name ∈ names, ¬IsDots name) :
    ofText scheme ('/' :: (Text.join "/" names).toList) = names := by
  rw [ofText, if_pos (by simp), extendText, special, decide_eq_false noFile, tidy_false,
    pieces_join nonempty plain, extend_of_not_dots notDots, List.nil_append]

theorem IsWeb.resolve?_join {url : Url} {path names : List String} (web : url.IsWeb)
    (isPath : url.path = .segments path) (nonempty : names ≠ [])
    (plain : ∀ name ∈ names, Path.IsPlain name) :
    url.resolve? (Text.join "/" names).toList = some { url with
      path := .segments (Path.extend false path.dropLast names)
      query := none
      fragment := none } := by
  obtain ⟨special, noFile⟩ := web.isSpecial
  rw [resolve?, isPath]
  simp only [Path.extendText, special, decide_eq_false noFile, Path.shorten_false, Path.tidy_false,
    Path.pieces_join nonempty plain]

def workBase : Url where
  scheme := "https"
  host := some (.name "git.example.com")
  path := .segments ["base"]

theorem DomainName.isForbidden_eq : DomainName.isForbidden = fun c =>
    c.toNat ≤ 32 || c.toNat = 127 || "%#/:<>?@[\\]^`\x7b|\x7d".toList.contains c :=
  funext fun c => by rw [isForbidden, contains_eq]

theorem isSchemeChar_eq : isSchemeChar = fun c => isAlphanumeric c || "+-.".toList.contains c :=
  funext fun c => by rw [isSchemeChar, contains_eq]

theorem ofText?_workHost :
    Host.ofText? "git.example.com".toList = some (.name "git.example.com") := by
  have decoded : Host.decodeText? "git.example.com".toList = some "git.example.com".toList := by
    decide +kernel
  have folded : "git.example.com".toList.mapM DomainName.foldChar =
      some ("git.example.com".toList.map fun c => [c]) := by decide +kernel
  have composed : DomainName.compose ("git.example.com".toList.map fun c => [c]).flatten =
      "git.example.com".toList := by decide +kernel
  have allowed : "git.example.com".toList.any DomainName.isForbidden = false := by
    rw [DomainName.isForbidden_eq]
    decide +kernel
  have labels : (Text.segments '.' "git.example.com".toList).mapM DomainName.encodeLabel? =
      some ["git".toList, "example".toList, "com".toList] := by decide +kernel
  have name : DomainName.ofText? "git.example.com".toList = some "git.example.com" := by
    rw [DomainName.ofText?, folded]
    simp only [Option.bind_eq_bind, Option.bind_some, composed, allowed, labels]
    decide
  have isNoNumber : Host.endsInNumber "git.example.com".toList = false := by decide +kernel
  have notBracketed : Host.ofText? "git.example.com".toList =
      (Host.decodeText? "git.example.com".toList).bind fun text =>
        (DomainName.ofText? text).bind fun name =>
          if name.isEmpty then none
          else if Host.endsInNumber name.toList then Host.short? name.toList
          else some (.name name) := rfl
  rw [notBracketed, decoded, Option.bind_some, name, Option.bind_some, isNoNumber]
  decide

theorem parse?_workBase : parse? "https://git.example.com/base" = some workBase := by
  have scheme : splitScheme? (cleaned "https://git.example.com/base".toList) =
      some ("https", "//git.example.com/base".toList) := by
    unfold splitScheme?
    rw [isSchemeChar_eq]
    decide +kernel
  have slashes : "//git.example.com/base".toList.dropWhile (isSlash "https") =
      "git.example.com/base".toList := by decide +kernel
  have tail : splitTail "https" "git.example.com/base".toList =
      ("git.example.com/base".toList, none, none) := by decide +kernel
  have parts : splitPath "https" "git.example.com/base".toList =
      ("git.example.com".toList, "/base".toList) := by decide +kernel
  have location : splitCredentials "git.example.com".toList =
      ("", "", "git.example.com".toList) := by decide +kernel
  have port : splitPort false "git.example.com".toList = ("git.example.com".toList, none) := by
    decide +kernel
  have behind : splitPortPath [] = ([], []) := rfl
  have noPort : port? "https" [] = some none := by decide
  have path : Path.ofText "https" "/base".toList = ["base"] := by
    refine Path.ofText_join ["base"] (by decide) (by decide) (by decide) ?_ (by decide)
    have kept : "base".toList.all isUnreserved := by
      rw [isUnreserved_eq]
      decide
    intro name member
    rw [List.mem_singleton.mp member]
    exact fun c inName => isPathText_of_isUnreserved (List.all_eq_true.mp kept c inName)
  have special : isSpecial "https" := by decide
  simp only [parse?, scheme, Option.bind_eq_bind, Option.bind_some]
  rw [ofParts?, if_neg (by decide), if_pos special, slashes, hosted?]
  simp only [tail, parts, location, port, special, if_true, ofText?_workHost, Option.bind_eq_bind,
    Option.bind_some, Option.getD_none, behind, noPort, List.nil_append, path]
  rfl

end ModelHub.Url
