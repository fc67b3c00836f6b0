import ModelHub.Proofs.Json.Revision
import ModelHub.Proofs.Json.Writer
import ModelHub.Push.Encoding

namespace ModelHub

open Json (Shape Revision Overlooks Unmoved FoundsRevised Legible Forms LaidOut Spells asList
  asText fields required withDefault nullable)

def soleTextShape (name : String) : Shape := .record [(name, .foreign)] []

def Commit.shape : Shape :=
  .record [("added", .list .foreign), ("modified", .list .foreign), ("removed", .list .foreign)]
    ["added", "modified", "removed"]

def PushEvent.shape : Shape :=
  .record [("repository", soleTextShape "full_name"), ("ref", .foreign),
    ("commits", .list Commit.shape), ("head_commit", soleTextShape "timestamp")] ["commits"]

theorem overlooks_soleText (name : String) :
    Overlooks (soleTextShape name) (PushEvent.soleText name) := by
  intro doc doc' revision
  have revised : Option.Rel (FoundsRevised (soleTextShape name) [name]) (fields [name] doc)
    (fields [name] doc') := Json.fields_revised revision
  have unmoved : Unmoved (soleTextShape name) name (required asText) :=
    Json.unmoved_required List.not_mem_nil (Json.overlooks_asText _)
  unfold PushEvent.soleText
  generalize fields [name] doc = founds, fields [name] doc' = founds' at revised ⊢
  cases revised with
  | none => rfl
  | some revised =>
    obtain _ | ⟨first, _ | _⟩ := revised
    exact unmoved _ _ first

theorem Commit.overlooks_ofJson? : Overlooks shape ofJson? := by
  intro doc doc' revision
  have revised : Option.Rel (FoundsRevised shape ["added", "modified", "removed"])
      (fields ["added", "modified", "removed"] doc) (fields ["added", "modified", "removed"] doc') :=
    Json.fields_revised revision
  have unmoved : ∀ name ∈ ["added", "modified", "removed"],
      Unmoved shape name (withDefault [] (asList asText)) := by
    intro name listed
    have isList : shape.member (some name) = .list .foreign := by
      simp only [List.mem_cons, List.not_mem_nil, or_false] at listed
      rcases listed with rfl | rfl | rfl <;> rfl
    refine Json.unmoved_asList ?_
    rw [isList]
    exact Json.overlooks_asList (Json.overlooks_asText _)
  unfold ofJson?
  generalize fields _ doc = founds, fields _ doc' = founds' at revised ⊢
  cases revised with
  | none => rfl
  | some revised =>
    obtain _ | ⟨added, _ | ⟨modified, _ | ⟨removed, _ | _⟩⟩⟩ := revised
    simp only [Option.bind_eq_bind, Option.bind_some, unmoved _ (by simp) _ _ added,
      unmoved _ (by simp) _ _ modified, unmoved _ (by simp) _ _ removed]

theorem PushEvent.overlooks_ofJson? : Overlooks shape ofJson? := by
  intro doc doc' revision
  have revised : Option.Rel (FoundsRevised shape ["repository", "ref", "commits", "head_commit"])
      (fields ["repository", "ref", "commits", "head_commit"] doc)
      (fields ["repository", "ref", "commits", "head_commit"] doc') := Json.fields_revised revision
  have repositoryUnmoved : Unmoved shape "repository" (required (soleText "full_name")) :=
    Json.unmoved_required (by decide) (overlooks_soleText "full_name")
  have referenceUnmoved : Unmoved shape "ref" (required asText) :=
    Json.unmoved_required (by decide) (Json.overlooks_asText _)
  have commitsUnmoved : Unmoved shape "commits" (withDefault [] (asList Commit.ofJson?)) :=
    Json.unmoved_asList (Json.overlooks_asList Commit.overlooks_ofJson?)
  have headUnmoved : Unmoved shape "head_commit" (withDefault none (nullable (soleText "timestamp"))) :=
    Json.unmoved_withDefault (by decide) (Json.overlooks_nullable (overlooks_soleText "timestamp"))
  unfold ofJson?
  generalize fields _ doc = founds, fields _ doc' = founds' at revised ⊢
  cases revised with
  | none => rfl
  | some revised =>
    obtain _ | ⟨repository, _ | ⟨reference, _ | ⟨commits, _ | ⟨head, _ | _⟩⟩⟩⟩ := revised
    simp only [Option.bind_eq_bind, Option.bind_some, repositoryUnmoved _ _ repository,
      referenceUnmoved _ _ reference, commitsUnmoved _ _ commits, headUnmoved _ _ head]

theorem asList_map {α : Type} {decode : Json.Decoder α} {encode : α → Json}
    (back : ∀ a, decode (encode a) = some a) (values : List α) :
    asList decode (.arr (values.map encode)) = some values := by
  induction values with
  | nil => rfl
  | cons value values ih =>
    unfold asList at ih ⊢
    dsimp only at ih ⊢
    rw [List.map_cons, List.mapM_cons, back, ih]
    rfl

theorem Commit.ofJson?_toJson (commit : Commit) : ofJson? commit.toJson = some commit := by
  have texts : ∀ items, asList asText (.texts items) = some items := asList_map fun _ => rfl
  have found : fields ["added", "modified", "removed"] commit.toJson =
      some [.given (.texts commit.added), .given (.texts commit.modified),
        .given (.texts commit.removed)] := rfl
  rw [ofJson?, found]
  simp only [Option.bind_eq_bind, Option.bind_some, withDefault, texts]

theorem soleText_object (name value : String) :
    PushEvent.soleText name (.object [(name, .text value)]) = some value := by
  have found : fields [name] (.object [(name, .text value)]) = some [.given (.text value)] := by
    simp [fields, Json.object, Json.findField, Json.named]
  rw [PushEvent.soleText, found]
  rfl

theorem PushEvent.ofJson?_toJson (event : PushEvent) : ofJson? event.toJson = some event := by
  have commits : asList Commit.ofJson? (.arr (event.commits.map Commit.toJson)) = some event.commits :=
    asList_map Commit.ofJson?_toJson event.commits
  have repository := soleText_object "full_name" event.fullName
  obtain ⟨fullName, reference, commitList, head⟩ := event
  have found : fields ["repository", "ref", "commits", "head_commit"]
      (toJson ⟨fullName, reference, commitList, head⟩) =
      some [.given (.object [("full_name", .text fullName)]), .given (.text reference),
        .given (.arr (commitList.map Commit.toJson)),
        head.elim .missing fun timestamp => .given (headMember timestamp).2] := by
    cases head <;> rfl
  have headRead : withDefault none (nullable (soleText "timestamp"))
      (head.elim .missing fun timestamp => .given (headMember timestamp).2) = some head := by
    cases head with
    | none => rfl
    | some timestamp => exact congrArg (Option.map some) (soleText_object "timestamp" timestamp)
  rw [ofJson?, found]
  simp only [Option.bind_eq_bind, Option.bind_some, required, repository, headRead]
  rw [show withDefault [] (asList Commit.ofJson?) (.given (.arr (commitList.map Commit.toJson))) =
    some commitList from commits]
  rfl

theorem legible_object {members : List (String × Json)} (all : ∀ member ∈ members, Legible member.2) :
    Legible (.object members) := by
  refine .obj (fun member isMember => ?_) fun member isMember => ?_
  · obtain ⟨_, _, rfl⟩ := List.mem_map.mp isMember
    rfl
  · obtain ⟨given, isGiven, rfl⟩ := List.mem_map.mp isMember
    exact all given isGiven

theorem legible_texts (items : List String) : Legible (.texts items) := by
  refine .arr fun item member => ?_
  obtain ⟨text, -, rfl⟩ := List.mem_map.mp member
  exact .str text

theorem Commit.legible_toJson (commit : Commit) : Legible commit.toJson := by
  refine legible_object ?_
  simp [legible_texts]

theorem PushEvent.legible_toJson (event : PushEvent) : Legible event.toJson := by
  have sole : ∀ name text, Legible (.object [(name, .text text)]) := fun name text =>
    legible_object (by simpa using .str text)
  have commits : Legible (.arr (event.commits.map Commit.toJson)) := by
    refine .arr fun item member => ?_
    obtain ⟨commit, -, rfl⟩ := List.mem_map.mp member
    exact commit.legible_toJson
  have head : ∀ member ∈ (event.headTimestamp.map headMember).toList, Legible member.2 := by
    intro member isMember
    obtain ⟨timestamp, -, rfl⟩ := Option.map_eq_some_iff.mp (Option.mem_toList.mp isMember)
    exact sole "timestamp" timestamp
  refine legible_object fun member isMember => ?_
  rcases List.mem_append.mp isMember with isFirst | isHead
  · simp only [List.mem_cons, List.not_mem_nil, or_false] at isFirst
    rcases isFirst with rfl | rfl | rfl
    · exact sole "full_name" event.fullName
    · exact .str event.reference
    · exact commits
  · exact head member isHead

/-- A payload is read back as it was written. What a text says stays the same when other blanks stand
between its lexemes, and when it spells a revised document. -/
theorem PushEvent.read_back_and_alike_when_revised :
    (∀ (event : PushEvent) (indented : Bool),
      (Json.parse? (Json.write indented 0 event.toJson)).bind ofJson? = some event) ∧
    ∀ (text : String) (event : PushEvent), (Json.parse? text).bind ofJson? = some event →
      ∃ doc lexemes, Forms doc lexemes ∧ LaidOut lexemes text ∧
        (∀ text', LaidOut lexemes text' → (Json.parse? text').bind ofJson? = some event) ∧
        ∀ doc' text', Relation.ReflTransGen (Revision shape) doc doc' → Spells text' doc' →
          (Json.parse? text').bind ofJson? = some event := by
  refine ⟨fun event indented => ?_, fun text event read => ?_⟩
  · rw [Json.parse?_eq_some_iff.mpr (event.legible_toJson.spells indented 0), Option.bind_some,
      ofJson?_toJson]
  · obtain ⟨doc, parsed, decoded⟩ := Option.bind_eq_some_iff.mp read
    obtain ⟨lexemes, forms, laid⟩ := Json.parse?_eq_some_iff.mp parsed
    refine ⟨doc, lexemes, forms, laid, fun text' laidToo => ?_, fun doc' text' revised spells => ?_⟩
    · rw [Json.parse?_eq_some_iff.mpr ⟨lexemes, forms, laidToo⟩, Option.bind_some, decoded]
    · rw [Json.parse?_eq_some_iff.mpr spells, Option.bind_some, overlooks_ofJson?.run revised, decoded]

/-- A payload in another order than it is written in, with a foreign member and without most lists. -/
def sparsePayload : String :=
  "\x7b \"ref\": \"refs/heads/main\", \"pusher\": [null, \x7b\"\\ud800\": 1e999\x7d],\n" ++
    "  \"commits\": [\x7b\"removed\": [\"\\u00e9.bin\"]\x7d],\n" ++
    "  \"repository\": \x7b\"full_name\": \"models_acme/bert\"\x7d \x7d"

def sparseEvent : PushEvent :=
  { fullName := "models_acme/bert", reference := "refs/heads/main",
    commits := [{ removed := ["é.bin"] }] }

theorem sparsePayload_is_read : (Json.parse? sparsePayload).bind PushEvent.ofJson? = some sparseEvent ∧
    ∃ doc, Spells sparsePayload doc ∧ ∀ doc' text',
      Relation.ReflTransGen (Revision PushEvent.shape) doc doc' → Spells text' doc' →
        (Json.parse? text').bind PushEvent.ofJson? = some sparseEvent := by
  have read : (Json.parse? sparsePayload).bind PushEvent.ofJson? = some sparseEvent := by
    decide +kernel
  obtain ⟨doc, lexemes, forms, laid, -, revised⟩ :=
    PushEvent.read_back_and_alike_when_revised.2 sparsePayload sparseEvent read
  exact ⟨read, doc, ⟨lexemes, forms, laid⟩, revised⟩

namespace SyncConfig

theorem legible_toJson (config : SyncConfig) : Legible config.toJson := by
  refine legible_object fun member isMember => ?_
  simp only [List.mem_cons, List.not_mem_nil, or_false] at isMember
  rcases isMember with rfl | rfl | rfl | rfl
  · exact .str config.defaultBranch
  · exact .int _
  · exact .int _
  · exact .bool config.sensitiveCheck

def inWholeSeconds (config : SyncConfig) : SyncConfig :=
  { config with
    fetchTimeout := .ofSeconds config.fetchTimeout.wholeSeconds
    moderationTimeout := .ofSeconds config.moderationTimeout.wholeSeconds }

def maxSeconds : Nat := 18446744073709551615

theorem asNat64_int {n : Nat} (fits : n ≤ maxSeconds) : Json.asNat64 (.int n) = some n := by
  have bound : (n : Int) ≤ 18446744073709551615 := by unfold maxSeconds at fits; omega
  simp [Json.asNat64, Json.asInt, bound]

theorem ofJson?_toJson {config : SyncConfig} (fetchFits : config.fetchTimeout.wholeSeconds ≤ maxSeconds)
    (moderationFits : config.moderationTimeout.wholeSeconds ≤ maxSeconds) :
    ofJson? config.toJson = some config.inWholeSeconds := by
  have found : fields ["default_branch", "fetch_timeout", "moderation_timeout", "sensitive_check"]
      config.toJson = some [.given (.text config.defaultBranch),
        .given (.int config.fetchTimeout.wholeSeconds),
        .given (.int config.moderationTimeout.wholeSeconds),
        .given (.bool config.sensitiveCheck)] := rfl
  rw [ofJson?, found]
  simp only [Option.bind_eq_bind, Option.bind_some, required, asNat64_int fetchFits,
    asNat64_int moderationFits]
  rfl

theorem ofSeconds_wholeSeconds_eq_iff (limit : Duration) :
    .ofSeconds limit.wholeSeconds = limit ↔ limit.nanos % 1000000000 = 0 := by
  obtain ⟨nanos⟩ := limit
  rw [Duration.ofSeconds, Duration.wholeSeconds, Duration.mk.injEq]
  dsimp only
  omega

theorem inWholeSeconds_eq_iff (config : SyncConfig) : config.inWholeSeconds = config ↔
    config.fetchTimeout.nanos % 1000000000 = 0 ∧ config.moderationTimeout.nanos % 1000000000 = 0 := by
  rw [← ofSeconds_wholeSeconds_eq_iff, ← ofSeconds_wholeSeconds_eq_iff]
  constructor
  · intro same
    exact ⟨congrArg fetchTimeout same, congrArg moderationTimeout same⟩
  · rintro ⟨fetch, moderation⟩
    rw [inWholeSeconds, fetch, moderation]

theorem read_back {config : SyncConfig} (indented : Bool)
    (fetchFits : config.fetchTimeout.wholeSeconds ≤ maxSeconds)
    (moderationFits : config.moderationTimeout.wholeSeconds ≤ maxSeconds) :
    (Json.parse? (Json.write indented 0 config.toJson)).bind ofJson? = some config.inWholeSeconds := by
  rw [Json.parse?_eq_some_iff.mpr (config.legible_toJson.spells indented 0), Option.bind_some,
    ofJson?_toJson fetchFits moderationFits]

/-- Settings are read back with both time limits cut down to whole seconds, so nothing is lost if and
only if both are whole seconds. -/
theorem read_back_in_whole_seconds (config : SyncConfig) (indented : Bool)
    (fetchFits : config.fetchTimeout.wholeSeconds ≤ maxSeconds)
    (moderationFits : config.moderationTimeout.wholeSeconds ≤ maxSeconds) :
    (Json.parse? (Json.write indented 0 config.toJson)).bind ofJson? =
        some { config with
          fetchTimeout := .ofSeconds config.fetchTimeout.wholeSeconds
          moderationTimeout := .ofSeconds config.moderationTimeout.wholeSeconds } ∧
      ((Json.parse? (Json.write indented 0 config.toJson)).bind ofJson? = some config ↔
        config.fetchTimeout.nanos % 1000000000 = 0 ∧
          config.moderationTimeout.nanos % 1000000000 = 0) := by
  refine ⟨read_back indented fetchFits moderationFits, ?_⟩
  rw [read_back indented fetchFits moderationFits, ← inWholeSeconds_eq_iff]
  exact ⟨Option.some.inj, congrArg some⟩

theorem defaults_are_read_back :
    (Json.parse? (Json.write true 0 (toJson {}))).bind ofJson? = some {} ∧
      (Json.parse? (Json.write true 0 (toJson { fetchTimeout := .ofMillis 1500 }))).bind ofJson? =
        some { fetchTimeout := .ofSeconds (Duration.ofMillis 1500).wholeSeconds } ∧
      (Json.parse? (Json.write true 0 (toJson { fetchTimeout := .ofMillis 1500 }))).bind ofJson? ≠
        some { fetchTimeout := .ofMillis 1500 } := by
  obtain ⟨-, defaults⟩ := read_back_in_whole_seconds {} true (by decide) (by decide)
  obtain ⟨cut, unchanged⟩ := read_back_in_whole_seconds { fetchTimeout := .ofMillis 1500 } true
    (by decide) (by decide)
  refine ⟨defaults.mpr (by decide), cut, fun same => ?_⟩
  have whole := (unchanged.mp same).1
  revert whole
  decide

/-- A second and a half comes back as one second. -/
theorem half_second_is_lost :
    (Json.parse? (Json.write false 0 (toJson { fetchTimeout := .ofMillis 1500 }))).bind ofJson? =
        some { fetchTimeout := .ofSeconds 1 } ∧
      Duration.ofSeconds 1 ≠ .ofMillis 1500 :=
  ⟨read_back false (by decide) (by decide), by decide⟩

end SyncConfig

end ModelHub
