import ModelHub.Domain.Identity
import ModelHub.Proofs.Text.Blank
import ModelHub.Proofs.Text.Split

namespace ModelHub

open Text (Pads before behind splitFirst)

namespace RepoType

theorem ofName?_eq_some_iff {text : String} {repoType : RepoType} :
    ofName? text = some repoType ↔ text = repoType.name := by
  constructor
  · intro found
    unfold ofName? at found
    split at found
    all_goals
      cases found
      try rfl
  · rintro rfl
    exact ofName?_name repoType

theorem singular_eq_iff {text word : List Char} (isSingular : word.getLast? ≠ some 's') :
    singular text = word ↔ text = word ∨ text = word ++ ['s'] := by
  unfold singular
  split
  · next last =>
    obtain ⟨front, rfl⟩ := List.getLast?_eq_some_iff.mp last
    rw [List.dropLast_concat]
    constructor
    · rintro rfl
      exact .inr rfl
    · rintro (rfl | same)
      · exact absurd last isSingular
      · exact List.append_cancel_right same
  · next notPlural =>
    refine ⟨.inl, fun either => either.resolve_right ?_⟩
    rintro rfl
    exact notPlural List.getLast?_concat

theorem trimmed_name (repoType : RepoType) :
    Text.Trimmed repoType.name.toList ∧ Text.Trimmed repoType.plural.toList := by
  cases repoType <;> simp [Text.Trimmed, name, plural] <;> decide

theorem ofToken?_eq_some_iff {token : String} {repoType : RepoType} :
    ofToken? token = some repoType ↔
      Pads token.toList repoType.name.toList ∨ Pads token.toList repoType.plural.toList := by
  have isSingular : repoType.name.toList.getLast? ≠ some 's' := by cases repoType <;> decide
  have plural_eq : repoType.plural.toList = repoType.name.toList ++ ['s'] := by
    rw [plural, String.toList_append]
    rfl
  have asText : ofToken? token = some repoType ↔
      singular (Text.trim token.toList) = repoType.name.toList := by
    rw [ofToken?, ofName?_eq_some_iff, ← String.toList_inj, String.toList_ofList]
  rw [asText, singular_eq_iff isSingular, ← plural_eq, Text.trim_eq_iff repoType.trimmed_name.1,
    Text.trim_eq_iff repoType.trimmed_name.2]

end RepoType

namespace RepoIdentity

/-- All parts are there: a slash, an underscore before the first slash, something between the first
underscore and that slash, and something behind it. -/
def IsComplete (fullName : String) : Prop :=
  let left := before '/' fullName.toList
  '/' ∈ fullName.toList ∧ '_' ∈ left ∧ behind '_' left ≠ [] ∧ behind '/' fullName.toList ≠ []

/-- The parts of a full name: the token has neither mark and the owner no slash. -/
structure Composes (fullName : String) (token owner name : List Char) : Prop where
  text : fullName.toList = token ++ '_' :: owner ++ '/' :: name
  token : '_' ∉ token ∧ '/' ∉ token
  owner : owner ≠ [] ∧ '/' ∉ owner
  name : name ≠ []

def ofParts (token owner name : List Char) : RepoIdentity :=
  { typeToken := String.ofList token
    repoType := RepoType.ofToken? (String.ofList token)
    owner := String.ofList owner
    name := String.ofList name }

variable {fullName : String} {token owner name : List Char} {identity : RepoIdentity}

theorem Composes.noSlash (composes : Composes fullName token owner name) :
    '/' ∉ token ++ '_' :: owner := by
  rw [List.mem_append, List.mem_cons]
  rintro (inToken | same | inOwner)
  · exact composes.token.2 inToken
  · revert same
    decide
  · exact composes.owner.2 inOwner

theorem isComplete_iff :
    IsComplete fullName ↔ ∃ token owner name, Composes fullName token owner name := by
  constructor
  · rintro ⟨slash, underscore, hasOwner, hasName⟩
    have text := Text.eq_before_append_behind slash
    have left := Text.eq_before_append_behind underscore
    have noSlash := Text.not_mem_before '/' fullName.toList
    rw [left, List.mem_append, List.mem_cons, not_or, not_or] at noSlash
    refine ⟨_, _, _, ?_, ⟨Text.not_mem_before '_' _, noSlash.1⟩, ⟨hasOwner, noSlash.2.2⟩, hasName⟩
    rw [← left]
    exact text
  · rintro ⟨token, owner, name, composes⟩
    unfold IsComplete
    rw [composes.text, Text.before_append _ composes.noSlash, Text.behind_append _ composes.noSlash]
    dsimp only
    rw [Text.behind_append _ composes.token.1]
    exact ⟨by simp, by simp, composes.owner.1, composes.name⟩

theorem parse_of_composes (composes : Composes fullName token owner name) :
    parse fullName = .ok (ofParts token owner name) := by
  have complete : (owner.isEmpty || name.isEmpty) = false := by
    simp [composes.owner.1, composes.name]
  unfold parse
  rw [composes.text, Text.splitFirst_append name composes.noSlash]
  dsimp only
  rw [Text.splitFirst_append owner composes.token.1]
  dsimp only
  rw [complete]
  rfl

theorem composes_of_parse (parsed : parse fullName = .ok identity) :
    ∃ token owner name, Composes fullName token owner name ∧ identity = ofParts token owner name := by
  unfold parse at parsed
  split at parsed
  · cases parsed
  · next left name split =>
    obtain ⟨text, noSlash⟩ := Text.splitFirst_eq_some split
    split at parsed
    · cases parsed
    · next token owner splitOwner =>
      obtain ⟨rfl, noUnderscore⟩ := Text.splitFirst_eq_some splitOwner
      rw [List.mem_append, List.mem_cons, not_or, not_or] at noSlash
      split at parsed
      · cases parsed
      · next complete =>
        rw [Bool.or_eq_true, not_or, List.isEmpty_iff, List.isEmpty_iff] at complete
        refine ⟨token, owner, name, ⟨text, ⟨noUnderscore, noSlash.1⟩, ⟨complete.1, noSlash.2.2⟩,
          complete.2⟩, (Except.ok.inj parsed).symm⟩

theorem parse_error {e : HubError} (failed : parse fullName = .error e) :
    ∃ message, e = .invalidEvent message := by
  unfold parse at failed
  split at failed
  · exact ⟨_, (Except.error.inj failed).symm⟩
  · split at failed
    · exact ⟨_, (Except.error.inj failed).symm⟩
    · split at failed
      · exact ⟨_, (Except.error.inj failed).symm⟩
      · cases failed

structure IsSeparable (identity : RepoIdentity) : Prop where
  token : '_' ∉ identity.typeToken.toList ∧ '/' ∉ identity.typeToken.toList
  owner : identity.owner ≠ "" ∧ '/' ∉ identity.owner.toList
  name : identity.name ≠ ""

theorem isSeparable_of_parse (parsed : parse fullName = .ok identity) : identity.IsSeparable := by
  obtain ⟨token, owner, name, composes, rfl⟩ := composes_of_parse parsed
  constructor
  · simpa [ofParts] using composes.token
  · simpa [ofParts] using composes.owner
  · simpa [ofParts] using composes.name

theorem repoType_of_parse (parsed : parse fullName = .ok identity) :
    identity.repoType = RepoType.ofToken? identity.typeToken := by
  obtain ⟨token, owner, name, -, rfl⟩ := composes_of_parse parsed
  simp only [ofParts]

theorem scope_of_parse (parsed : parse fullName = .ok identity) :
    identity.scope = TagScope.ofToken? identity.typeToken := by
  rw [scope, repoType_of_parse parsed, TagScope.ofToken?]

theorem display_of_parse (parsed : parse fullName = .ok identity) : identity.display = fullName := by
  obtain ⟨token, owner, name, composes, rfl⟩ := composes_of_parse parsed
  rw [← String.toList_inj, composes.text]
  simp [display, ofParts]

theorem parse_display (separable : identity.IsSeparable) :
    parse identity.display =
      .ok { identity with repoType := RepoType.ofToken? identity.typeToken } := by
  have composes : Composes identity.display identity.typeToken.toList identity.owner.toList
      identity.name.toList := by
    refine ⟨by simp [display], separable.token, ⟨?_, separable.owner.2⟩, ?_⟩
    · simpa using separable.owner.1
    · simpa using separable.name
  rw [parse_of_composes composes]
  simp [ofParts]

/-- A full name is read if and only if it has all its parts. It is written again from what was read,
and what is written from parts that can be told apart is read as these parts. Type and scope are
those of the token, which is the singular or the plural of a type, perhaps with white space around. -/
theorem full_names_are_read_without_loss :
    (∀ fullName, (∃ identity, parse fullName = .ok identity) ↔ IsComplete fullName) ∧
    (∀ fullName identity, parse fullName = .ok identity →
      identity.display = fullName ∧ identity.IsSeparable ∧
      (∀ repoType, identity.repoType = some repoType ↔
        Pads identity.typeToken.toList repoType.name.toList ∨
          Pads identity.typeToken.toList repoType.plural.toList) ∧
      identity.scope = TagScope.ofToken? identity.typeToken) ∧
    ∀ identity : RepoIdentity, identity.IsSeparable → ∃ read, parse identity.display = .ok read ∧
      read.typeToken = identity.typeToken ∧ read.owner = identity.owner ∧
      read.name = identity.name := by
  refine ⟨fun fullName => ?_, fun fullName identity parsed => ?_, fun identity separable => ?_⟩
  · rw [isComplete_iff]
    constructor
    · rintro ⟨identity, parsed⟩
      obtain ⟨token, owner, name, composes, -⟩ := composes_of_parse parsed
      exact ⟨token, owner, name, composes⟩
    · rintro ⟨token, owner, name, composes⟩
      exact ⟨_, parse_of_composes composes⟩
  · refine ⟨display_of_parse parsed, isSeparable_of_parse parsed, fun repoType => ?_,
      scope_of_parse parsed⟩
    rw [repoType_of_parse parsed, RepoType.ofToken?_eq_some_iff]
  · exact ⟨_, parse_display separable, rfl, rfl, rfl⟩

/-- Marks behind the first ones belong to the parts. -/
def manyMarks : RepoIdentity :=
  { typeToken := "\tmodels\u3000", repoType := some .model, owner := "my_org"
    name := "bert_base/v1" }

theorem manyMarks_is_read :
    IsComplete "\tmodels\u3000_my_org/bert_base/v1" ∧
    parse "\tmodels\u3000_my_org/bert_base/v1" = .ok manyMarks ∧
    manyMarks.display = "\tmodels\u3000_my_org/bert_base/v1" ∧
    Pads manyMarks.typeToken.toList RepoType.model.plural.toList ∧
    ∃ read, parse manyMarks.display = .ok read ∧ read.owner = manyMarks.owner := by
  obtain ⟨complete, lossless, readBack⟩ := full_names_are_read_without_loss
  have composes : Composes "\tmodels\u3000_my_org/bert_base/v1" "\tmodels\u3000".toList
      "my_org".toList "bert_base/v1".toList := by
    constructor <;> decide +kernel
  have parts : ofParts "\tmodels\u3000".toList "my_org".toList "bert_base/v1".toList = manyMarks := by
    decide +kernel
  have parsed := (parse_of_composes composes).trans (congrArg Except.ok parts)
  obtain ⟨displayed, separable, typed, -⟩ := lossless _ _ parsed
  obtain ⟨read, readDisplay, -, owner, -⟩ := readBack _ separable
  refine ⟨(complete _).mp ⟨_, parsed⟩, parsed, displayed, ?_, read, readDisplay, owner⟩
  exact ((typed .model).mp rfl).resolve_left (by
    rw [← Text.trim_eq_iff RepoType.model.trimmed_name.1]
    decide +kernel)

end RepoIdentity

end ModelHub
