import ModelHub.Proofs.Manifest.FrontMatter
import ModelHub.Proofs.Tagging.Replacement
import ModelHub.Proofs.Text.Blank
import ModelHub.Proofs.Yaml.Mapping

namespace ModelHub.MetaTags

open Text (Trimmed)
open Yaml (Value)
open Yaml.Value (Distinct parse?)

/-- A scalar and its name: strings are trimmed, numbers and booleans are as they are printed. -/
inductive Shows : Value → String → Prop where
  | text (text : String) : Shows (.text text) (Text.trimString text)
  | int (n : Int) : Shows (.int n) (toString n)
  | real (x : Yaml.Real) : Shows (.real x) x.text
  | yes : Shows (.bool true) "true"
  | no : Shows (.bool false) "false"

/-- The value is a scalar of that name, or a sequence with one. -/
def Tells (value : Value) (name : String) : Prop :=
  Shows value name ∨ ∃ items, value = .sequence items ∧ ∃ item ∈ items, Shows item name

def Declares (entries : List (Value × Value)) (tag : DeclaredTag) : Prop :=
  tag.group ∈ groups ∧ tag.name ≠ "" ∧
    ∃ value, (.text tag.group, value) ∈ entries ∧ Tells value tag.name

def Holds (content : String) (entries : List (Value × Value)) : Prop :=
  ∃ block, FrontMatter.block? content = some block ∧ Text.trimString block ≠ "" ∧
    parse? block = some (.mapping entries)

theorem Shows.trimmed {value : Value} {name : String} (shows' : Shows value name) :
    Trimmed name.toList := by
  cases shows' with
  | text text =>
    rw [Text.trimString, String.toList_ofList]
    exact Text.trimmed_trim _
  | int n => exact (Text.solid_toString_int n).trimmed
  | real x =>
    cases x with
    | finite value => exact value.solid_text.trimmed
    | infinite negative => cases negative <;> simp [Trimmed, Yaml.Real.text, Text.isBlank]
    | undefined => simp [Trimmed, Yaml.Real.text, Text.isBlank]
  | yes | no => simp [Trimmed, Text.isBlank]

theorem scalarText_eq_some_iff {value : Value} {name : String} :
    scalarText value = some name ↔ Shows value name := by
  constructor
  · intro shown
    unfold scalarText at shown
    split at shown <;> cases shown <;> constructor
  · rintro ⟨⟩ <;> rfl

theorem scalarName_eq_some_iff {value : Value} {name : String} :
    scalarName value = some name ↔ name ≠ "" ∧ Shows value name := by
  rw [scalarName, Option.filter_eq_some_iff, scalarText_eq_some_iff, and_comm, decide_eq_true_eq]

theorem mem_namesOf_iff {value : Value} {name : String} :
    name ∈ namesOf value ↔ name ≠ "" ∧ Tells value name := by
  unfold namesOf Tells
  split
  · next items =>
    simp only [List.mem_filterMap, scalarName_eq_some_iff]
    constructor
    · rintro ⟨item, member, named, isShown⟩
      exact ⟨named, .inr ⟨items, rfl, item, member, isShown⟩⟩
    · rintro ⟨named, ⟨⟨⟩⟩ | ⟨_, same, item, member, isShown⟩⟩
      cases same
      exact ⟨item, member, named, isShown⟩
  · next value notSequence =>
    rw [Option.mem_toList, scalarName_eq_some_iff]
    refine and_congr_right fun _ => (or_iff_left ?_).symm
    rintro ⟨items, rfl, -⟩
    exact notSequence items rfl

variable {entries : List (Value × Value)} {tag : DeclaredTag} {content : String}

theorem mem_insert_iff {head : DeclaredTag} {tags : List DeclaredTag} :
    tag ∈ insert head tags ↔ tag = head ∨ tag ∈ tags := by
  refine ⟨mem_insert, fun member => ?_⟩
  induction tags with
  | nil => exact List.mem_singleton.mpr (member.resolve_right List.not_mem_nil)
  | cons first rest ih =>
    unfold insert
    split
    · next same =>
      rcases member with rfl | later
      · exact same ▸ List.mem_cons_self
      · exact later
    · split
      · exact List.mem_cons.mpr member
      · rcases member with rfl | later
        · exact List.mem_cons_of_mem _ (ih (.inl rfl))
        · rcases List.mem_cons.mp later with rfl | inRest
          · exact List.mem_cons_self
          · exact List.mem_cons_of_mem _ (ih (.inr inRest))

theorem mem_foldr_insert_iff {tags : List DeclaredTag} : tag ∈ tags.foldr insert [] ↔ tag ∈ tags := by
  induction tags with
  | nil => exact Iff.rfl
  | cons head rest ih => rw [List.foldr_cons, mem_insert_iff, ih, List.mem_cons]

theorem mem_ofGroup_iff (distinct : Distinct entries) {group : String} :
    tag ∈ ofGroup entries group ↔ tag.group = group ∧ tag.name ≠ "" ∧
      ∃ value, (.text group, value) ∈ entries ∧ Tells value tag.name := by
  simp only [← Yaml.Value.get?_eq_some_iff distinct]
  unfold ofGroup
  split
  · next absent => simp [absent]
  · next value found =>
    simp only [found, List.mem_map, mem_namesOf_iff, Option.some.injEq, exists_eq_left']
    constructor
    · rintro ⟨name, told, rfl⟩
      exact ⟨rfl, told⟩
    · rintro ⟨rfl, told⟩
      exact ⟨tag.name, told, rfl⟩

theorem mem_ofMapping_iff (distinct : Distinct entries) :
    tag ∈ ofMapping entries ↔ Declares entries tag := by
  rw [ofMapping, mem_foldr_insert_iff, List.mem_flatMap]
  simp only [mem_ofGroup_iff distinct]
  constructor
  · rintro ⟨group, recognised, rfl, told⟩
    exact ⟨recognised, told⟩
  · rintro ⟨recognised, told⟩
    exact ⟨tag.group, recognised, rfl, told⟩

/-- Only the entries under recognised keys count. -/
theorem ofMapping_congr {others : List (Value × Value)} (distinct : Distinct entries)
    (distinctToo : Distinct others)
    (same : ∀ group ∈ groups, ∀ value,
      (.text group, value) ∈ others ↔ (.text group, value) ∈ entries) :
    ofMapping others = ofMapping entries := by
  unfold ofMapping
  congr 1
  refine List.flatMap_congr fun group recognised => ?_
  have found : Value.get? group others = Value.get? group entries := by
    refine Option.ext fun value => ?_
    rw [Value.get?_eq_some_iff distinctToo, Value.get?_eq_some_iff distinct]
    exact same group recognised value
  rw [ofGroup, found, ofGroup]

theorem Holds.distinct (holds : Holds content entries) : Distinct entries := by
  obtain ⟨block, -, -, parsed⟩ := holds
  exact Yaml.Value.distinct_of_parse? parsed

theorem declared_of_holds (holds : Holds content entries) :
    declared content = .ok (ofMapping entries) := by
  obtain ⟨block, found, notBlank, parsed⟩ := holds
  simp only [declared, found, if_neg notBlank, parsed]

theorem mem_of_declared {tags : List DeclaredTag} (read : declared content = .ok tags) :
    tag ∈ tags ↔ ∃ entries, Holds content entries ∧ Declares entries tag := by
  constructor
  · intro member
    have some : tags ≠ [] := List.ne_nil_of_mem member
    unfold declared at read
    split at read
    · exact absurd (Except.ok.inj read).symm some
    · next block found =>
      split at read
      · exact absurd (Except.ok.inj read).symm some
      · next notBlank =>
        split at read
        · cases read
        · next entries parsed =>
          have holds : Holds content entries := ⟨block, found, notBlank, parsed⟩
          obtain rfl := Except.ok.inj read
          exact ⟨entries, holds, (mem_ofMapping_iff holds.distinct).mp member⟩
        · exact absurd (Except.ok.inj read).symm some
        · cases read
  · rintro ⟨entries, holds, declares⟩
    obtain rfl := Except.ok.inj (read.symm.trans (declared_of_holds holds))
    exact (mem_ofMapping_iff holds.distinct).mpr declares

theorem declared_error_iff : (∃ e, declared content = .error e) ↔
    ∃ block, FrontMatter.block? content = some block ∧ Text.trimString block ≠ "" ∧
      parse? block ≠ some .null ∧ ∀ entries, parse? block ≠ some (.mapping entries) := by
  constructor
  · rintro ⟨e, failed⟩
    unfold declared at failed
    split at failed
    · cases failed
    · next block found =>
      split at failed
      · cases failed
      · next notBlank =>
        refine ⟨block, found, notBlank, ?_⟩
        split at failed
        · next unreadable => simp [unreadable]
        · cases failed
        · cases failed
        · next value notMapping notNull parsed =>
          rw [parsed]
          exact ⟨fun same => notNull (Option.some.inj same),
            fun entries same => notMapping entries (Option.some.inj same)⟩
  · rintro ⟨block, found, notBlank, notNull, notMapping⟩
    simp only [declared, found, if_neg notBlank]
    split
    · exact ⟨_, rfl⟩
    · next entries parsed => exact absurd parsed (notMapping entries)
    · next parsed => exact absurd parsed notNull
    · exact ⟨_, rfl⟩

/-- What a README declares is an error exactly if its front matter is neither blank nor null nor a
mapping. Else it is, in order and without repetition, what the scalars under the recognised keys say:
no other keys have an influence on it, and neither has the text behind the front matter. -/
theorem declared_tags_are_recognised_scalars (content : String) :
    ((∃ e, declared content = .error e) ↔
      ∃ block, FrontMatter.block? content = some block ∧ Text.trimString block ≠ "" ∧
        parse? block ≠ some .null ∧ ∀ entries, parse? block ≠ some (.mapping entries)) ∧
    (∀ tags, declared content = .ok tags →
      tags.Pairwise DeclaredTag.Precedes ∧
      (∀ tag, tag ∈ tags ↔ ∃ entries, Holds content entries ∧ Declares entries tag) ∧
      ∀ tag ∈ tags, tag.group ∈ groups ∧ tag.name ≠ "" ∧ Trimmed tag.name.toList) ∧
    (∀ entries other others, Holds content entries → Holds other others →
      (∀ group ∈ groups, ∀ value,
        (.text group, value) ∈ others ↔ (.text group, value) ∈ entries) →
      declared other = declared content) ∧
    ∀ front block behind other, content.toList = front ++ behind →
      FrontMatter.Encloses content.toList block behind → FrontMatter.EndsLine other →
      declared (String.ofList (front ++ other)) = declared content := by
  refine ⟨declared_error_iff, fun tags read => ⟨pairwise_declared read, fun _ => mem_of_declared read,
    ?_⟩, ?_, ?_⟩
  · intro tag member
    obtain ⟨entries, -, recognised, named, value, -, told⟩ := (mem_of_declared read).mp member
    refine ⟨recognised, named, ?_⟩
    rcases told with isShown | ⟨items, -, item, -, isShown⟩
    · exact isShown.trimmed
    · exact isShown.trimmed
  · intro entries other others holds holdsToo same
    rw [declared_of_holds holds, declared_of_holds holdsToo,
      ofMapping_congr holds.distinct holdsToo.distinct same]
  · intro front block behind other isContent encloses ends
    rw [declared, FrontMatter.block?_of_other isContent encloses ends, declared]

/-- Some of what stands under recognised keys tells nothing. -/
def mixedBlock : String :=
  "author: acme\ntags: [nlp, ' chat ', [deep], ~, 7, nlp]\nlicense: !odd mit\nlanguage: en\n"

def mixedReadme : String := "---\n" ++ mixedBlock ++ "---\n# BERT\n"

theorem mixedReadme_declares :
    declared mixedReadme =
      .ok [⟨"language", "en"⟩, ⟨"tags", "7"⟩, ⟨"tags", "chat"⟩, ⟨"tags", "nlp"⟩] ∧
    (∃ entries, Holds mixedReadme entries ∧ Declares entries ⟨"tags", "chat"⟩) ∧
    (∀ entries, Holds mixedReadme entries → ¬ Declares entries ⟨"license", "mit"⟩) ∧
    FrontMatter.Encloses mixedReadme.toList mixedBlock.toList "\n# BERT\n".toList ∧
    declared (String.ofList ("---\n" ++ mixedBlock ++ "---").toList) = declared mixedReadme := by
  have read : declared mixedReadme =
      .ok [⟨"language", "en"⟩, ⟨"tags", "7"⟩, ⟨"tags", "chat"⟩, ⟨"tags", "nlp"⟩] := by
    decide +kernel
  have fence : FrontMatter.Fence "---".toList := ⟨[], [], rfl, nofun, .inl rfl⟩
  have closes : FrontMatter.Closes (mixedBlock.toList ++ "---\n# BERT\n".toList) mixedBlock.toList
      "\n# BERT\n".toList := by
    refine ⟨"---".toList, by simp, fence, .inr rfl, .inr rfl, ?_⟩
    simp only [← FrontMatter.isFence_iff]
    decide
  have encloses : FrontMatter.Encloses mixedReadme.toList mixedBlock.toList
      "\n# BERT\n".toList :=
    ⟨[], "---".toList, _, by simp [mixedReadme], .inl rfl, fence, closes⟩
  obtain ⟨-, told, -, unaffected⟩ := declared_tags_are_recognised_scalars mixedReadme
  obtain ⟨-, isTold, -⟩ := told _ read
  refine ⟨read, (isTold _).mp (by decide), ?_, encloses, ?_⟩
  · intro entries holds declares
    have member := (isTold ⟨"license", "mit"⟩).mpr ⟨entries, holds, declares⟩
    revert member
    decide
  · have same := unaffected ("---\n" ++ mixedBlock ++ "---").toList _ _ [] (by simp [mixedReadme])
      encloses (.inl rfl)
    rwa [List.append_nil] at same

end ModelHub.MetaTags
