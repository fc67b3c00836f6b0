import ModelHub.Manifest.LibraryTag
import ModelHub.Proofs.Text.Case
import ModelHub.Proofs.Text.Split

/-! A file has its library tag by its name in small letters, whatever directory it lies in. No name falls
under rules for different tags, so that their order does not matter, and datasets only add rules. -/

namespace ModelHub.LibraryTag

open Text (SameLetter lowerAscii)

/-- The last part of a path: what stands behind its last slash, or all of it if there is none. -/
def EndsIn (path : String) (last : List Char) : Prop :=
  '/' ∉ last ∧ (path.toList = last ∨ ∃ dir, path.toList = dir ++ '/' :: last)

variable {scope : TagScope} {path other tag : String} {last file extension : List Char}

theorem exists_endsIn (path : String) : ∃ last, EndsIn path last := by
  cases split : Text.splitLast '/' path.toList with
  | none => exact ⟨_, Text.splitLast_eq_none split, .inl rfl⟩
  | some parts =>
    obtain ⟨text, absent⟩ := Text.splitLast_eq_some split
    exact ⟨parts.2, absent, .inr ⟨parts.1, text⟩⟩

theorem EndsIn.fileName_eq (ends : EndsIn path last) : fileName path = last.map lowerAscii := by
  obtain ⟨absent, text | ⟨dir, text⟩⟩ := ends
  · rw [fileName, text, Text.splitLast_of_not_mem absent]
  · rw [fileName, text, Text.splitLast_append dir absent]

theorem EndsIn.within (ends : EndsIn path last) (dir : String) : EndsIn (dir ++ "/" ++ path) last := by
  obtain ⟨absent, text⟩ := ends
  refine ⟨absent, .inr ?_⟩
  have whole : (dir ++ "/" ++ path).toList = dir.toList ++ '/' :: path.toList := by simp
  rw [whole]
  rcases text with text | ⟨inner, text⟩
  · exact ⟨dir.toList, by rw [text]⟩
  · exact ⟨dir.toList ++ '/' :: inner, by rw [text, List.append_assoc, List.cons_append]⟩

theorem EndsIn.sameLetters (ends : EndsIn path last)
    (same : path.toList.Forall₂ SameLetter other.toList) :
    ∃ last', EndsIn other last' ∧ last.Forall₂ SameLetter last' := by
  have noLetter : Text.isLetter '/' = false := by decide
  have lowerAscii_slash : lowerAscii '/' = '/' := (Text.lowerAscii_eq_mark_iff noLetter).mpr rfl
  rw [← Text.map_lowerAscii_eq_iff] at same
  have whole : ∀ last' : List Char, last.map lowerAscii = last'.map lowerAscii → '/' ∉ last' := by
    intro last' folded
    rw [← Text.mem_map_lowerAscii_iff noLetter, ← folded, Text.mem_map_lowerAscii_iff noLetter]
    exact ends.1
  obtain ⟨-, rfl | ⟨dir, text⟩⟩ := ends
  · exact ⟨other.toList, ⟨whole _ same, .inl rfl⟩, Text.map_lowerAscii_eq_iff.mp same⟩
  · rw [text, List.map_append, List.map_cons] at same
    obtain ⟨dir', rest, text', -, folded⟩ := List.map_eq_append_iff.mp same.symm
    obtain ⟨slash, last', rfl, isSlash, sameLast⟩ := List.map_eq_cons_iff.mp folded
    rw [lowerAscii_slash, Text.lowerAscii_eq_mark_iff noLetter] at isSlash
    rw [isSlash] at text'
    exact ⟨last', ⟨whole _ sameLast.symm, .inr ⟨dir', text'⟩⟩,
      Text.map_lowerAscii_eq_iff.mp sameLast.symm⟩

def HasExtension (file extension : List Char) : Prop :=
  '.' ∉ extension ∧ ∃ stem, file = stem ++ '.' :: extension

theorem extension?_eq_some_iff : extension? file = some extension ↔ HasExtension file extension := by
  constructor
  · intro found
    obtain ⟨⟨stem, _⟩, split, rfl⟩ := Option.map_eq_some_iff.mp found
    obtain ⟨text, absent⟩ := Text.splitLast_eq_some split
    exact ⟨absent, stem, text⟩
  · rintro ⟨absent, stem, rfl⟩
    rw [extension?, Text.splitLast_append stem absent, Option.map_some]

theorem HasExtension.eq {extension' : List Char} (has : HasExtension file extension)
    (has' : HasExtension file extension') : extension = extension' := by
  rw [← extension?_eq_some_iff] at has has'
  exact Option.some.inj (has.symm.trans has')

theorem extension?_of_undotted (undotted : '.' ∉ file) : extension? file = none := by
  rw [extension?, Text.splitLast_of_not_mem undotted, Option.map_none]

/-- A file of weights is known by its whole name, by how its name begins and ends, or by its
extension. -/
inductive WeightRule : List Char → String → Prop where
  | tensorflow : WeightRule "tf_model.h5".toList "tensorflow"
  | jax : WeightRule "flax_model.msgpack".toList "jax"
  | pytorch (part : List Char) :
      WeightRule ("pytorch_model".toList ++ part ++ ".bin".toList) "pytorch"
  | format {extension tag : String} (stem : List Char) (known : (extension, tag) ∈ weightExtensions) :
      WeightRule (stem ++ '.' :: extension.toList) tag

def DataRule (file : List Char) (tag : String) : Prop :=
  ∃ extension, (extension, tag) ∈ dataExtensions ∧ HasExtension file extension.toList

theorem lookup_eq_some_iff_mem {table : List (String × String)} (apart : (table.map Prod.fst).Nodup)
    {key : String} : table.lookup key = some tag ↔ (key, tag) ∈ table := by
  rw [List.lookup_eq_some_iff]
  constructor
  · rintro ⟨before, after, rfl, -⟩
    exact List.mem_append_right _ List.mem_cons_self
  · intro member
    obtain ⟨before, after, rfl⟩ := List.append_of_mem member
    refine ⟨before, after, rfl, fun entry earlier => bne_iff_ne.mpr fun same => ?_⟩
    rw [List.map_append, List.map_cons, List.nodup_append] at apart
    exact apart.2.2 _ (List.mem_map_of_mem earlier) _ List.mem_cons_self same.symm

theorem weightExtensions_apart : (weightExtensions.map Prod.fst).Nodup := by decide

theorem dataExtensions_apart : (dataExtensions.map Prod.fst).Nodup := by decide

/-- The extensions that the rules for names ask for are in neither table. -/
theorem extensions_plain : ∀ entry ∈ weightExtensions ++ dataExtensions,
    '.' ∉ entry.1.toList ∧ entry.1.toList ∉ ["h5".toList, "msgpack".toList, "bin".toList] := by
  decide

theorem weightExtensions_lookup_data : ∀ entry ∈ dataExtensions,
    weightExtensions.lookup entry.1 = none := by decide

theorem hasExtension_tensorflow : HasExtension "tf_model.h5".toList "h5".toList :=
  ⟨by decide, "tf_model".toList, by decide⟩

theorem hasExtension_jax : HasExtension "flax_model.msgpack".toList "msgpack".toList :=
  ⟨by decide, "flax_model".toList, by decide⟩

theorem weightTag?_of_hasExtension (has : HasExtension file extension)
    (notH5 : extension ≠ "h5".toList) (notMsgpack : extension ≠ "msgpack".toList) :
    weightTag? file =
      if (Text.dropLead? "pytorch_model".toList file).isSome && extension = "bin".toList then
        some "pytorch"
      else weightExtensions.lookup (String.ofList extension) := by
  have notTensorflow : file ≠ "tf_model.h5".toList := fun same =>
    notH5 (has.eq (same ▸ hasExtension_tensorflow))
  have notJax : file ≠ "flax_model.msgpack".toList := fun same =>
    notMsgpack (has.eq (same ▸ hasExtension_jax))
  rw [weightTag?, extension?_eq_some_iff.mpr has, Option.bind_some, if_neg notTensorflow,
    if_neg notJax]

theorem weightTag?_of_plain (has : HasExtension file extension)
    (plain : extension ∉ ["h5".toList, "msgpack".toList, "bin".toList]) :
    weightTag? file = weightExtensions.lookup (String.ofList extension) := by
  simp only [List.mem_cons, List.not_mem_nil, or_false, not_or] at plain
  obtain ⟨notH5, notMsgpack, notBin⟩ := plain
  rw [weightTag?_of_hasExtension has notH5 notMsgpack, decide_eq_false notBin, Bool.and_false,
    if_neg Bool.false_ne_true]

theorem weightTag?_pytorch (part : List Char) :
    weightTag? ("pytorch_model".toList ++ part ++ ".bin".toList) = some "pytorch" := by
  have has : HasExtension ("pytorch_model".toList ++ part ++ ".bin".toList) "bin".toList :=
    ⟨by decide, "pytorch_model".toList ++ part, rfl⟩
  rw [weightTag?_of_hasExtension has (by decide) (by decide), List.append_assoc,
    Text.dropLead?_append]
  rfl

theorem weightRule_of_weightTag? (found : weightTag? file = some tag) : WeightRule file tag := by
  obtain ⟨extension, has, chosen⟩ := Option.bind_eq_some_iff.mp found
  rw [extension?_eq_some_iff] at has
  split at chosen
  · next isModel =>
    cases chosen
    exact isModel ▸ .tensorflow
  · split at chosen
    · next isModel =>
      cases chosen
      exact isModel ▸ .jax
    · split at chosen
      · next isModel =>
        cases chosen
        rw [Bool.and_eq_true, decide_eq_true_eq] at isModel
        obtain ⟨leads, rfl⟩ := isModel
        obtain ⟨rest, dropped⟩ := Option.isSome_iff_exists.mp leads
        obtain rfl := Text.eq_append_of_dropLead? dropped
        obtain ⟨-, stem, text⟩ := has
        -- The lead has no dot, so the one before the extension comes after it.
        obtain ⟨part, rfl⟩ := Text.exists_append_of_lead (by decide) text
        rw [← List.append_assoc]
        exact .pytorch part
      · obtain ⟨-, stem, rfl⟩ := has
        rw [lookup_eq_some_iff_mem weightExtensions_apart] at chosen
        simpa using WeightRule.format stem chosen

/-- The order of the rules does not matter: a name that falls under several has one tag by all. -/
theorem weightTag?_eq_some_iff : weightTag? file = some tag ↔ WeightRule file tag := by
  refine ⟨weightRule_of_weightTag?, fun rule => ?_⟩
  cases rule with
  | tensorflow | jax => decide
  | pytorch part => exact weightTag?_pytorch part
  | @format extension _ stem known =>
    obtain ⟨undotted, plain⟩ := extensions_plain _ (List.mem_append_left _ known)
    rw [weightTag?_of_plain ⟨undotted, stem, rfl⟩ plain, String.ofList_toList]
    exact (lookup_eq_some_iff_mem weightExtensions_apart).mpr known

theorem dataTag?_eq_some_iff : dataTag? file = some tag ↔ DataRule file tag := by
  simp only [dataTag?, Option.bind_eq_some_iff, extension?_eq_some_iff,
    lookup_eq_some_iff_mem dataExtensions_apart, DataRule]
  constructor
  · rintro ⟨extension, has, known⟩
    exact ⟨_, known, by rwa [String.toList_ofList]⟩
  · rintro ⟨extension, known, has⟩
    exact ⟨_, has, by rwa [String.ofList_toList]⟩

theorem weightTag?_of_dataRule (rule : DataRule file tag) : weightTag? file = none := by
  obtain ⟨extension, known, has⟩ := rule
  obtain ⟨-, plain⟩ := extensions_plain _ (List.mem_append_right _ known)
  rw [weightTag?_of_plain has plain, String.ofList_toList, weightExtensions_lookup_data _ known]

/-- Of the rules for data only datasets make use, and these never stand against those for weights. -/
theorem ofFile?_eq_some_iff : ofFile? scope path = some tag ↔
    WeightRule (fileName path) tag ∨ scope = .dataset ∧ DataRule (fileName path) tag := by
  rw [← weightTag?_eq_some_iff]
  cases weight : weightTag? (fileName path) with
  | none => simp [ofFile?, weight, dataTag?_eq_some_iff]
  | some kept =>
    have noData : ¬DataRule (fileName path) tag := by
      intro rule
      rw [weightTag?_of_dataRule rule] at weight
      cases weight
    simp [ofFile?, weight, noData]

theorem EndsIn.ofFile?_eq_none (ends : EndsIn path last) (undotted : '.' ∉ last) :
    ofFile? scope path = none := by
  have undotted' : '.' ∉ fileName path := by
    rw [ends.fileName_eq, Text.mem_map_lowerAscii_iff (by decide)]
    exact undotted
  simp only [ofFile?, weightTag?, dataTag?, extension?_of_undotted undotted', Option.bind_none,
    ite_self]

theorem EndsIn.ofFile?_eq {last' : List Char} (ends : EndsIn path last) (ends' : EndsIn other last')
    (same : last.map lowerAscii = last'.map lowerAscii) : ofFile? scope path = ofFile? scope other := by
  unfold ofFile?
  rw [ends.fileName_eq, ends'.fileName_eq, same]

theorem exists_dataRule_iff : (∃ tag, DataRule file tag) ↔
    ∃ extension ∈ ["parquet", "json", "jsonl", "csv"], HasExtension file extension.toList := by
  have listed : dataExtensions.map Prod.fst = ["parquet", "json", "jsonl", "csv"] := rfl
  simp only [DataRule, ← listed, List.mem_map]
  constructor
  · rintro ⟨tag, extension, known, has⟩
    exact ⟨extension, ⟨_, known, rfl⟩, has⟩
  · rintro ⟨_, ⟨entry, known, rfl⟩, has⟩
    exact ⟨entry.2, entry.1, known, has⟩

theorem ofFile?_dataset_alone_iff : ofFile? .model path = none ∧ ofFile? .dataset path ≠ none ↔
    (∃ tag, DataRule (fileName path) tag) ∧ ¬∃ tag, WeightRule (fileName path) tag := by
  have model : ofFile? .model path = none ↔ ¬∃ tag, WeightRule (fileName path) tag := by
    simp [Option.eq_none_iff_forall_ne_some, ofFile?_eq_some_iff]
  have dataset : ofFile? .dataset path ≠ none ↔
      (∃ tag, WeightRule (fileName path) tag) ∨ ∃ tag, DataRule (fileName path) tag := by
    simp [Option.ne_none_iff_exists', ofFile?_eq_some_iff, exists_or]
  rw [model, dataset]
  constructor
  · rintro ⟨weightless, either⟩
    exact ⟨either.resolve_left weightless, weightless⟩
  · rintro ⟨data, weightless⟩
    exact ⟨weightless, .inr data⟩

/-- Tags that go by the names of files, and by more names in datasets than elsewhere. -/
structure FollowsNames (mark : TagScope → String → Option String) : Prop where
  lastPart : ∀ scope path other last last', EndsIn path last → EndsIn other last' →
    last.map lowerAscii = last'.map lowerAscii → mark scope path = mark scope other
  directory : ∀ scope dir path, mark scope (dir ++ "/" ++ path) = mark scope path
  letterCase : ∀ scope path other, path.toList.Forall₂ SameLetter other.toList →
    mark scope path = mark scope other
  noFile : ∀ scope dir, mark scope (dir ++ "/") = none
  undotted : ∀ scope path last, EndsIn path last → '.' ∉ last → mark scope path = none
  rules : ∀ scope path last tag, EndsIn path last → (mark scope path = some tag ↔
    WeightRule (last.map lowerAscii) tag ∨
      scope = .dataset ∧ DataRule (last.map lowerAscii) tag)
  prompt : ∀ path, mark .prompt path = mark .model path
  dataset : ∀ path tag, mark .model path = some tag → mark .dataset path = some tag
  further : ∀ path last, EndsIn path last →
    (mark .model path = none ∧ mark .dataset path ≠ none ↔
      (∃ extension ∈ ["parquet", "json", "jsonl", "csv"],
        HasExtension (last.map lowerAscii) extension.toList) ∧
      ¬∃ tag, WeightRule (last.map lowerAscii) tag)

theorem library_tags_follow_names : FollowsNames ofFile? where
  lastPart scope path other last last' ends ends' same := ends.ofFile?_eq ends' same
  directory scope dir path := by
    obtain ⟨last, ends⟩ := exists_endsIn path
    exact (ends.within dir).ofFile?_eq ends rfl
  letterCase scope path other same := by
    obtain ⟨last, ends⟩ := exists_endsIn path
    obtain ⟨last', ends', sameLast⟩ := ends.sameLetters same
    exact ends.ofFile?_eq ends' (Text.map_lowerAscii_eq_iff.mpr sameLast)
  noFile scope dir := by
    have ends : EndsIn (dir ++ "/") [] := ⟨List.not_mem_nil, .inr ⟨dir.toList, by simp⟩⟩
    exact ends.ofFile?_eq_none List.not_mem_nil
  undotted scope path last ends undotted := ends.ofFile?_eq_none undotted
  rules scope path last tag ends := by
    rw [ofFile?_eq_some_iff, ends.fileName_eq]
  prompt path := by
    refine Option.ext fun tag => ?_
    simp [ofFile?_eq_some_iff]
  dataset path tag marked := by
    rw [ofFile?_eq_some_iff] at marked ⊢
    exact .inl (marked.resolve_right nofun)
  further path last ends := by
    rw [ofFile?_dataset_alone_iff, exists_dataRule_iff, ends.fileName_eq]

theorem shards_follow_names :
    EndsIn "Runs.csv/v1.2/PyTorch_Model.Part.BIN" "PyTorch_Model.Part.BIN".toList ∧
    ofFile? .prompt "Runs.csv/v1.2/PyTorch_Model.Part.BIN" = some "pytorch" ∧
    ofFile? .dataset "Runs.csv/v1.2/PyTorch_Model.Part.BIN" = some "pytorch" ∧
    ofFile? .dataset "Runs.csv/v1.2/README" = none ∧
    ofFile? .model "Runs.csv/Train.v2.JSONL" = none ∧
    ofFile? .dataset "Runs.csv/Train.v2.JSONL" ≠ none := by
  have follows := library_tags_follow_names
  have shard : EndsIn "Runs.csv/v1.2/PyTorch_Model.Part.BIN" "PyTorch_Model.Part.BIN".toList :=
    ⟨by decide, .inr ⟨"Runs.csv/v1.2".toList, by decide⟩⟩
  have readme : EndsIn "Runs.csv/v1.2/README" "README".toList :=
    ⟨by decide, .inr ⟨"Runs.csv/v1.2".toList, by decide⟩⟩
  have rows : EndsIn "Runs.csv/Train.v2.JSONL" "Train.v2.JSONL".toList :=
    ⟨by decide, .inr ⟨"Runs.csv".toList, by decide⟩⟩
  have inPrompts : ofFile? .prompt "Runs.csv/v1.2/PyTorch_Model.Part.BIN" = some "pytorch" := by
    rw [follows.rules _ _ _ _ shard]
    exact .inl (WeightRule.pytorch ".part".toList)
  have inDatasets : ofFile? .dataset "Runs.csv/v1.2/PyTorch_Model.Part.BIN" = some "pytorch" := by
    refine follows.dataset _ _ ?_
    rw [← follows.prompt]
    exact inPrompts
  have added := (follows.further _ _ rows).mpr ⟨⟨"jsonl", by decide, by decide, "train.v2".toList,
    by decide⟩, ?_⟩
  · exact ⟨shard, inPrompts, inDatasets, follows.undotted _ _ _ readme (by decide), added⟩
  · rintro ⟨tag, rule⟩
    have has : HasExtension ("Train.v2.JSONL".toList.map lowerAscii) "jsonl".toList :=
      ⟨by decide, "train.v2".toList, by decide⟩
    have unknown : weightExtensions.lookup (String.ofList "jsonl".toList) = none := by decide
    have tagged := weightTag?_eq_some_iff.mpr rule
    rw [weightTag?_of_plain has (by decide), unknown] at tagged
    cases tagged

end ModelHub.LibraryTag
